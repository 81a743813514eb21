import Outbox.Delivery.Consumer
import Outbox.Proofs.Batch.Stored
import Outbox.Proofs.Queue.Decoding

/-!
# Interleavings

Everything that happens while operations are delivered in the background is a sequence of sections.
Any section of a producer, of the consumer or of a stop may come after any other one, and in between
anything may happen to the service, and to the disk outside of the folder of the queue.

* `Section` are the sections, and `Background.after` is what one of them does;
* `Background.Allows` is what is asked of a section: what is put can be stored, if with a moment in whole
  milliseconds, and does not hand the queue's own files over for removal, and a stop goes on only where it
  does;
* `Background.run` is any number of sections;
* `run_enqueue`, `run_pause`, `run_beginStop` and the like say which sections the calls are.
-/

namespace Outbox

/-- What may happen next. -/
inductive Section (σ : Type) where
  | put (wall : Nat) (op : Operation)
  | publish (version : Nat) (overflowing : Bool)
  | checkProgress (now : Nat)
  | flush
  | wake
  | notify
  | start (now : Nat)
  | suspend
  | resume
  | askToStop
  | interrupt
  | markStopped
  | cleanUp
  | close
  | consumer (now : Nat)
  /-- Something happens to the service. -/
  | service (s : σ)
  /-- Something happens to the disk. -/
  | disk (d : Disk)

/-! ## Files that are handed over -/

/-- The file that an operation hands over for removal, if it does, is not in a folder. -/
def Operation.Spares (op : Operation) (folder : Place) : Prop :=
  ∀ ext path, op.mutation = .uploadFile ext path true →
    ∀ (d : Disk) (p : Place), d.follow? path = some p → ¬ folder <+: p

theorem Operation.spares_cut {op : Operation} {folder : Place} : op.cut.Spares folder ↔ op.Spares folder := by
  obtain ⟨path, m⟩ := op
  obtain ⟨t, rfl⟩ | ⟨same, -⟩ := m.cut_cases
  · exact ⟨fun _ _ _ => nofun, fun _ _ _ => nofun⟩
  · rw [Operation.cut, same]

theorem Disk.spares_removeFile (d : Disk) {folder : Place} {path : String}
    (outside : ∀ {p : Place}, d.follow? path = some p → ¬ folder <+: p) :
    d.Spares (d.removeFile path) folder := by
  unfold Disk.removeFile
  cases followed : d.follow? path with
  | none => exact .refl d folder
  | some p =>
    cases removed : d.unlink? p with
    | none =>
      show d.Spares (((some p).bind d.unlink?).getD d) folder
      rw [Option.bind_some, removed]
      exact .refl d folder
    | some d' =>
      show d.Spares (((some p).bind d.unlink?).getD d) folder
      rw [Option.bind_some, removed]
      exact .unlink? (outside followed) removed

/-- Removing what was uploaded spares a folder that the operations spare. -/
theorem Disk.spares_removeUploaded (d : Disk) {folder : Place} {bundle : Bundle}
    (h : ∀ op ∈ bundle.uploads, op.Spares folder) : d.Spares (d.removeUploaded bundle) folder := by
  unfold Disk.removeUploaded
  generalize bundle.uploads = uploads at h
  induction uploads generalizing d with
  | nil => exact .refl d folder
  | cons op uploads ih =>
    rw [List.foldl_cons]
    refine Spares.trans ?_ (ih _ fun op' mem => h op' (List.mem_cons_of_mem _ mem))
    split
    · next ext path handed =>
      exact d.spares_removeFile fun followed => h op List.mem_cons_self ext path handed d _ followed
    · exact .refl d folder

namespace Background

variable {σ : Type}

/-! ## Sections -/

/-- Everything after a section. -/
def after (b : Backend σ) (p : Background σ) : Section σ → Background σ
  | .put wall op => (p.putSection wall op).1
  | .publish version overflowing => p.publish version overflowing
  | .checkProgress now => p.checkProgress now
  | .flush => p.flush
  | .wake => p.wake
  | .notify => p.notify
  | .start now => p.start now
  | .suspend => p.suspend
  | .resume => p.resume
  | .askToStop => p.askToStop
  | .interrupt => p.interrupt
  | .markStopped => p.markStopped
  | .cleanUp => p.cleanUp.1
  | .close => p.close
  | .consumer now => p.step b now
  | .service s => { p with backend := s }
  | .disk d => { p with disk := d }

/-- Whether a section may come next. -/
def Allows (p : Background σ) : Section σ → Prop
  | .put wall op =>
    (p.queue.writer.isSome = true → Record.Durable ⟨op.cut, p.queue.lastPut + 1, wall⟩) ∧
      op.Spares p.queue.folder
  | .markStopped => p.control.status.isAlive = false
  | .cleanUp => p.control.status = .stopped
  | .disk d => p.disk.Spares d p.queue.folder
  | _ => True

/-- Everything after some sections. -/
def run (b : Backend σ) (p : Background σ) : List (Section σ) → Background σ
  | [] => p
  | s :: sections => run b (p.after b s) sections

/-- Whether sections may come one after the other. -/
def AllowsAll (b : Backend σ) (p : Background σ) : List (Section σ) → Prop
  | [] => True
  | s :: sections => p.Allows s ∧ AllowsAll b (p.after b s) sections

variable {b : Backend σ} {p : Background σ}

theorem run_append (front back : List (Section σ)) :
    p.run b (front ++ back) = (p.run b front).run b back := by
  induction front generalizing p with
  | nil => rfl
  | cons s front ih => exact ih

theorem allowsAll_append {front back : List (Section σ)} :
    p.AllowsAll b (front ++ back) ↔ p.AllowsAll b front ∧ (p.run b front).AllowsAll b back := by
  induction front generalizing p with
  | nil =>
    show p.AllowsAll b back ↔ True ∧ p.AllowsAll b back
    rw [true_and]
  | cons s front ih =>
    show (p.Allows s ∧ (p.after b s).AllowsAll b (front ++ back)) ↔
      (p.Allows s ∧ (p.after b s).AllowsAll b front) ∧ _
    rw [ih, and_assoc]
    rfl

/-! ## Calls -/

/-- An operation that is accepted is enqueued in three sections. -/
theorem run_enqueue {wall now version : Nat} {op : Operation} {overflowing : Bool}
    (accepted : p.isRefusing = false)
    (put : (p.putSection wall op).2 = .ok (version, overflowing)) :
    (p.enqueue wall now op).1 =
      p.run b [.put wall op, .publish version overflowing, .checkProgress now] := by
  rcases hp : p.putSection wall op with ⟨p', r⟩
  rw [hp] at put
  simp only at put
  subst put
  simp [enqueue, accepted, hp, run, after]

theorem run_beginWait : p.beginWait.1 = p.run b [.flush, .wake] :=
  rfl

theorem run_pause : p.pause = p.run b [.suspend, .flush] :=
  rfl

theorem run_beginStop :
    p.beginStop.1 = p.run b (if p.flush.handle then [.flush, .askToStop] else [.flush]) := by
  show (if p.flush.handle then (p.flush.askToStop, _) else (p.flush, _) : _ × Option Nat).1 = _
  split <;> rfl

theorem run_finishStop :
    p.finishStop.1 =
      p.run b (if p.control.status.isAlive then [] else [.markStopped, .cleanUp]) := by
  unfold finishStop
  split <;> rfl

end Background

end Outbox
