import Outbox.Proofs.Batch.Coverage
import Outbox.Proofs.Merge.Refusals

/-!
# Merging does not fail

Of the errors of merging, two stand for pending changes that do not occur, and the third one is for copies that
were not resolved. So merging goes on through all operations that are no copies, batch after batch, and a call
that collects a batch resolves every copy before it is merged and never fails for merging.

* `Merger.leftOver` are the operations that a new batch does not take, and `Merger.leftAfter` those that batches
  in turn leave; `leftAfter_length_iff` says when all are taken;
* `collectFrom_ne_merge` is the law of a call that collects a batch;
* `only_copies_fail` puts them together.
-/

namespace Outbox

namespace Merger

variable {m : Merger} {ops : List Operation} {n : Nat}

/-! ## Batch after batch -/

/-- The operations that a new batch leaves to the next one. -/
def leftOver (ops : List Operation) : Except MergeError (List Operation) :=
  (empty.processAll ops).2.map fun taken => ops.drop taken

/-- The operations that are left after so many batches, each made of what the one before it left. -/
def leftAfter : Nat → List Operation → Except MergeError (List Operation)
  | 0, ops => .ok ops
  | n + 1, ops => (leftOver ops).bind (leftAfter n)

/-- Operations that are no copies are taken as far as they can join. -/
theorem processAll_of_plain (sound : m.Sound) (plain : ∀ op ∈ ops, op.isCopy = false) :
    ∃ n, (m.processAll ops).2 = .ok n := by
  induction ops generalizing m with
  | nil => exact ⟨0, rfl⟩
  | cons op ops ih =>
    rcases first : m.process op with ⟨m', r⟩
    obtain ⟨sound', ⟨rfl, -⟩ | ⟨rfl, -⟩⟩ := processed sound (plain op List.mem_cons_self) first
    · obtain ⟨n, rest⟩ := ih sound' fun op' member => plain op' (List.mem_cons_of_mem _ member)
      exact ⟨n + 1, by rw [taken_processAll first, rest]; rfl⟩
    · exact ⟨0, by rw [processAll, first]⟩

/-- A new batch takes at least one of some operations that are no copies. -/
theorem leftOver_of_plain {op : Operation} (plain : ∀ op' ∈ op :: ops, op'.isCopy = false) :
    ∃ n, leftOver (op :: ops) = .ok (ops.drop n) := by
  have joins : (empty.process op).2 = .ok true := process_empty_iff.2 (plain op List.mem_cons_self)
  have sound := sound_empty.process op
  rcases first : empty.process op with ⟨m', r⟩
  rw [first] at joins sound
  subst joins
  obtain ⟨n, rest⟩ := processAll_of_plain sound fun op' member => plain op' (List.mem_cons_of_mem _ member)
  exact ⟨n, by rw [leftOver, taken_processAll first, rest]; rfl⟩

/-- Batches take all operations that are no copies, each of them at least one. -/
theorem leftAfter_of_plain (enough : ops.length ≤ n) (plain : ∀ op ∈ ops, op.isCopy = false) :
    leftAfter n ops = .ok [] := by
  induction n generalizing ops with
  | zero => rw [leftAfter, List.length_eq_zero_iff.1 (Nat.le_zero.1 enough)]
  | succ n ih =>
    cases ops with
    | nil => exact ih (Nat.zero_le n) plain
    | cons op ops =>
      obtain ⟨k, left⟩ := leftOver_of_plain plain
      rw [leftAfter, left]
      refine ih ?_ fun op' member => plain op' (List.mem_cons_of_mem _ (List.mem_of_mem_drop member))
      rw [List.length_drop]
      rw [List.length_cons] at enough
      omega

/-- What batches have taken are no copies. -/
theorem isCopy_of_leftAfter (all : leftAfter n ops = .ok []) : ∀ op ∈ ops, op.isCopy = false := by
  induction n generalizing ops with
  | zero =>
    cases all
    exact fun op member => absurd member List.not_mem_nil
  | succ n ih =>
    rw [leftAfter, leftOver] at all
    cases taken : (empty.processAll ops).2 with
    | error e =>
      rw [taken] at all
      cases all
    | ok k =>
      rw [taken] at all
      intro op member
      rw [← List.take_append_drop k ops, List.mem_append] at member
      rcases member with first | later
      · exact isCopy_of_processAll taken op first
      · exact ih all op later

/-- **Batch after batch takes all operations** exactly if there are no copies among them. -/
theorem leftAfter_length_iff : leftAfter ops.length ops = .ok [] ↔ ∀ op ∈ ops, op.isCopy = false :=
  ⟨isCopy_of_leftAfter, leftAfter_of_plain (Nat.le_refl _)⟩

end Merger

/-! ## Collecting -/

variable {ρ σ : Type}

/-- **A call never fails for merging**, whatever the source gives and the service answers. -/
theorem collectFrom_ne_merge (src : Source ρ) (b : Backend σ) (limits : Limits) (fuel : Nat)
    (stash : Option Queued) (source : ρ) (s : σ) (e : MergeError) :
    (collectFrom src b limits fuel .empty stash source s).result ≠ .error (.merge e) := by
  intro fails
  obtain ⟨run, y, took, ends | ⟨-, full⟩⟩ := collectFrom_ended src b limits fuel ⟨.empty, stash, source, s⟩
  · generalize collectFrom src b limits fuel _ _ _ _ = call at fails ends
    cases ends with
    | failed read taken => exact (took.covers Collecting.covers_empty).dealt taken
    | drained | broken | kept | shipped | unreached => cases fails
  · rw [full] at fails
    cases fails

/-- **Only a copy fails to be merged.** In every batch, whatever became of the operations before, an operation
fails exactly if it is a copy, and for that reason. An empty batch takes every other one, so that batch after
batch takes all of some operations exactly if there are no copies among them. A call that collects a batch never
fails for merging, whatever it reads and the service answers. -/
theorem only_copies_fail (ops : List Operation) (op : Operation) :
    (∀ e, ((Merger.empty.takeAll ops).process op).2 = .error e ↔
        op.isCopy = true ∧ e = .unresolvedCopy op.path) ∧
      ((Merger.empty.process op).2 = .ok true ↔ op.isCopy = false) ∧
      (Merger.leftAfter ops.length ops = .ok [] ↔ ∀ op' ∈ ops, op'.isCopy = false) ∧
      ∀ {ρ σ : Type} (src : Source ρ) (b : Backend σ) (limits : Limits) (fuel : Nat) (stash : Option Queued)
        (source : ρ) (s : σ) (e : MergeError),
        (collectFrom src b limits fuel .empty stash source s).result ≠ .error (.merge e) :=
  ⟨fun _ => Merger.process_eq_error_iff (Merger.sound_empty.takeAll ops), Merger.process_empty_iff,
    Merger.leftAfter_length_iff, fun src b limits fuel stash source s e =>
      collectFrom_ne_merge src b limits fuel stash source s e⟩

end Outbox
