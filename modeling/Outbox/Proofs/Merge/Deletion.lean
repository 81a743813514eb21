import Outbox.Proofs.Merge.Lanes
import Outbox.Proofs.Merge.Replay

/-!
# Deletions stay valid

Deleting an attribute that does not exist fails, and whether it exists when a batch is sent is not known. A
batch deletes an attribute at most once, behind one of the operations before the first deletion if there were
any, and what came behind the last deletion is merged as if it were alone. So no deletion fails that would
not have failed in the order in which the operations came.

* `beforeDeletion` and `behindDeletion` are the operations before the first deletion and behind the last;
* `DeletesExisting` says that no deletion fails, from either state of the attribute;
* `Pending.Divided` relates what is pending to the operations accepted, kept by every visit
  (`Divided.visited`);
* `Merger.deletion_onPath` is the result.
-/

namespace Outbox

/-! ## Before and behind -/

/-- Whether an operation deletes its attribute. -/
def Operation.isDeletion (op : Operation) : Bool :=
  op.mutation = .delete

/-- The operations before the first deletion, all of them if there is none. -/
def beforeDeletion (ops : List Operation) : List Operation :=
  ops.takeWhile fun op => !op.isDeletion

/-- The operations behind the last deletion, all of them if there is none. -/
def behindDeletion (ops : List Operation) : List Operation :=
  (beforeDeletion ops.reverse).reverse

/-- Whether every deletion finds the attribute in existence, if it exists or not to begin with. Any other
operation makes it exist. -/
def DeletesExisting (present : Bool) : List Operation → Prop
  | [] => True
  | op :: ops =>
    if op.isDeletion then present = true ∧ DeletesExisting false ops else DeletesExisting true ops

section

variable {ops : List Operation} {op : Operation}

theorem Operation.isDeletion_iff : op.isDeletion = true ↔ op.mutation = .delete :=
  decide_eq_true_iff

theorem Operation.keeps_of_role {role : Role} (hr : op.mutation.role = role) (other : role ≠ .delete) :
    op.isDeletion = false := by
  rw [Bool.eq_false_iff, Ne, isDeletion_iff]
  intro deletes
  rw [deletes] at hr
  exact other hr.symm

theorem beforeDeletion_append_of_none (none_deletes : ops.any Operation.isDeletion = false)
    (more : List Operation) : beforeDeletion (ops ++ more) = ops ++ beforeDeletion more :=
  List.takeWhile_append_of_pos (by simpa using none_deletes)

theorem beforeDeletion_of_none (none_deletes : ops.any Operation.isDeletion = false) :
    beforeDeletion ops = ops := by
  have alone := beforeDeletion_append_of_none none_deletes []
  rwa [List.append_nil, show beforeDeletion [] = [] from rfl, List.append_nil] at alone

theorem behindDeletion_of_none (none_deletes : ops.any Operation.isDeletion = false) :
    behindDeletion ops = ops := by
  rw [behindDeletion, beforeDeletion_of_none (by rwa [List.any_reverse]), List.reverse_reverse]

theorem behindDeletion_concat (ops : List Operation) (op : Operation) :
    behindDeletion (ops ++ [op]) = if op.isDeletion then [] else behindDeletion ops ++ [op] := by
  cases deletes : op.isDeletion <;> simp [behindDeletion, beforeDeletion, deletes]

/-- Nothing is before the first deletion that was not there without what follows. -/
theorem beforeDeletion_append (deletes : ops.any Operation.isDeletion = true) (more : List Operation) :
    beforeDeletion (ops ++ more) = beforeDeletion ops := by
  induction ops with
  | nil => cases deletes
  | cons op ops ih =>
    cases first : op.isDeletion with
    | true => simp [beforeDeletion, first]
    | false =>
      rw [List.any_cons, first, Bool.false_or] at deletes
      simpa [beforeDeletion, first] using ih deletes

/-- Without a deletion none fails. -/
theorem deletesExisting_of_none (none_deletes : ops.any Operation.isDeletion = false) (present : Bool) :
    DeletesExisting present ops := by
  induction ops generalizing present with
  | nil => trivial
  | cons op ops ih =>
    rw [List.any_cons, Bool.or_eq_false_iff] at none_deletes
    rw [DeletesExisting, if_neg (by simp [none_deletes.1])]
    exact ih none_deletes.2 true

/-- The first deletion finds the attribute in existence. -/
theorem DeletesExisting.first {present : Bool} (h : DeletesExisting present ops)
    (deletes : ops.any Operation.isDeletion = true) : present = true ∨ beforeDeletion ops ≠ [] := by
  cases ops with
  | nil => cases deletes
  | cons op ops =>
    cases first : op.isDeletion with
    | true =>
      rw [DeletesExisting, if_pos first] at h
      exact .inl h.1
    | false => exact .inr (by simp [beforeDeletion, first])

/-- A single deletion does not fail if something comes before it. -/
theorem deletesExisting_single {present : Bool} {before behind : List Operation}
    (none_before : before.any Operation.isDeletion = false)
    (none_behind : behind.any Operation.isDeletion = false) (deletes : op.isDeletion = true)
    (exists_then : present = true ∨ before ≠ []) : DeletesExisting present (before ++ op :: behind) := by
  induction before generalizing present with
  | nil =>
    rw [List.nil_append, DeletesExisting, if_pos deletes]
    exact ⟨by simpa using exists_then, deletesExisting_of_none none_behind false⟩
  | cons first before ih =>
    rw [List.any_cons, Bool.or_eq_false_iff] at none_before
    rw [List.cons_append, DeletesExisting, if_neg (by simp [none_before.1])]
    exact ih none_before.2 (.inl rfl)

/-- A pending deletion is one. -/
theorem Deletion.countP_le {deletes : List Operation} (h : Deletion deletes) :
    deletes.countP Operation.isDeletion ≤ 1 := by
  cases h with
  | none => exact Nat.zero_le 1
  | alone => exact List.countP_le_length
  | behind first =>
    rw [List.countP_cons_of_neg (by rwa [Operation.isDeletion_iff])]
    exact List.countP_le_length

end

/-! ## One attribute -/

namespace Pending

variable {p p' : Pending} {path : AttributePath} {op : Operation} {taken : List Operation}

/-- What is pending apart from a deletion and from reports. -/
def detached (p : Pending) : Pending :=
  { p with deletes := [], errors := [] }

/-- Merging operations on their own gives these. -/
def merged (ops : List Operation) : List Operation :=
  (empty.takeAll ops).1.operations

theorem takeAll_append (p : Pending) (ops ops' : List Operation) :
    p.takeAll (ops ++ ops') =
      (((p.takeAll ops).1.takeAll ops').1, (p.takeAll ops).2 ++ ((p.takeAll ops).1.takeAll ops').2) := by
  induction ops generalizing p with
  | nil => rfl
  | cons op ops ih =>
    rcases hv : p.visit op with ⟨p', v⟩
    rw [List.cons_append]
    by_cases accepted : v = .ok .accepted
    · subst accepted
      rw [takeAll_accepted hv, takeAll_accepted hv, ih]
      rfl
    · rw [takeAll_refused hv accepted, takeAll_refused hv accepted, ih]

/-- Operations that all join leave what is pending after them. -/
theorem takeAll_of_joinAll {p q : Pending} {ops : List Operation} (joined : p.joinAll ops = some q) :
    (p.takeAll ops).1 = q := by
  induction ops generalizing p with
  | nil => exact Option.some.inj joined
  | cons op ops ih =>
    obtain ⟨p', v, hv, -, rest⟩ := visit_of_joinAll joined
    by_cases accepted : v = .accepted
    · subst accepted
      rw [takeAll_accepted hv]
      exact ih rest
    · rw [takeAll_refused hv (by simpa using accepted)]
      exact ih rest

/-- What is pending with this deletion and these reports in place of its own. -/
def reset (p : Pending) (deletes : List Operation) (errors : List Inconsistency) : Pending :=
  { p with deletes, errors }

/-- A change is combined with the others whatever deletion is pending and whatever was reported. -/
theorem combine_reset {c : Combination} (combined : p.combine op c = (p', .ok .accepted))
    (deletes : List Operation) (errors : List Inconsistency) :
    (p.reset deletes errors).combine op c = (p'.reset deletes errors, .ok .accepted) := by
  cases c with
  | log ps =>
    rw [combine] at combined ⊢
    cases together : withLog p.changes op ps with
    | ok changes =>
      rw [together] at combined
      cases combined
      simp [reset, together]
    | error e =>
      rw [together] at combined
      cases combined
  | _ =>
    cases combined
    rfl

/-- An operation that is accepted, and deletes nothing, is accepted whatever was reported, and without the
pending deletion as well. -/
theorem visit_reset (accepted : p.visit op = (p', .ok .accepted)) (keeps : op.isDeletion = false)
    {deletes : List Operation} (early : deletes = [] ∨ deletes = p.deletes) (errors : List Inconsistency) :
    (p.reset deletes errors).visit op = (p'.reset deletes errors, .ok .accepted) := by
  cases hr : op.mutation.role with
  | change t c =>
    simp only [visit, hr, modify] at accepted ⊢
    split at accepted
    · cases accepted
    · next fits =>
      split at accepted
      · cases accepted
      · next barrier =>
        have barrier' : ¬ ((op.isUpload || op.isTrack) && !(p.reset deletes errors).deletes.isEmpty) = true := by
          rcases early with rfl | rfl
          · simp [reset]
          · exact barrier
        rw [if_neg (show ¬ (p.reset deletes errors).conflicts t = true from fits), if_neg barrier']
        exact combine_reset (p := p.setType t) accepted deletes errors
  | configure t =>
    simp only [visit, hr, configure] at accepted ⊢
    split at accepted
    · cases accepted
    · next fits =>
      rw [if_neg (show ¬ (p.reset deletes errors).conflicts t = true from fits)]
      cases accepted
      rfl
  | delete =>
    rw [Operation.isDeletion_iff.2 (Mutation.role_delete hr)] at keeps
    cases keeps
  | copy =>
    simp only [visit, hr] at accepted
    cases accepted

/-- **What is behind a deletion is merged as if it were alone.** -/
theorem visit_detached (accepted : p.visit op = (p', .ok .accepted)) (keeps : op.isDeletion = false) :
    p.detached.visit op = (p'.detached, .ok .accepted) :=
  visit_reset accepted keeps (.inl rfl) []

theorem Combined.ne_nil {changes changes' : List Operation} {c : Combination}
    (h : Combined changes op c changes') : changes' ≠ [] := by
  cases h <;> simp

/-- Accepted operations divide what is pending: before the first deletion, the deletion, and behind the last
one. -/
structure Divided (path : AttributePath) (p : Pending) (taken : List Operation) : Prop where
  deletes : p.deletes = if taken.any Operation.isDeletion then
    (merged (beforeDeletion taken)).take 1 ++ [⟨path, .delete⟩] else []
  behind : empty.takeAll (behindDeletion taken) = (p.detached, behindDeletion taken)
  /-- Of operations before a deletion something is left to replay. -/
  left : beforeDeletion taken ≠ [] → merged (beforeDeletion taken) ≠ []

theorem divided_empty (path : AttributePath) : empty.Divided path [] :=
  ⟨rfl, rfl, fun something => absurd rfl something⟩

theorem Divided.no_deletes (h : p.Divided path taken) :
    p.deletes = [] ↔ taken.any Operation.isDeletion = false := by
  rw [h.deletes]
  cases taken.any Operation.isDeletion <;> simp

/-- Behind the last deletion there is what is pending apart from it. -/
theorem Divided.merged_behind (h : p.Divided path taken) :
    merged (behindDeletion taken) = p.changes ++ p.configs := by
  rw [merged, h.behind]
  rfl

/-- An operation that changes or configures the attribute goes behind the last deletion. -/
theorem Divided.accepted (h : p.Divided path taken) (hv : p.visit op = (p', .ok .accepted))
    (keeps : op.isDeletion = false) (same : p'.deletes = p.deletes)
    (something : p'.changes ++ p'.configs ≠ []) : p'.Divided path (taken ++ [op]) := by
  have behind : behindDeletion (taken ++ [op]) = behindDeletion taken ++ [op] := by
    rw [behindDeletion_concat, if_neg (by simp [keeps])]
  have again : empty.takeAll (behindDeletion taken ++ [op]) = (p'.detached, behindDeletion taken ++ [op]) := by
    rw [takeAll_append, h.behind, takeAll_accepted (visit_detached hv keeps)]
    rfl
  have more : (taken ++ [op]).any Operation.isDeletion = taken.any Operation.isDeletion := by
    simp [keeps]
  cases deletes : taken.any Operation.isDeletion with
  | true =>
    have before := beforeDeletion_append deletes [op]
    refine ⟨?_, by rw [behind, again], by rw [before]; exact h.left⟩
    rw [same, h.deletes, more, before]
  | false =>
    have before : beforeDeletion (taken ++ [op]) = behindDeletion taken ++ [op] := by
      rw [beforeDeletion_of_none (more.trans deletes), behindDeletion_of_none deletes]
    refine ⟨?_, by rw [behind, again], fun _ => ?_⟩
    · rw [same, h.deletes, more, deletes, if_neg Bool.false_ne_true, if_neg Bool.false_ne_true]
    · rw [before, merged, again]
      exact something

/-- A deletion replays the first operation of those that it drops, unless another one did before. -/
theorem Divided.deleted (h : p.Divided path taken) (hop : op.path = path)
    (deletes : op.isDeletion = true) :
    (⟨none, p.deletesAfter op, [], [], p.errors, 0⟩ : Pending).Divided path (taken ++ [op]) := by
  have this_deletes : op = ⟨path, .delete⟩ := by
    cases op
    cases hop
    cases Operation.isDeletion_iff.1 deletes
    rfl
  have before : beforeDeletion (taken ++ [op]) = beforeDeletion taken := by
    cases earlier : taken.any Operation.isDeletion with
    | true => exact beforeDeletion_append earlier [op]
    | false =>
      rw [beforeDeletion_append_of_none earlier, beforeDeletion_of_none earlier]
      simp [beforeDeletion, deletes]
  have behind : behindDeletion (taken ++ [op]) = [] := by
    rw [behindDeletion_concat, if_pos deletes]
  refine ⟨?_, by rw [behind]; rfl, by rw [before]; exact h.left⟩
  rw [List.any_append, List.any_cons, deletes, Bool.true_or, Bool.or_true, if_pos rfl, before]
  unfold deletesAfter
  split
  · next first =>
    have none_before := h.no_deletes.1 first
    rw [beforeDeletion_of_none none_before, ← behindDeletion_of_none none_before, h.merged_behind,
      this_deletes]
  · next again =>
    have earlier : taken.any Operation.isDeletion = true := by
      rwa [h.no_deletes, Bool.not_eq_false] at again
    rw [h.deletes, if_pos earlier]

/-- **Every visit keeps what is pending divided**, with the operation among those accepted if it was. -/
theorem Divided.visited {v : Except MergeError Visit} (h : p.Divided path taken) (sound : p.Sound)
    (hop : op.path = path) (hv : p.visit op = (p', v)) :
    (v = .ok .accepted → p'.Divided path (taken ++ [op])) ∧
      (v ≠ .ok .accepted → p'.Divided path taken) := by
  cases Pending.visited sound hv with
  | copy | waits | rejected =>
    exact ⟨fun accepted => absurd accepted (by simp), fun _ => ⟨h.deletes, h.behind, h.left⟩⟩
  | changed hr _ _ combined =>
    exact ⟨fun _ => h.accepted hv (Operation.keeps_of_role hr (by simp)) rfl (by simp [combined.ne_nil]),
      fun refused => absurd rfl refused⟩
  | configured hr =>
    exact ⟨fun _ => h.accepted hv (Operation.keeps_of_role hr (by simp)) rfl (by simp),
      fun refused => absurd rfl refused⟩
  | deleted hr =>
    exact ⟨fun _ => h.deleted hop (Operation.isDeletion_iff.2 (Mutation.role_delete hr)),
      fun refused => absurd rfl refused⟩

theorem Divided.takeAll (h : p.Divided path taken) (sound : p.Sound) {ops : List Operation}
    (here : ∀ op ∈ ops, op.path = path) :
    (p.takeAll ops).1.Divided path (taken ++ (p.takeAll ops).2) :=
  takeAll_keeps (P := Divided path) (fun sound place divided hv => divided.visited sound place hv) sound here h

/-- No deletion is among changes and configurations. -/
theorem Sound.keeps (sound : p.Sound) : (p.changes ++ p.configs).any Operation.isDeletion = false := by
  rw [List.any_eq_false]
  intro op member deletes
  rw [Operation.isDeletion_iff] at deletes
  rcases List.mem_append.1 member with change | config
  · obtain ⟨t, c, -, hr⟩ := sound.typed op change
    rw [deletes] at hr
    cases hr
  · obtain ⟨t, -, hr⟩ := sound.configured op config
    rw [deletes] at hr
    cases hr

/-- Without a deletion among the operations taken none is sent. -/
theorem Divided.keeps_byLane (h : p.Divided path taken) (sound : p.Sound)
    (none_taken : taken.any Operation.isDeletion = false) :
    (byLane p.operations).any Operation.isDeletion = false := by
  rw [List.any_eq_false]
  intro op member
  have pending := mem_byLane.1 member
  rw [operations, h.no_deletes.2 none_taken, List.nil_append] at pending
  exact List.any_eq_false.1 sound.keeps op pending

/-- With a deletion everything is sent as it is pending. -/
theorem Divided.byLane_eq (h : p.Divided path taken) (sound : p.Sound) (aligned : p.Aligned path)
    (deletes : taken.any Operation.isDeletion = true) :
    byLane p.operations = (merged (beforeDeletion taken)).take 1 ++
      ⟨path, .delete⟩ :: merged (behindDeletion taken) := by
  have pending : p.deletes ≠ [] := by
    rw [Ne, h.no_deletes, deletes]
    decide
  rw [byLane_eq_self_iff.2 ((aligned.ordered_iff sound).2 (pairwise_of_lane (aligned.barrier pending))),
    operations, List.append_assoc, ← h.merged_behind, h.deletes, if_pos deletes, List.append_assoc]
  rfl

/-- What is replayed deletes nothing. -/
theorem Divided.keeps_replayed (h : p.Divided path taken) (sound : p.Sound)
    (deletes : taken.any Operation.isDeletion = true) :
    ((merged (beforeDeletion taken)).take 1).any Operation.isDeletion = false := by
  have single := sound.deletion.countP_le
  rw [h.deletes, if_pos deletes, List.countP_append] at single
  have this_one : [(⟨path, .delete⟩ : Operation)].countP Operation.isDeletion = 1 := rfl
  rw [List.any_eq_false, ← List.countP_eq_zero]
  omega

/-- Something is replayed if something was there before the first deletion. -/
theorem Divided.replayed_eq_nil_iff (h : p.Divided path taken) :
    (merged (beforeDeletion taken)).take 1 = [] ↔ beforeDeletion taken = [] := by
  constructor
  · intro nothing
    refine Classical.byContradiction fun something => h.left something ?_
    simpa using nothing
  · intro nothing
    rw [nothing]
    rfl

/-- Behind a pending deletion no upload and no tracked files are pending. -/
theorem Divided.barrier (h : p.Divided path taken) (sound : p.Sound) (aligned : p.Aligned path)
    (deletes : taken.any Operation.isDeletion = true) :
    ∀ op ∈ merged (behindDeletion taken), (op.isUpload || op.isTrack) = false := by
  intro op member
  have pending : p.deletes ≠ [] := by
    rw [Ne, h.no_deletes, deletes]
    decide
  rw [h.merged_behind] at member
  rw [← Operation.lane_eq_two_iff]
  rcases List.mem_append.1 member with change | config
  · exact aligned.barrier pending op change
  · exact sound.lane_configs op config

end Pending

/-! ## The whole batch -/

namespace Merger

/-- What is pending on an attribute is made of the operations on it. -/
theorem pending_takeAll (m : Merger) (ops : List Operation) (path : AttributePath) :
    (m.takeAll ops).pending path = ((m.pending path).takeAll (onPath path ops)).1 := by
  induction ops generalizing m with
  | nil => rfl
  | cons op ops ih =>
    show ((m.process op).1.takeAll ops).pending path = _
    rw [ih, pending_process]
    by_cases here : op.path = path
    · subst here
      rw [if_pos rfl, onPath_cons_same rfl, Pending.takeAll]
      rcases (m.pending op.path).visit op with ⟨p', _ | _ | _ | _⟩ <;> rfl
    · rw [if_neg (Ne.symm here), onPath_cons_other here]

/-- The same where all operations joined the batch. -/
theorem pending_processAll {m : Merger} {ops : List Operation}
    (all : empty.processAll ops = (m, .ok ops.length)) (path : AttributePath) :
    m.pending path = (Pending.empty.takeAll (onPath path ops)).1 :=
  (Pending.takeAll_of_joinAll ((processAll_joined all).pending path)).symm

/-- **Deletions stay valid, and nothing passes them.** Of an attribute a batch has at most one deletion, and
one exactly if one of the operations taken is one. Then it sends the first of the operations before the
first deletion, merged, if there are any; the deletion; and the operations behind the last one, merged on
their own, no upload or tracked files among them. So if no deletion fails in the order in which the operations
were taken, none fails in the batch. -/
theorem deletion_onPath (ops : List Operation) (errors : List Inconsistency) (path : AttributePath) :
    let sent := onPath path ((empty.takeAll ops).finish errors).operations
    let taken := (Pending.empty.takeAll (onPath path ops)).2
    let replayed := (Pending.merged (beforeDeletion taken)).take 1
    let behind := Pending.merged (behindDeletion taken)
    sent.countP Operation.isDeletion ≤ 1 ∧
      sent.any Operation.isDeletion = taken.any Operation.isDeletion ∧
      (sent.any Operation.isDeletion = true → sent = replayed ++ ⟨path, .delete⟩ :: behind ∧
        (replayed = [] ↔ beforeDeletion taken = []) ∧
        ∀ op ∈ behind, (op.isUpload || op.isTrack) = false) ∧
      ∀ present, DeletesExisting present taken → DeletesExisting present sent := by
  intro sent taken replayed behind
  have sound := sound_empty.takeAll ops path
  have aligned := aligned_takeAll ops path
  have divided : ((empty.takeAll ops).pending path).Divided path taken := by
    rw [pending_takeAll]
    exact (Pending.divided_empty path).takeAll Pending.sound_empty fun op member =>
      of_decide_eq_true (List.mem_filter.1 member).2
  have lanes : sent = byLane ((empty.takeAll ops).pending path).operations :=
    onPath_finish (sorted_takeAll ops) (aligned_takeAll ops) errors path
  generalize (empty.takeAll ops).pending path = p at sound aligned divided lanes
  cases deletes : taken.any Operation.isDeletion with
  | false =>
    have none_sent : sent.any Operation.isDeletion = false := by
      rw [lanes]
      exact divided.keeps_byLane sound deletes
    refine ⟨?_, none_sent, fun some_sent => ?_, fun present _ => deletesExisting_of_none none_sent present⟩
    · rw [List.countP_eq_zero.2 (List.any_eq_false.1 none_sent)]
      exact Nat.zero_le 1
    · rw [none_sent] at some_sent
      cases some_sent
  | true =>
    have parts : sent = replayed ++ ⟨path, .delete⟩ :: behind := by
      rw [lanes, divided.byLane_eq sound aligned deletes]
    have none_replayed : replayed.any Operation.isDeletion = false := divided.keeps_replayed sound deletes
    have none_behind : behind.any Operation.isDeletion = false := by
      rw [show behind = _ from divided.merged_behind]
      exact sound.keeps
    have kept : replayed = [] ↔ beforeDeletion taken = [] := divided.replayed_eq_nil_iff
    refine ⟨?_, ?_, fun _ => ⟨parts, kept, divided.barrier sound aligned deletes⟩, fun present valid => ?_⟩
    · rw [parts, List.countP_append, List.countP_cons, List.countP_eq_zero.2 (List.any_eq_false.1 none_replayed),
        List.countP_eq_zero.2 (List.any_eq_false.1 none_behind)]
      simp [Operation.isDeletion]
    · rw [parts, List.any_append, List.any_cons]
      simp [Operation.isDeletion]
    · rw [parts]
      exact deletesExisting_single none_replayed none_behind rfl
        ((valid.first deletes).imp_right fun something => mt kept.1 something)

/-- An attribute is assigned, deleted, assigned again, deleted again and filled with strings. The first
assignment is sent before the one deletion; a file would have to wait for it. -/
example :
    let a := AttributePath.single "a"
    let ops : List Operation := [⟨a, .assign (.int 1)⟩, ⟨a, .assign (.int 2)⟩, ⟨a, .delete⟩,
      ⟨a, .assign (.bool true)⟩, ⟨a, .delete⟩, ⟨a, .addStrings ["x"]⟩, ⟨a, .uploadFile "txt" "f" false⟩,
      ⟨a, .removeStrings ["y"]⟩]
    onPath a ((empty.takeAll ops).finish []).operations = [⟨a, .assign (.int 2)⟩, ⟨a, .delete⟩,
      ⟨a, .addStrings ["x"]⟩, ⟨a, .removeStrings ["y"]⟩] := by
  decide

end Merger

end Outbox
