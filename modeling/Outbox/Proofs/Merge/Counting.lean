import Outbox.Proofs.Merge.Again
import Outbox.Proofs.Merge.Deletion

/-!
# What a batch counts

A batch in the making counts the series points and the attributes of what it would send. The count of points is
exact for the logs that stay: those that are not followed by a deletion of their attribute. An operation that is
replayed ahead of a deletion is sent but is not counted, so a batch may send more points than it counts.

* `lasting` and `replayed` are the operations of a batch that no deletion of their attribute follows, and the
  others;
* `Pending.Counted` is the law of the counter of one attribute, kept by every visit (`Counted.visited`);
* `Merger.totalPoints_lasting` and `Merger.totalPoints_onPath_lasting` are the counters of a batch,
  `Merger.onPath_replayed` is what they leave out, and `Merger.mem_paths_iff` says which attributes are counted.
-/

namespace Outbox

/-! ## Points -/

section

variable {ops ops' : List Operation} {op : Operation}

@[simp] theorem totalPoints_cons (op : Operation) (ops : List Operation) :
    totalPoints (op :: ops) = op.points + totalPoints ops :=
  rfl

@[simp] theorem totalPoints_nil : totalPoints [] = 0 :=
  rfl

@[simp] theorem totalPoints_append (ops ops' : List Operation) :
    totalPoints (ops ++ ops') = totalPoints ops + totalPoints ops' := by
  induction ops with
  | nil => exact (Nat.zero_add _).symm
  | cons op ops ih => rw [List.cons_append, totalPoints_cons, totalPoints_cons, ih, Nat.add_assoc]

theorem totalPoints_perm (h : ops.Perm ops') : totalPoints ops = totalPoints ops' := by
  induction h with
  | nil => rfl
  | cons op _ ih => rw [totalPoints_cons, totalPoints_cons, ih]
  | swap op op' ops =>
    simp only [totalPoints_cons]
    omega
  | trans _ _ ih ih' => exact ih.trans ih'

theorem totalPoints_byLane (ops : List Operation) : totalPoints (byLane ops) = totalPoints ops :=
  totalPoints_perm (perm_byLane ops)

theorem totalPoints_eq_zero (none_carries : ∀ op ∈ ops, op.points = 0) : totalPoints ops = 0 := by
  induction ops with
  | nil => rfl
  | cons op ops ih =>
    rw [totalPoints_cons, none_carries op List.mem_cons_self,
      ih fun op' member => none_carries op' (List.mem_cons_of_mem _ member)]

theorem points_le_totalPoints (member : op ∈ ops) : op.points ≤ totalPoints ops := by
  induction ops with
  | nil => exact absurd member List.not_mem_nil
  | cons first ops ih =>
    rw [totalPoints_cons]
    rcases List.mem_cons.1 member with rfl | later
    · exact Nat.le_add_right _ _
    · exact Nat.le_trans (ih later) (Nat.le_add_left _ _)

/-- Only logs carry points. -/
theorem Operation.points_of_plain (plain : op.isLog = false) : op.points = 0 := by
  obtain ⟨path, m⟩ := op
  cases m with
  | log ps => cases plain
  | _ => rfl

theorem Operation.points_of_role {t : DataType} {c : Combination} (hr : op.mutation.role = .change t c)
    (other : ∀ ps, c ≠ .log ps) : op.points = 0 := by
  obtain ⟨path, m⟩ := op
  cases m with
  | log ps =>
    rw [Mutation.role, Role.change.injEq] at hr
    exact absurd hr.2.symm (other ps)
  | _ => rfl

theorem Operation.points_of_configure {t : DataType} (hr : op.mutation.role = .configure t) :
    op.points = 0 := by
  obtain ⟨⟨min, max, unit, config⟩, -⟩ := Mutation.role_configure hr
  simp [Operation.points, config]

theorem Operation.points_of_deletion (deletes : op.mutation = .delete) : op.points = 0 := by
  simp [Operation.points, deletes]

theorem Points.length_append? {ps qs all : Points} (together : ps.append? qs = some all) :
    all.length = ps.length + qs.length := by
  cases ps <;> cases qs <;> simp only [Points.append?, Option.some.injEq, reduceCtorEq] at together <;>
    subst together <;> exact List.length_append

end

/-! ## Operations before a deletion -/

/-- Whether an operation is followed by a deletion of its attribute. -/
def Operation.deletedBy (op : Operation) (later : List Operation) : Bool :=
  later.any fun op' => op'.isDeletion && decide (op'.path = op.path)

/-- The operations that a deletion of their attribute follows, or those that none follows. -/
def ofFate (deleted : Bool) : List Operation → List Operation
  | [] => []
  | op :: later => if op.deletedBy later = deleted then op :: ofFate deleted later else ofFate deleted later

/-- The operations that no deletion of their attribute follows. -/
def lasting (ops : List Operation) : List Operation :=
  ofFate false ops

/-- The operations that are followed by a deletion of their attribute. A batch has at most one of them on an
attribute, replayed there so that the deletion is valid. -/
def replayed (ops : List Operation) : List Operation :=
  ofFate true ops

/-- Which operations are deleted is seen on each attribute. -/
theorem onPath_ofFate (deleted : Bool) (path : AttributePath) (ops : List Operation) :
    onPath path (ofFate deleted ops) = ofFate deleted (onPath path ops) := by
  induction ops with
  | nil => rfl
  | cons op later ih =>
    have same_fate (here : op.path = path) : op.deletedBy (onPath path later) = op.deletedBy later := by
      rw [Operation.deletedBy, Operation.deletedBy, onPath, List.any_filter]
      congr 1
      funext op'
      cases op'.isDeletion <;> simp [here]
    by_cases here : op.path = path
    · rw [onPath_cons_same here, ofFate, ofFate, same_fate here]
      split
      · rw [onPath_cons_same here, ih]
      · exact ih
    · rw [onPath_cons_other here, ofFate]
      split
      · rw [onPath_cons_other here, ih]
      · exact ih

/-- What deletes nothing does not change the fate of what is before it. -/
theorem ofFate_append (deleted : Bool) {back : List Operation}
    (none_deletes : back.any Operation.isDeletion = false) (front : List Operation) :
    ofFate deleted (front ++ back) = ofFate deleted front ++ ofFate deleted back := by
  have harmless (op : Operation) : op.deletedBy back = false := by
    rw [List.any_eq_false] at none_deletes
    rw [Operation.deletedBy, List.any_eq_false]
    intro op' member
    simp [none_deletes op' member]
  induction front with
  | nil => rfl
  | cons op front ih =>
    have same_fate : op.deletedBy (front ++ back) = op.deletedBy front := by
      rw [Operation.deletedBy, List.any_append]
      exact (congrArg _ (harmless op)).trans (Bool.or_false _)
    rw [List.cons_append, ofFate, ofFate, same_fate, ih]
    split <;> rfl

/-- Without a deletion all operations last. -/
theorem ofFate_of_none {ops : List Operation} (none_deletes : ops.any Operation.isDeletion = false) :
    lasting ops = ops ∧ replayed ops = [] := by
  unfold lasting replayed
  induction ops with
  | nil => exact ⟨rfl, rfl⟩
  | cons op later ih =>
    rw [List.any_cons, Bool.or_eq_false_iff] at none_deletes
    have lasts : op.deletedBy later = false := by
      rw [Operation.deletedBy, List.any_eq_false]
      intro op' member
      simp [List.any_eq_false.1 none_deletes.2 op' member]
    obtain ⟨all, nothing⟩ := ih none_deletes.2
    simp [ofFate, lasts, all, nothing]

/-- Of a pending deletion, the deletion itself lasts, and what is replayed before it does not. -/
theorem Deletion.ofFate {deletes : List Operation} (h : Deletion deletes) {path : AttributePath}
    (here : ∀ op ∈ deletes, op.path = path) :
    totalPoints (lasting deletes) = 0 ∧ replayed deletes = deletes.dropLast := by
  cases h with
  | none => exact ⟨rfl, rfl⟩
  | @alone op deletes =>
    have points := Operation.points_of_deletion deletes
    simp [lasting, replayed, Outbox.ofFate, Operation.deletedBy, points]
  | @behind first op keeps deletes =>
    have points := Operation.points_of_deletion deletes
    have same : op.path = first.path := (here op (by simp)).trans (here first (by simp)).symm
    simp [lasting, replayed, Outbox.ofFate, Operation.deletedBy, Operation.isDeletion_iff.2 deletes, same, points]

/-- At most one operation is replayed before a deletion. -/
theorem Deletion.length_dropLast {deletes : List Operation} (h : Deletion deletes) :
    deletes.dropLast.length ≤ 1 := by
  cases h with
  | none | alone => exact Nat.zero_le _
  | behind => exact Nat.le_refl _

/-! ## One attribute -/

namespace Pending

variable {p p' q : Pending} {path : AttributePath} {op : Operation} {ops changes changes' : List Operation}
  {t : DataType} {c : Combination}

/-- The counter of an attribute has the points of its pending changes. -/
def Counted (p : Pending) : Prop :=
  p.points = totalPoints p.changes

/-- What overwrites changes without a look at the counter overwrites no log. -/
theorem totalPoints_replaced (hr : op.mutation.role = .change t .replace)
    (typed : ∀ op' ∈ changes, ∃ c', op'.mutation.role = .change t c') : totalPoints changes = 0 := by
  refine totalPoints_eq_zero fun op' member => ?_
  obtain ⟨c', hr'⟩ := typed op' member
  refine Operation.points_of_role hr' fun ps log => ?_
  obtain ⟨-, rfl⟩ := Mutation.role_log (log ▸ hr')
  rcases Mutation.role_series hr with ⟨ps, -, -, none_such⟩ | ⟨-, none_such⟩ <;> cases none_such

/-- **Combining a change keeps the counter exact.** -/
theorem Combined.points (combined : Combined changes op c changes') (hr : op.mutation.role = .change t c)
    (typed : ∀ op' ∈ changes, ∃ c', op'.mutation.role = .change t c') (same : p.changes = changes)
    (counted : p.points = totalPoints changes) : p.pointsAfter c = totalPoints changes' := by
  cases combined with
  | replaces =>
    have nothing := totalPoints_replaced hr typed
    have points := Operation.points_of_role hr (by simp)
    simp [pointsAfter, counted, nothing, points]
  | clears =>
    have points := Operation.points_of_role hr (by simp)
    simp [pointsAfter, same, counted, points]
  | follows | startsTrack =>
    have points := Operation.points_of_role hr (by simp)
    simp [pointsAfter, counted, points]
  | @startsLog _ _ ps =>
    obtain ⟨log, -⟩ := Mutation.role_log hr
    have points : op.points = ps.length := by simp [Operation.points, log]
    simp [pointsAfter, counted, points]
  | @extendsLog before path _ qs ps all _ together =>
    have longer : all.length = qs.length + ps.length := Points.length_append? together
    simp [pointsAfter, counted, Operation.points, longer, Nat.add_assoc]
  | extendsTrack => simpa [pointsAfter, Operation.points] using counted

/-- The changes of an attribute have the type of one more change that fits. -/
theorem Sound.typed_of_fits (sound : p.Sound) (fits : p.conflicts t = false) :
    ∀ op' ∈ p.changes, ∃ c', op'.mutation.role = .change t c' := by
  intro op' member
  obtain ⟨t', c', typed, hr⟩ := sound.typed op' member
  obtain rfl := eq_of_fits typed fits
  exact ⟨c', hr⟩

/-- **Every visit keeps the counter exact.** -/
theorem Counted.visited {v : Except MergeError Visit} (h : p.Counted) (sound : p.Sound)
    (hv : Visited p op p' v) : p'.Counted := by
  cases hv with
  | copy | waits | rejected | configured => exact h
  | changed hr fits _ combined => exact combined.points hr (sound.typed_of_fits fits) rfl h
  | deleted => rfl

/-- Of an attribute with a type something is pending behind a deletion. -/
def Filled (p : Pending) : Prop :=
  p.dataType ≠ none → p.changes ++ p.configs ≠ []

/-- What joins a batch leaves something to send. -/
theorem Filled.visited {v : Except MergeError Visit} (h : p.Filled) (hv : Visited p op p' v) :
    p'.Filled ∧ ((∃ v', v = .ok v' ∧ v' ≠ .waits) → p'.operations ≠ []) := by
  have sends {p' : Pending} (something : p'.changes ++ p'.configs ≠ []) : p'.operations ≠ [] := by
    rw [Pending.operations, List.append_assoc]
    exact List.append_ne_nil_of_right_ne_nil _ something
  cases hv with
  | copy =>
    refine ⟨h, ?_⟩
    rintro ⟨v', eq, -⟩
    cases eq
  | waits =>
    refine ⟨h, ?_⟩
    rintro ⟨v', eq, joins⟩
    cases eq
    exact absurd rfl joins
  | @rejected t _ clash =>
    have typed : p.dataType ≠ none := by
      intro untyped
      rw [conflicts, untyped] at clash
      cases clash
    exact ⟨h, fun _ => sends (h typed)⟩
  | changed _ _ _ combined =>
    have something := List.append_ne_nil_of_left_ne_nil combined.ne_nil p.configs
    exact ⟨fun _ => something, fun _ => sends something⟩
  | configured =>
    have something : p.changes ++ [op] ≠ [] := List.append_ne_nil_of_right_ne_nil _ (by simp)
    exact ⟨fun _ => something, fun _ => sends something⟩
  | deleted =>
    refine ⟨fun typed => absurd rfl typed, fun _ => ?_⟩
    rw [Pending.operations, List.append_nil, List.append_nil, Pending.deletesAfter]
    split
    · simp
    · assumption

/-- Something is sent on an attribute that operations joined. -/
theorem operations_of_joinAll (sound : p.Sound) (h : p.Filled) (something : p.operations ≠ [] ∨ ops ≠ [])
    (joined : p.joinAll ops = some q) : q.operations ≠ [] := by
  induction ops generalizing p with
  | nil =>
    cases joined
    exact something.resolve_right fun none_such => none_such rfl
  | cons op ops ih =>
    obtain ⟨p', v, hv, joins, rest⟩ := visit_of_joinAll joined
    obtain ⟨filled, sends⟩ := h.visited (Pending.visited sound hv)
    exact ih (sound_visit sound hv) filled (.inl (sends ⟨v, rfl, joins⟩)) rest

/-- What is sent on an attribute: the points of the logs that last are those of the changes, and what is
replayed stands before the deletion. -/
theorem Aligned.ofFate (aligned : p.Aligned path) (sound : p.Sound) :
    totalPoints (lasting (byLane p.operations)) = totalPoints p.changes ∧
      replayed (byLane p.operations) = p.deletes.dropLast := by
  have none_behind : (byLane p.changes ++ p.configs).any Operation.isDeletion = false := by
    rw [List.any_eq_false]
    intro op member
    refine List.any_eq_false.1 sound.keeps op ?_
    rcases List.mem_append.1 member with change | config
    · exact List.mem_append_left _ (mem_byLane.1 change)
    · exact List.mem_append_right _ config
  have configs : totalPoints p.configs = 0 := by
    refine totalPoints_eq_zero fun op member => ?_
    obtain ⟨t, -, hr⟩ := sound.configured op member
    exact Operation.points_of_configure hr
  have changes := totalPoints_byLane p.changes
  obtain ⟨deletes, replays⟩ := sound.deletion.ofFate fun op member =>
    aligned.here op (mem_operations.2 (.inl member))
  obtain ⟨all, nothing⟩ := ofFate_of_none none_behind
  rw [aligned.byLane_operations sound, List.append_assoc]
  constructor
  · rw [lasting, ofFate_append _ none_behind, totalPoints_append]
    rw [show totalPoints (Outbox.ofFate false p.deletes) = 0 from deletes,
      show Outbox.ofFate false (byLane p.changes ++ p.configs) = _ from all, totalPoints_append, configs, changes]
    omega
  · rw [replayed, ofFate_append _ none_behind, show Outbox.ofFate true p.deletes = _ from replays,
      show Outbox.ofFate true (byLane p.changes ++ p.configs) = [] from nothing, List.append_nil]

end Pending

/-! ## The whole batch -/

theorem ofFate_sublist (deleted : Bool) (ops : List Operation) : (ofFate deleted ops).Sublist ops := by
  induction ops with
  | nil => exact .slnil
  | cons op later ih =>
    rw [ofFate]
    split
    · exact ih.cons_cons op
    · exact ih.cons op

/-- What comes from each attribute has its points, so all has the points of the table. -/
theorem PendingTable.totalPoints_flatMap {table : PendingTable} {f : Pending → List Operation}
    (counts : ∀ entry ∈ table, totalPoints (f entry.2) = entry.2.points) :
    totalPoints (table.flatMap fun entry => f entry.2) = table.points := by
  induction table with
  | nil => rfl
  | cons entry rest ih =>
    have later := ih fun entry' member => counts entry' (List.mem_cons_of_mem _ member)
    rw [List.flatMap_cons, totalPoints_append, later, counts entry List.mem_cons_self]
    rfl

namespace Merger

variable {m : Merger} {ops : List Operation} {path : AttributePath}

theorem counted_takeAll (ops : List Operation) (path : AttributePath) :
    ((empty.takeAll ops).pending path).Counted :=
  takeAll_induction (P := fun _ p => p.Counted) (fun _ => rfl)
    (fun _ sound counted visited => counted.visited sound visited) ops path

/-- What is counted of a batch that operations were merged to. -/
structure Exact (m : Merger) : Prop where
  fresh : m.Fresh
  regular : m.Regular
  counted : ∀ path, (m.pending path).Counted

theorem exact_processAll (all : empty.processAll ops = (m, .ok ops.length)) : m.Exact where
  fresh := by
    have fresh := fresh_processAll ops
    rwa [all] at fresh
  regular := (processAll_joined all).regular regular_empty
  counted path := by
    obtain ⟨taken, state⟩ := processAll_takeAll empty ops
    replace state : m = empty.takeAll taken := by rw [← state, all]
    rw [state]
    exact counted_takeAll taken path

/-- **The points counted on an attribute** are those of the operations that last there. -/
theorem totalPoints_onPath_lasting (h : m.Exact) (errors : List Inconsistency) (path : AttributePath) :
    totalPoints (onPath path (lasting (m.finish errors).operations)) = m.pointsOf path := by
  have aligned := h.fresh.aligned
  rw [lasting, onPath_ofFate, onPath_finish h.fresh.sorted aligned]
  rw [show totalPoints (ofFate false _) = _ from ((aligned path).ofFate (h.fresh.sound path)).1]
  exact (h.counted path).symm

/-- **What the counters leave out** of an attribute is what is replayed before its deletion. -/
theorem onPath_replayed (h : m.Exact) (errors : List Inconsistency) (path : AttributePath) :
    onPath path (replayed (m.finish errors).operations) = (m.pending path).deletes.dropLast := by
  have aligned := h.fresh.aligned
  rw [replayed, onPath_ofFate, onPath_finish h.fresh.sorted aligned]
  exact ((aligned path).ofFate (h.fresh.sound path)).2

/-- **The points counted in a batch** are those of the operations that last. -/
theorem totalPoints_lasting (h : m.Exact) (errors : List Inconsistency) :
    totalPoints (lasting (m.finish errors).operations) = m.points := by
  have aligned := h.fresh.aligned
  have sorted := h.fresh.sorted
  let sent (p : Pending) : List Operation := lasting (byLane p.operations)
  have here : ∀ entry ∈ m.table, ∀ op ∈ sent entry.2, op.path = entry.1 := fun entry member op inside =>
    path_of_mem sorted aligned entry member op (mem_byLane.1 ((ofFate_sublist false _).subset inside))
  -- attribute by attribute the same operations last
  have same : (lasting (m.finish errors).operations).Perm (m.table.flatMap fun entry => sent entry.2) := by
    refine perm_of_onPath fun path => ?_
    rw [onPath_flatMap sorted rfl here, lasting, onPath_ofFate, onPath_finish sorted aligned]
    rfl
  have counts : ∀ entry ∈ m.table, totalPoints (sent entry.2) = entry.2.points := by
    intro entry member
    have found : m.pending entry.1 = entry.2 := by rw [Merger.pending, get?_of_mem sorted member]; rfl
    have counted := h.counted entry.1
    have lasts := ((aligned entry.1).ofFate (h.fresh.sound entry.1)).1
    rw [found] at counted lasts
    exact lasts.trans counted.symm
  rw [totalPoints_perm same, PendingTable.totalPoints_flatMap counts, h.regular.counted]

/-- **The attributes counted in a batch** are those of the operations that it sends. -/
theorem mem_paths_iff (all : empty.processAll ops = (m, .ok ops.length)) (errors : List Inconsistency) :
    (∃ op ∈ (m.finish errors).operations, op.path = path) ↔ m.has path = true := by
  have h := exact_processAll all
  have joined := processAll_joined all
  have lanes := onPath_finish h.fresh.sorted h.fresh.aligned errors path
  constructor
  · rintro ⟨op, sent, here⟩
    have inside : op ∈ onPath path (m.finish errors).operations :=
      List.mem_filter.2 ⟨sent, decide_eq_true here⟩
    rw [lanes] at inside
    have pending := mem_byLane.1 inside
    rw [Merger.has]
    rw [Merger.pending] at pending
    cases found : m.table.get? path with
    | none =>
      rw [found] at pending
      exact absurd pending List.not_mem_nil
    | some p => rfl
  · intro has
    rw [joined.has path] at has
    have something : onPath path ops ≠ [] := by
      intro nothing
      rw [nothing] at has
      cases has
    have filled : Pending.empty.Filled := fun typed => absurd rfl typed
    have sent := Pending.operations_of_joinAll Pending.sound_empty filled (.inr something) (joined.pending path)
    obtain ⟨op, member⟩ := List.exists_mem_of_ne_nil _ sent
    have inside := mem_byLane.2 member
    rw [← lanes] at inside
    obtain ⟨sent, here⟩ := List.mem_filter.1 inside
    exact ⟨op, sent, of_decide_eq_true here⟩

end Merger

end Outbox
