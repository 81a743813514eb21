import Outbox.Proofs.Merge.Interleaving

/-!
# Operations that do not join

An operation either joins a batch, or has to wait for the next one, or cannot be merged at all, and only a copy
cannot. One that waits leaves the batch exactly as it was. A copy leaves what is sent, reported and counted as it
was, but an attribute that was not there before stays behind, with nothing pending on it, and is counted as one of
the batch.

* `Merger.process_eq_error_iff` and `Merger.process_empty_iff` say when merging fails, and what an empty batch
  takes, and `Merger.isCopy_of_processAll` that what joined a batch are no copies;
* `PendingTable.flatMap_set_empty` is the law of an attribute with nothing pending;
* `Merger.refused_cases` is the law of one operation, `Merger.refused_leaves` the result for any batch, and
  `Merger.refused_leaves_attribute` an attribute that stays behind.
-/

namespace Outbox

/-- An attribute with nothing pending adds nothing to what is gathered from all attributes. -/
theorem PendingTable.flatMap_set_empty {α : Type} {f : Pending → List α} (nothing : f .empty = [])
    {table : PendingTable} {path : AttributePath} (absent : table.get? path = none) :
    (table.set path .empty).flatMap (fun entry => f entry.2) = table.flatMap fun entry => f entry.2 := by
  induction table with
  | nil => simp [PendingTable.set, nothing]
  | cons entry rest ih =>
    obtain ⟨here, p⟩ := entry
    rw [get?] at absent
    split at absent
    · cases absent
    · cases order : path.order here with
      | lt => simp [PendingTable.set, order, nothing]
      | eq =>
        obtain rfl := AttributePath.order_eq_eq_iff.1 order
        contradiction
      | gt => simp [PendingTable.set, order, ih absent]

namespace Merger

variable {m m' : Merger} {op : Operation} {r : Except MergeError Bool}

/-! ## What an operation is answered -/

/-- A copy fails, and its attribute is set to what is pending on it anyway. -/
theorem process_copy (copy : op.isCopy = true) : m.process op =
    ({ m with table := m.table.set op.path (m.pending op.path) }, .error (.unresolvedCopy op.path)) := by
  simp only [process, Pending.visit, Operation.isCopy_iff_role.1 copy]

/-- **Only a copy cannot be merged**, and it always fails, with an error that names its path. -/
theorem process_eq_error_iff (sound : m.Sound) {e : MergeError} :
    (m.process op).2 = .error e ↔ op.isCopy = true ∧ e = .unresolvedCopy op.path := by
  cases copy : op.isCopy with
  | true =>
    rw [process_copy copy, Except.error.injEq]
    exact ⟨fun same => ⟨rfl, same.symm⟩, fun same => same.2.symm⟩
  | false =>
    rcases answer : m.process op with ⟨m', r⟩
    obtain ⟨-, ⟨rfl, -⟩ | ⟨rfl, -⟩⟩ := processed sound copy answer <;> simp

/-- An empty batch takes every operation that is no copy. -/
theorem process_empty_iff : (empty.process op).2 = .ok true ↔ op.isCopy = false := by
  cases copy : op.isCopy with
  | true =>
    rw [process_copy copy]
    simp
  | false =>
    rcases answer : empty.process op with ⟨m', r⟩
    obtain ⟨-, ⟨rfl, -⟩ | ⟨-, -, pending⟩⟩ := processed sound_empty copy answer
    · simp
    · exact absurd rfl pending

/-- An operation that joins is counted in front of those behind it. -/
theorem taken_processAll {ops : List Operation} (joins : m.process op = (m', .ok true)) :
    (m.processAll (op :: ops)).2 = (m'.processAll ops).2.map (· + 1) := by
  simp only [processAll, joins]
  rcases m'.processAll ops with ⟨m'', e | n⟩ <;> rfl

/-- What joined a batch is no copy. -/
theorem isCopy_of_joins (joins : m.process op = (m', .ok true)) : op.isCopy = false := by
  cases copy : op.isCopy with
  | false => rfl
  | true =>
    rw [process_copy copy] at joins
    cases joins

theorem isCopy_of_processAll {ops : List Operation} {n : Nat} (taken : (m.processAll ops).2 = .ok n) :
    ∀ op ∈ ops.take n, op.isCopy = false := by
  induction ops generalizing m n with
  | nil => exact fun op member => absurd member (by simp)
  | cons op ops ih =>
    rcases first : m.process op with ⟨m', e | _ | _⟩
    · simp [processAll, first] at taken
    · simp only [processAll, first, Except.ok.injEq] at taken
      subst taken
      exact fun op member => absurd member List.not_mem_nil
    · rw [taken_processAll first] at taken
      cases rest : (m'.processAll ops).2 with
      | error e =>
        rw [rest] at taken
        cases taken
      | ok k =>
        rw [rest] at taken
        cases taken
        intro op' member
        rw [List.take_succ_cons, List.mem_cons] at member
        rcases member with rfl | later
        · exact isCopy_of_joins first
        · exact ih rest op' later

/-! ## What an operation leaves that does not join -/

/-- Every operation keeps a batch regular, whatever becomes of it. -/
theorem Regular.process (h : m.Regular) (sound : m.Sound) (op : Operation) : (m.process op).1.Regular := by
  rcases hv : (m.pending op.path).visit op with ⟨after, e | v⟩
  · cases Pending.visited (sound op.path) hv
    have same := PendingTable.points_set h.sorted op.path (m.pending op.path)
    have counted : m.points = (m.table.set op.path (m.pending op.path)).points := by
      rw [h.counted]
      simp only [pending] at same ⊢
      omega
    simp only [Merger.process, hv]
    exact ⟨h.sorted.set _ _, counted⟩
  · have set := h.set op.path after
    simp only [Merger.process, hv]
    split <;> exact set _

theorem regular_takeAll (ops : List Operation) : (empty.takeAll ops).Regular := by
  suffices from_any : ∀ m : Merger, m.Sound → m.Regular → (m.takeAll ops).Regular from
    from_any empty sound_empty regular_empty
  induction ops with
  | nil => exact fun m _ regular => regular
  | cons op ops ih => exact fun m sound regular => ih _ (sound.process op) (regular.process sound op)

/-- The operations of all attributes are counted attribute by attribute. -/
theorem length_eq_flatMap (m : Merger) :
    m.length = (m.table.flatMap fun entry => entry.2.operations).length := by
  unfold length
  induction m.table with
  | nil => rfl
  | cons entry rest ih => rw [List.map_cons, List.foldr_cons, List.flatMap_cons, List.length_append, ih]

/-- **An operation that does not join leaves the batch as it is**, but for the attribute of a copy that was not
there. -/
theorem refused_cases (sound : m.Sound) (regular : m.Regular) (refused : r ≠ .ok true)
    (answered : m.process op = (m', r)) :
    (m' = m ∧ (op.isCopy = true → m.has op.path = true)) ∨
      (op.isCopy = true ∧ m.table.get? op.path = none ∧
        m' = { m with table := m.table.set op.path .empty }) := by
  cases copy : op.isCopy with
  | false =>
    obtain ⟨-, ⟨joins, -⟩ | ⟨rfl, -⟩⟩ := processed sound copy answered
    · exact absurd joins refused
    · obtain ⟨rfl, -⟩ := process_eq_waits sound regular answered
      exact .inl ⟨rfl, fun is_copy => by cases is_copy⟩
  | true =>
    rw [process_copy copy, Prod.mk.injEq] at answered
    obtain ⟨rfl, -⟩ := answered
    cases found : m.table.get? op.path with
    | none => exact .inr ⟨rfl, rfl, by rw [pending, found]; rfl⟩
    | some p =>
      have same : m.table.set op.path (m.pending op.path) = m.table :=
        regular.sorted.set_same (by rw [pending, found]; rfl)
      exact .inl ⟨by rw [same], fun _ => by rw [has, found]; rfl⟩

/-- Batches that have the same pending on every attribute, count the same operations and points, and are finished
alike. They can differ in the attributes on which nothing is pending. -/
structure Alike (m m' : Merger) : Prop where
  pending : ∀ path, m'.pending path = m.pending path
  pointsOf : ∀ path, m'.pointsOf path = m.pointsOf path
  points : m'.points = m.points
  length : m'.length = m.length
  sourceCount : m'.sourceCount = m.sourceCount
  finish : ∀ errors, m'.finish errors = m.finish errors

theorem alike_refl (m : Merger) : m.Alike m :=
  ⟨fun _ => rfl, fun _ => rfl, rfl, rfl, rfl, fun _ => rfl⟩

/-- A new attribute with nothing pending makes no difference to the operations. -/
theorem alike_set_empty {path : AttributePath} (absent : m.table.get? path = none) :
    m.Alike { m with table := m.table.set path .empty } := by
  have pending (path' : AttributePath) :
      (⟨m.table.set path .empty, m.sourceCount, m.points⟩ : Merger).pending path' = m.pending path' := by
    rw [pending_set]
    split
    · next here => rw [here, Merger.pending, absent]; rfl
    · rfl
  have operations := PendingTable.flatMap_set_empty (f := Pending.operations) rfl absent
  have reports := PendingTable.flatMap_set_empty (f := Pending.errors) rfl absent
  refine ⟨pending, fun path' => congrArg Pending.points (pending path'), rfl, ?_, rfl, fun errors => ?_⟩
  · rw [length_eq_flatMap, length_eq_flatMap, operations]
  · unfold Merger.finish
    rw [operations, reports]

/-- **An operation that does not join leaves no trace** in what a batch has pending, counts and is finished with.
It leaves the very same batch, unless it is a copy whose attribute was not there: then the attribute is there
afterwards, with nothing pending on it, and counts as one of the batch. -/
theorem refused_leaves (ops : List Operation) (refused : r ≠ .ok true)
    (answered : (empty.takeAll ops).process op = (m', r)) :
    let m := empty.takeAll ops
    let new := op.isCopy && !m.has op.path
    m.Alike m' ∧ (m' = m ↔ new = false) ∧
      (∀ path, m'.has path = (m.has path || (new && decide (path = op.path)))) ∧
      m'.attributes = if new then m.attributes + 1 else m.attributes := by
  have sound := sound_empty.takeAll ops
  have regular := regular_takeAll ops
  generalize empty.takeAll ops = m at sound regular answered
  intro m new
  rcases refused_cases sound regular refused answered with ⟨rfl, there⟩ | ⟨copy, absent, rfl⟩
  · have not_new : new = false := by
      cases copy : op.isCopy with
      | false => simp [new, copy]
      | true => simp [new, m, there copy]
    rw [not_new]
    exact ⟨alike_refl m, iff_of_true rfl rfl, fun path => by rw [Bool.false_and, Bool.or_false], rfl⟩
  · have not_there : m.has op.path = false := by
      rw [has, absent]
      rfl
    have is_new : new = true := by simp [new, copy, not_there]
    have there (path : AttributePath) := has_set m op.path path .empty m.sourceCount m.points
    rw [is_new]
    refine ⟨alike_set_empty absent, iff_of_false (fun same => ?_) (by decide), fun path => ?_, ?_⟩
    · have still := there op.path
      rw [same, not_there] at still
      simp at still
    · rw [there, Bool.true_and, Bool.or_comm]
    · have grown := PendingTable.length_set regular.sorted op.path .empty
      rwa [absent] at grown

/-- A file that waits for a deletion leaves the batch as it was, and so does a copy to the attribute. -/
theorem refused_leaves_behindDeletion :
    let a := AttributePath.single "a"
    let m := empty.takeAll [⟨a, .delete⟩]
    (∃ m', m.process ⟨a, .uploadFile "txt" "f" false⟩ = (m', .ok false) ∧ m' = m) ∧
      ∃ m', m.process ⟨a, .copy ⟨"RUN-1", .run, a, .int⟩⟩ = (m', .error (.unresolvedCopy a)) ∧ m' = m := by
  intro a m
  have late : m.process ⟨a, .uploadFile "txt" "f" false⟩ = (_, .ok false) := rfl
  have copy : m.process ⟨a, .copy ⟨"RUN-1", .run, a, .int⟩⟩ = (_, .error (.unresolvedCopy a)) := rfl
  exact ⟨⟨_, late, (refused_leaves [⟨a, .delete⟩] (by simp) late).2.1.2 rfl⟩,
    ⟨_, copy, (refused_leaves [⟨a, .delete⟩] (by simp) copy).2.1.2 rfl⟩⟩

/-- **A copy leaves its attribute behind.** An empty batch cannot take it, and has one attribute then. -/
theorem refused_leaves_attribute :
    let a := AttributePath.single "a"
    let copy : Operation := ⟨a, .copy ⟨"RUN-1", .run, .single "b", .int⟩⟩
    ∃ m', empty.process copy = (m', .error (.unresolvedCopy a)) ∧ m' ≠ empty ∧
      empty.has a = false ∧ m'.has a = true ∧ empty.attributes = 0 ∧ m'.attributes = 1 :=
  ⟨_, rfl, by decide, rfl, rfl, rfl, rfl⟩

end Merger

end Outbox
