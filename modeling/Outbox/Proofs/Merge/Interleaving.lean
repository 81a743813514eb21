import Outbox.Proofs.Merge.Sorted

/-!
# Attributes are merged on their own

What a batch has for one attribute comes from the operations of that attribute, and whether an operation
joins the batch depends on those before it on the same attribute. So it is no matter how the operations
of different attributes come between each other.

* `onPath` are the operations of one attribute, and `Pending.joinAll` is what becomes of them alone;
* `Merger.Joined` says what taking operations does to a batch, attribute by attribute: `processAll_joined`
  and `joined_processAll` are the two directions between it and the batch;
* `Merger.processAll_of_onPath` is the result.
-/

namespace Outbox

/-- The operations of an attribute. -/
def onPath (path : AttributePath) (ops : List Operation) : List Operation :=
  ops.filter (·.path = path)

section onPath

variable {path : AttributePath} {op : Operation}

theorem onPath_cons_same (h : op.path = path) (ops : List Operation) :
    onPath path (op :: ops) = op :: onPath path ops :=
  List.filter_cons_of_pos (decide_eq_true h)

theorem onPath_cons_other (h : op.path ≠ path) (ops : List Operation) :
    onPath path (op :: ops) = onPath path ops :=
  List.filter_cons_of_neg (by simpa using h)

theorem onPath_append (path : AttributePath) (ops ops' : List Operation) :
    onPath path (ops ++ ops') = onPath path ops ++ onPath path ops' :=
  List.filter_append ..

theorem mem_onPath {ops : List Operation} : op ∈ onPath path ops ↔ op ∈ ops ∧ op.path = path := by
  rw [onPath, List.mem_filter, decide_eq_true_eq]

theorem path_of_mem_onPath {ops : List Operation} (member : op ∈ onPath path ops) : op.path = path :=
  (mem_onPath.1 member).2

/-- Operations that agree on every attribute are the same ones, in another order. -/
theorem perm_of_onPath {ops ops' : List Operation} (same : ∀ path, onPath path ops = onPath path ops') :
    ops.Perm ops' := by
  rw [List.perm_iff_count]
  intro op
  have here (ops : List Operation) : (onPath op.path ops).count op = ops.count op :=
    List.count_filter (decide_eq_true rfl)
  rw [← here ops, same, here ops']

end onPath

namespace Pending

/-- Takes operations in turn, as long as they join the batch. -/
def joinAll (p : Pending) : List Operation → Option Pending
  | [] => some p
  | op :: ops =>
    match p.visit op with
    | (p', .ok .accepted) => p'.joinAll ops
    | (p', .ok .rejected) => p'.joinAll ops
    | _ => none

theorem joinAll_cons_of_visit {p p' : Pending} {op : Operation} {v : Visit}
    (hv : p.visit op = (p', .ok v)) (joins : v ≠ .waits) (ops : List Operation) :
    p.joinAll (op :: ops) = p'.joinAll ops := by
  cases v with
  | accepted | rejected => simp only [joinAll, hv]
  | waits => exact absurd rfl joins

/-- An operation that joins a batch was dealt with. -/
theorem visit_of_joinAll {p q : Pending} {op : Operation} {ops : List Operation}
    (h : p.joinAll (op :: ops) = some q) :
    ∃ p' v, p.visit op = (p', .ok v) ∧ v ≠ .waits ∧ p'.joinAll ops = some q := by
  rw [joinAll] at h
  split at h
  · next p' hv => exact ⟨p', .accepted, hv, by simp, h⟩
  · next p' hv => exact ⟨p', .rejected, hv, by simp, h⟩
  · cases h

theorem joinAll_append (p : Pending) (ops ops' : List Operation) :
    p.joinAll (ops ++ ops') = (p.joinAll ops).bind fun q => q.joinAll ops' := by
  induction ops generalizing p with
  | nil => rfl
  | cons op ops ih =>
    show joinAll p (op :: (ops ++ ops')) = _
    rw [joinAll, joinAll]
    split
    · exact ih _
    · exact ih _
    · rfl

end Pending

namespace Merger

variable {m m' : Merger}

/-! ## One operation -/

/-- What it takes for an operation to join a batch, and what that does. -/
theorem process_eq_joins {op : Operation} : m.process op = (m', .ok true) ↔
    ∃ after v, (m.pending op.path).visit op = (after, .ok v) ∧ v ≠ .waits ∧
      m' = ⟨m.table.set op.path after, m.sourceCount + 1,
        m.points - (m.pending op.path).points + after.points⟩ := by
  rcases hv : (m.pending op.path).visit op with ⟨after, v⟩
  cases v with
  | error e => simp [process, hv]
  | ok v =>
    by_cases late : v = .waits
    · simp [process, hv, late]
    · have joins : m.process op = (⟨m.table.set op.path after, m.sourceCount + 1,
          m.points - (m.pending op.path).points + after.points⟩, .ok true) := by
        simp [process, hv, late]
      rw [joins, Prod.mk.injEq]
      constructor
      · rintro ⟨rfl, -⟩
        exact ⟨after, v, rfl, late, rfl⟩
      · rintro ⟨after', v', hv', -, rfl⟩
        cases hv'
        exact ⟨rfl, rfl⟩

theorem processAll_cons {op : Operation} {ops : List Operation} :
    m.processAll (op :: ops) = (m', .ok (op :: ops).length) ↔
      ∃ m₁, m.process op = (m₁, .ok true) ∧ m₁.processAll ops = (m', .ok ops.length) := by
  rw [processAll]
  rcases m.process op with ⟨m₁, r⟩
  rcases r with e | _ | _
  · simp
  · simp
  · rcases hr : m₁.processAll ops with ⟨m₂, r₂⟩
    cases r₂ <;> simp [hr]

/-- One more operation joins behind the others. -/
theorem processAll_concat {m'' : Merger} {ops : List Operation} {op : Operation}
    (all : m.processAll ops = (m', .ok ops.length)) (joins : m'.process op = (m'', .ok true)) :
    m.processAll (ops ++ [op]) = (m'', .ok (ops ++ [op]).length) := by
  induction ops generalizing m with
  | nil =>
    cases all
    exact processAll_cons.2 ⟨m'', joins, rfl⟩
  | cons first ops ih =>
    obtain ⟨m₁, first_joins, rest⟩ := processAll_cons.1 all
    exact processAll_cons.2 ⟨m₁, first_joins, ih rest⟩

/-- The table of a batch is in order, and the points of the batch are those of its attributes. -/
structure Regular (m : Merger) : Prop where
  sorted : m.table.Sorted
  counted : m.points = m.table.points

theorem regular_empty : empty.Regular :=
  ⟨PendingTable.sorted_nil, rfl⟩

theorem Regular.set (h : m.Regular) (path : AttributePath) (after : Pending) (count : Nat) :
    (⟨m.table.set path after, count, m.points - (m.pending path).points + after.points⟩ :
      Merger).Regular where
  sorted := h.sorted.set path after
  counted := by
    have changed := PendingTable.points_set h.sorted path after
    -- setting nothing shows that the points of the attribute are among those of the batch
    have emptied := PendingTable.points_set h.sorted path .empty
    have := h.counted
    simp only [Pending.empty, pending] at *
    omega

/-- An operation that has to wait leaves the batch as it is. It ships or tracks files behind a deletion. -/
theorem process_eq_waits (sound : m.Sound) (regular : m.Regular) {op : Operation}
    (late : m.process op = (m', .ok false)) :
    m' = m ∧ (op.isUpload || op.isTrack) = true ∧ (m.pending op.path).deletes ≠ [] := by
  rcases hv : (m.pending op.path).visit op with ⟨after, e | v⟩
  · simp only [Merger.process, hv] at late
    cases late
  · cases Pending.visited (sound op.path) hv with
    | waits _ _ file pending =>
      refine ⟨?_, file, pending⟩
      have found : m.table.get? op.path = some (m.pending op.path) := by
        rw [Merger.pending] at pending ⊢
        cases there : m.table.get? op.path with
        | none =>
          rw [there] at pending
          exact absurd rfl pending
        | some p => rfl
      have among : m.points - (m.pending op.path).points + (m.pending op.path).points = m.points := by
        have same := (regular.set op.path (m.pending op.path) m.sourceCount).counted
        rwa [regular.sorted.set_same found, ← regular.counted] at same
      simp only [Merger.process, hv, ↓reduceIte, Prod.mk.injEq] at late
      obtain ⟨rfl, -⟩ := late
      rw [regular.sorted.set_same found, among]
    | _ => simp [Merger.process, hv] at late

/-! ## All operations -/

/-- What operations did to a batch that all of them joined. -/
structure Joined (m : Merger) (ops : List Operation) (m' : Merger) : Prop where
  /-- Each attribute took its own operations. -/
  pending : ∀ path, (m.pending path).joinAll (onPath path ops) = some (m'.pending path)
  has : ∀ path, m'.has path = (m.has path || !(onPath path ops).isEmpty)
  count : m'.sourceCount = m.sourceCount + ops.length
  regular : m.Regular → m'.Regular

theorem joined_nil (m : Merger) : m.Joined [] m :=
  ⟨fun _ => rfl, fun _ => by simp [onPath], rfl, id⟩

theorem has_set (m : Merger) (path path' : AttributePath) (p : Pending) (n k : Nat) :
    (⟨m.table.set path p, n, k⟩ : Merger).has path' = (decide (path' = path) || m.has path') := by
  rw [has, has, PendingTable.get?_set]
  by_cases same : path' = path <;> simp [same]

/-- One operation joins before the others. -/
theorem Joined.cons {op : Operation} {ops : List Operation} {after : Pending} {v : Visit}
    (hv : (m.pending op.path).visit op = (after, .ok v)) (joins : v ≠ .waits)
    (h : Joined ⟨m.table.set op.path after, m.sourceCount + 1,
      m.points - (m.pending op.path).points + after.points⟩ ops m') : m.Joined (op :: ops) m' where
  pending path := by
    have rest := h.pending path
    rw [pending_set] at rest
    by_cases here : op.path = path
    · subst here
      rw [onPath_cons_same rfl, Pending.joinAll_cons_of_visit hv joins]
      rwa [if_pos rfl] at rest
    · rw [onPath_cons_other here]
      rwa [if_neg (Ne.symm here)] at rest
  has path := by
    rw [h.has path, has_set]
    by_cases here : op.path = path
    · subst here
      simp [onPath_cons_same]
    · simp [onPath_cons_other here, Ne.symm here]
  count := by
    rw [h.count, List.length_cons, Nat.add_assoc, Nat.add_comm 1]
  regular regular := h.regular (regular.set _ _ _)

/-- Operations that all join a batch are taken by each attribute on its own. -/
theorem processAll_joined {ops : List Operation} (h : m.processAll ops = (m', .ok ops.length)) :
    m.Joined ops m' := by
  induction ops generalizing m with
  | nil =>
    cases h
    exact joined_nil _
  | cons op ops ih =>
    obtain ⟨m₁, first, rest⟩ := processAll_cons.1 h
    obtain ⟨after, v, hv, joins, rfl⟩ := process_eq_joins.1 first
    exact .cons hv joins (ih rest)

/-- Operations that each attribute takes on its own all join the batch. -/
theorem joined_processAll {ops : List Operation}
    (each : ∀ path, ∃ q, (m.pending path).joinAll (onPath path ops) = some q) :
    ∃ m', m.processAll ops = (m', .ok ops.length) := by
  induction ops generalizing m with
  | nil => exact ⟨m, rfl⟩
  | cons op ops ih =>
    obtain ⟨q, here⟩ := each op.path
    rw [onPath_cons_same rfl] at here
    obtain ⟨after, v, hv, joins, rest⟩ := Pending.visit_of_joinAll here
    have first := process_eq_joins.2 ⟨after, v, hv, joins, rfl⟩
    obtain ⟨m', all⟩ := ih (fun path => by
      rw [pending_set]
      by_cases same : path = op.path
      · subst same
        exact ⟨q, by rw [if_pos rfl, rest]⟩
      · obtain ⟨q', there⟩ := each path
        rw [onPath_cons_other (Ne.symm same)] at there
        exact ⟨q', by rw [if_neg same, there]⟩)
    exact ⟨m', processAll_cons.2 ⟨_, first, all⟩⟩

/-- Where an attribute occurs in a batch, the table has what is pending on it. -/
theorem get?_eq_of_has {path : AttributePath} :
    m.table.get? path = if m.has path then some (m.pending path) else none := by
  rw [has, pending]
  cases m.table.get? path <;> simp

/-- Two batches that all operations joined are the same if the operations are, attribute by
attribute. -/
theorem Joined.eq_of_onPath {m₀ : Merger} {ops ops' : List Operation} (start : m₀.Regular)
    (h : m₀.Joined ops m) (h' : m₀.Joined ops' m')
    (same : ∀ path, onPath path ops = onPath path ops') : m = m' := by
  have table : m.table = m'.table := by
    refine (h.regular start).sorted.ext (h'.regular start).sorted fun path => ?_
    have has : m.has path = m'.has path := by rw [h.has, h'.has, same]
    have pending : m.pending path = m'.pending path := by
      have here := h.pending path
      rw [same, h'.pending path, Option.some.injEq] at here
      exact here.symm
    rw [get?_eq_of_has, get?_eq_of_has, has, pending]
  have count : m.sourceCount = m'.sourceCount := by
    rw [h.count, h'.count, (perm_of_onPath same).length_eq]
  have points : m.points = m'.points := by
    rw [(h.regular start).counted, (h'.regular start).counted, table]
  obtain ⟨_, _, _⟩ := m
  obtain ⟨_, _, _⟩ := m'
  simp_all

/-- **The order between attributes is no matter.** If all of some operations join a new batch, so do
the same operations in any order that is the same on every attribute, and the batch is the same: the
operations and errors that it is finished with, and all that it counts. -/
theorem processAll_of_onPath {ops ops' : List Operation}
    (same : ∀ path, onPath path ops = onPath path ops')
    (all : empty.processAll ops = (m, .ok ops.length)) :
    empty.processAll ops' = (m, .ok ops'.length) := by
  have joined := processAll_joined all
  have each : ∀ path, ∃ q, (empty.pending path).joinAll (onPath path ops') = some q := fun path =>
    ⟨m.pending path, by rw [← same, joined.pending]⟩
  obtain ⟨m', all'⟩ := joined_processAll each
  rw [all', joined.eq_of_onPath regular_empty (processAll_joined all') same]

/-- Operations of two attributes, mixed. One is rejected for its type. -/
def mixedOperations : List Operation :=
  let a := AttributePath.single "a"
  let b := AttributePath.single "b"
  let point : Point String := ⟨"x", none, .infinite false⟩
  [⟨b, .assign (.bool true)⟩, ⟨a, .log (.strings [point])⟩, ⟨b, .delete⟩, ⟨a, .addStrings ["y"]⟩,
    ⟨b, .log (.strings [point, point])⟩, ⟨a, .log (.strings [point])⟩]

/-- One attribute after the other, they make the same batch of four points. -/
theorem processAll_of_onPath_mixed :
    let ops := mixedOperations.filter (·.path.segments = ["a"]) ++
      mixedOperations.filter (·.path.segments = ["b"])
    ∃ m, (∀ path, onPath path mixedOperations = onPath path ops) ∧
      empty.processAll mixedOperations = (m, .ok 6) ∧ empty.processAll ops = (m, .ok 6) ∧
      m.points = 4 := by
  intro ops
  have same : ∀ path, onPath path mixedOperations = onPath path ops := by
    intro path
    by_cases a : path = .single "a"
    · subst a
      decide
    · by_cases b : path = .single "b"
      · subst b
        decide
      · simp [onPath, ops, mixedOperations, Ne.symm a, Ne.symm b]
  exact ⟨_, same, rfl, processAll_of_onPath same rfl, rfl⟩

end Merger

end Outbox
