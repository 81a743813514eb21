import Outbox.Proofs.Merge.Counting
import Outbox.Proofs.Merge.Refusals

/-!
# Counters of points

A batch counts points twice: each attribute those of its pending logs, and the batch those of all attributes. The
counters are changed by differences, so they are right only as long as no difference falls below zero. None does:
an attribute counts no less than a clear takes off, and the batch no less than each of its attributes.

* `Merger.points_process` is the law of the total, and `Pending.points_clear` that of a clear;
* `Merger.CountsPoints` is what is said of a batch, and `Merger.countsPoints_takeAll` the result.
-/

namespace Outbox

/-! ## One attribute -/

/-- **A clear takes off what was counted**, and leaves nothing to count. -/
theorem Pending.points_clear {p p' : Pending} {op : Operation} {t : DataType} (counted : p.Counted)
    (sound : p.Sound) (clears : op.mutation.role = .change t .clear)
    (visits : p.visit op = (p', .ok .accepted)) :
    p'.points + totalPoints p.changes = p.points ∧ p'.points = 0 := by
  cases Pending.visited sound visits with
  | @changed _ c _ hr =>
    rw [clears, Role.change.injEq] at hr
    obtain ⟨-, rfl⟩ := hr
    have whole : p.points = totalPoints p.changes := counted
    simp [pointsAfter, whole]
  | configured hr =>
    rw [clears] at hr
    cases hr
  | deleted hr =>
    rw [clears] at hr
    cases hr

/-! ## The whole batch -/

namespace Merger

variable {m : Merger}

/-- An attribute has no more points than the batch. -/
theorem Regular.pointsOf_le (h : m.Regular) (path : AttributePath) : m.pointsOf path ≤ m.points := by
  -- without the points of the attribute, the others are left
  have emptied := PendingTable.points_set h.sorted path .empty
  have all := h.counted
  simp only [pointsOf, pending, Pending.empty] at emptied ⊢
  omega

/-- **An operation changes the total as it changes the count of its attribute**, whatever becomes of it. -/
theorem points_process (sound : m.Sound) (regular : m.Regular) (op : Operation) :
    (m.process op).1.points + m.pointsOf op.path = m.points + (m.process op).1.pointsOf op.path := by
  have here : (m.process op).1.pointsOf op.path = ((m.pending op.path).visit op).1.points := by
    rw [pointsOf, pending_process, if_pos rfl]
  have after : (m.process op).1.points =
      (m.table.set op.path ((m.pending op.path).visit op).1).points := by
    rw [← table_process]
    exact (regular.process sound op).counted
  rw [here, after, regular.counted]
  exact PendingTable.points_set regular.sorted op.path _

/-- The counters of a batch are right, and no operation that comes next lets one of them fall below zero. -/
structure CountsPoints (m : Merger) : Prop where
  /-- Each attribute counts the points of its pending logs. -/
  each : ∀ entry ∈ m.table, entry.2.points = totalPoints entry.2.changes
  /-- The batch counts what its attributes count. -/
  total : m.points = (m.table.map fun entry => entry.2.points).foldr (· + ·) 0
  /-- What the attribute of an operation counted before can be taken off the total. -/
  among : ∀ op : Operation, m.pointsOf op.path ≤ m.points
  /-- So the total is changed by what the operation changes. -/
  changed : ∀ op : Operation,
    (m.process op).1.points + m.pointsOf op.path = m.points + (m.process op).1.pointsOf op.path
  /-- What a clear takes off was counted. -/
  cleared : ∀ {op : Operation} {t : DataType}, op.mutation.role = .change t .clear →
    totalPoints (m.pending op.path).changes ≤ m.pointsOf op.path ∧
      (((m.pending op.path).visit op).2 = .ok .accepted →
        (m.process op).1.pointsOf op.path + totalPoints (m.pending op.path).changes = m.pointsOf op.path)

/-- **The counters of points are exact** after any operations, going on whatever becomes of each of them. -/
theorem countsPoints_takeAll (ops : List Operation) : (empty.takeAll ops).CountsPoints := by
  have sound := sound_empty.takeAll ops
  have regular := regular_takeAll ops
  have counted := counted_takeAll ops
  generalize empty.takeAll ops = m at sound regular counted
  refine ⟨?_, regular.counted, fun op => regular.pointsOf_le op.path, points_process sound regular, ?_⟩
  · intro entry member
    have here := counted entry.1
    rwa [pending, get?_of_mem regular.sorted member] at here
  · intro op t clears
    refine ⟨Nat.le_of_eq (counted op.path).symm, fun accepted => ?_⟩
    rcases visits : (m.pending op.path).visit op with ⟨after, v⟩
    rw [visits] at accepted
    obtain rfl : v = .ok .accepted := accepted
    rw [pointsOf, pending_process, if_pos rfl, visits]
    exact (Pending.points_clear (counted op.path) (sound op.path) clears visits).1

end Merger

end Outbox
