import Mathlib.Data.List.Dedup
import Outbox.Proofs.Merge.Counting

/-!
# Bounds of a batch

An operation that joins a batch raises the counters by no more than it brings along, and what is replayed ahead
of a deletion was counted before the deletion came. So who looks at the counters before an operation joins keeps
a batch within bounds.

* `Merger.Within` are bounds of a batch, and `Merger.Within.process` is the law of one operation;
* `attributesOf` is the number of attributes that operations name, and `Merger.attributesOf_finish` says that a
  batch counts those it sends; `Merger.sends_deletion` says so of the deletions that files have to wait for.
-/

namespace Outbox

/-! ## One attribute -/

namespace Pending

variable {p p' : Pending} {op : Operation} {v : Except MergeError Visit}

/-- An operation brings no more points than it carries. -/
theorem Visited.points_le (hv : Visited p op p' v) : p'.points ≤ p.points + op.points := by
  cases hv with
  | copy | rejected | waits | configured => exact Nat.le_add_right _ _
  | deleted => exact Nat.zero_le _
  | @changed t c changes hr fits early combined =>
    cases c with
    | log ps =>
      obtain ⟨log, -⟩ := Mutation.role_log hr
      simp [pointsAfter, Operation.points, log]
    | clear => exact Nat.le_trans (Nat.sub_le _ _) (Nat.le_add_right _ _)
    | replace | append | track => exact Nat.le_add_right _ _

/-- What is replayed ahead of a deletion was counted before. -/
theorem Counted.replays_le (counted : p.Counted) (sound : p.Sound) (hv : Visited p op p' v) {most : Nat}
    (enough : p.points ≤ most) (replays : ∀ d ∈ p.deletes, d.points ≤ most) :
    ∀ d ∈ p'.deletes, d.points ≤ most := by
  cases hv with
  | copy | rejected | waits | changed | configured => exact replays
  | deleted hr =>
    intro d member
    replace member : d ∈ p.deletesAfter op := member
    unfold deletesAfter at member
    split at member
    · rcases List.mem_append.1 member with first | deletion
      · rcases List.mem_append.1 (List.mem_of_mem_take first) with change | config
        · refine Nat.le_trans (points_le_totalPoints change) ?_
          rwa [← counted]
        · obtain ⟨t, -, hr'⟩ := sound.configured d config
          rw [Operation.points_of_configure hr']
          exact Nat.zero_le _
      · rw [List.mem_singleton.1 deletion, Operation.points_of_deletion (Mutation.role_delete hr)]
        exact Nat.zero_le _
    · exact replays d member

end Pending

/-! ## The whole batch -/

namespace PendingTable

/-- The paths of a table are those that it has something for. -/
theorem mem_paths {table : PendingTable} (sorted : table.Sorted) {path : AttributePath} :
    path ∈ table.map Prod.fst ↔ (table.get? path).isSome = true := by
  constructor
  · intro member
    obtain ⟨entry, inside, rfl⟩ := List.mem_map.1 member
    rw [Merger.get?_of_mem sorted inside]
    rfl
  · intro found
    obtain ⟨p, found⟩ := Option.isSome_iff_exists.1 found
    exact List.mem_map.2 ⟨(path, p), mem_of_get? found, rfl⟩

theorem nodup_paths {table : PendingTable} (sorted : table.Sorted) : (table.map Prod.fst).Nodup :=
  List.pairwise_map.2 (sorted.imp AttributePath.ne_of_order)

end PendingTable

/-- The number of attributes that operations name. -/
def attributesOf (ops : List Operation) : Nat :=
  (ops.map Operation.path).dedup.length

namespace Merger

variable {m m' : Merger} {op : Operation} {few total : Nat} {share : AttributePath → Nat}

@[simp] theorem points_empty : empty.points = 0 :=
  rfl

@[simp] theorem pointsOf_empty (path : AttributePath) : empty.pointsOf path = 0 :=
  rfl

theorem pointsOf_le_points (regular : m.Regular) (path : AttributePath) : m.pointsOf path ≤ m.points := by
  have emptied := PendingTable.points_set regular.sorted path .empty
  have counted := regular.counted
  simp only [Pending.empty, pointsOf, pending] at *
  omega

theorem attributes_process (regular : m.Regular) (joins : m.process op = (m', .ok true)) :
    m'.attributes = if m.has op.path then m.attributes else m.attributes + 1 := by
  obtain ⟨after, v, -, -, rfl⟩ := process_eq_joins.1 joins
  exact PendingTable.length_set regular.sorted op.path after

/-- Bounds of a batch: of its attributes, of the points that it counts, and of those that are replayed. -/
structure Within (m : Merger) (few total : Nat) (share : AttributePath → Nat) : Prop where
  attributes : m.attributes ≤ few
  points : m.points ≤ total
  shares : ∀ path, m.pointsOf path ≤ share path
  replays : ∀ path, ∀ d ∈ (m.pending path).deletes, d.points ≤ total ∧ d.points ≤ share path

theorem within_empty (few total : Nat) (share : AttributePath → Nat) : empty.Within few total share :=
  ⟨Nat.zero_le _, Nat.zero_le _, fun _ => Nat.zero_le _, fun _ _ member => absurd member List.not_mem_nil⟩

/-- **An operation that joins keeps the bounds**, if there is room for what it brings along. -/
theorem Within.process (h : m.Within few total share) (sound : m.Sound) (exact : m.Exact)
    (joins : m.process op = (m', .ok true)) (attributes : m'.attributes ≤ few)
    (fits : op.isLog = true → m.points + op.points ≤ total ∧ m.pointsOf op.path + op.points ≤ share op.path) :
    m'.Within few total share := by
  -- what is no log brings no points, so it fits as well
  have room : m.points + op.points ≤ total ∧ m.pointsOf op.path + op.points ≤ share op.path := by
    cases log : op.isLog with
    | true => exact fits log
    | false =>
      rw [Operation.points_of_plain log]
      exact ⟨h.points, h.shares op.path⟩
  have among := pointsOf_le_points exact.regular op.path
  obtain ⟨after, v, hv, -, rfl⟩ := process_eq_joins.1 joins
  have visited := Pending.visited (sound op.path) hv
  have brings : after.points ≤ m.pointsOf op.path + op.points := visited.points_le
  refine ⟨attributes, ?_, fun path => ?_, fun path d member => ?_⟩
  · show m.points - m.pointsOf op.path + after.points ≤ total
    omega
  · rw [pointsOf, pending_set]
    split
    · next here =>
      rw [here]
      exact Nat.le_trans brings room.2
    · exact h.shares path
  · rw [pending_set] at member
    split at member
    · next here =>
      rw [here]
      have counted := exact.counted op.path
      have in_total : (m.pending op.path).points ≤ total := Nat.le_trans among h.points
      exact ⟨counted.replays_le (sound op.path) visited in_total (fun d old => (h.replays _ d old).1) d member,
        counted.replays_le (sound op.path) visited (h.shares op.path) (fun d old => (h.replays _ d old).2) d
          member⟩
    · exact h.replays path d member

/-- **A batch counts the attributes that it sends.** -/
theorem attributesOf_finish {ops : List Operation} (all : empty.processAll ops = (m, .ok ops.length))
    (errors : List Inconsistency) : attributesOf (m.finish errors).operations = m.attributes := by
  have sorted := (exact_processAll all).regular.sorted
  have same : ((m.finish errors).operations.map Operation.path).dedup.Perm (m.table.map Prod.fst) := by
    refine (List.perm_ext_iff_of_nodup (List.nodup_dedup _) (PendingTable.nodup_paths sorted)).2 fun path => ?_
    rw [List.mem_dedup, List.mem_map, PendingTable.mem_paths sorted]
    exact mem_paths_iff all errors
  rw [attributesOf, same.length_eq, List.length_map]
  rfl

/-- What is to be deleted is deleted by an operation that is sent. -/
theorem sends_deletion (fresh : m.Fresh) (errors : List Inconsistency) {path : AttributePath}
    (deletes : (m.pending path).deletes ≠ []) :
    ∃ d ∈ (m.finish errors).operations, d.path = path ∧ d.mutation = .delete := by
  obtain ⟨d, pending, is_deletion⟩ : ∃ d ∈ (m.pending path).deletes, d.mutation = .delete := by
    have shape := (fresh.sound path).deletion
    generalize (m.pending path).deletes = pending at shape deletes
    cases shape with
    | none => exact absurd rfl deletes
    | alone is_deletion => exact ⟨_, List.mem_singleton_self _, is_deletion⟩
    | behind _ is_deletion => exact ⟨_, List.mem_cons_of_mem _ (List.mem_singleton_self _), is_deletion⟩
  have inside := mem_byLane.2 (Pending.mem_operations.2 (.inl pending))
  rw [← onPath_finish fresh.sorted fresh.aligned errors path] at inside
  obtain ⟨sent, here⟩ := List.mem_filter.1 inside
  exact ⟨d, sent, of_decide_eq_true here, is_deletion⟩

end Merger

end Outbox
