import Outbox.Proofs.Merge.Interleaving
import Outbox.Proofs.Merge.Uploads

/-!
# The lists of a batch

A batch is sent list by list: uploads, then tracked files, then all others. On one attribute this is
the order of the pending operations as long as no upload or tracked files come behind something else.
A pending deletion sees to that, because uploads and tracked files wait for it. But nothing else does: a
clear or an assignment of an artifact and the files that are tracked after it change places, and so do
files that are deleted and a set that is uploaded after that.

* `Operation.lane` numbers the lists, and `byLane` puts operations in their order;
* `Pending.Aligned` is what a pending deletion sees to, kept by every visit;
* `Merger.onPath_operations` says what a batch has on one attribute, and when that is in order;
  `Merger.onPath_operations_clearAndTrack` is a batch in which it is not.
-/

namespace Outbox

/-! ## Lists in order -/

/-- The list in which an operation travels. -/
def Operation.lane (op : Operation) : Nat :=
  if op.isUpload then 0 else if op.isTrack then 1 else 2

theorem Operation.lane_le (op : Operation) : op.lane ≤ 2 := by
  unfold lane
  split
  · exact Nat.zero_le 2
  · split <;> simp

/-- Only uploads and tracked files have lists of their own. -/
theorem Operation.lane_eq_two_iff {op : Operation} :
    op.lane = 2 ↔ (op.isUpload || op.isTrack) = false := by
  unfold lane
  cases op.isUpload <;> cases op.isTrack <;> simp

theorem Operation.isUpload_of_lane {op : Operation} (first : op.lane = 0) : op.isUpload = true := by
  unfold lane at first
  split at first
  · assumption
  · split at first <;> cases first

theorem Operation.isTrack_of_lane {op : Operation} (second : op.lane = 1) : op.isTrack = true := by
  unfold lane at second
  split at second
  · cases second
  · split at second
    · assumption
    · cases second

/-- Operations of one list are in order whatever theirs is. -/
theorem pairwise_of_lane {ops : List Operation} {n : Nat} (lane : ∀ op ∈ ops, op.lane = n) :
    ops.Pairwise fun op op' => op.lane ≤ op'.lane := by
  induction ops with
  | nil => exact .nil
  | cons op ops ih =>
    refine List.pairwise_cons.2 ⟨fun op' member => ?_, ih fun op' member => lane op' (.tail op member)⟩
    exact Nat.le_of_eq ((lane op List.mem_cons_self).trans (lane op' (.tail op member)).symm)

/-- Operations list by list. Within a list they keep their order. -/
def byLane (ops : List Operation) : List Operation :=
  ops.filter (·.lane = 0) ++ ops.filter (·.lane = 1) ++ ops.filter (·.lane = 2)

/-- Every operation has its place in one of the lists. -/
theorem perm_byLane (ops : List Operation) : (byLane ops).Perm ops := by
  rw [List.perm_iff_count]
  intro op
  have within (n : Nat) : (ops.filter (·.lane = n)).count op = if op.lane = n then ops.count op else 0 := by
    split
    · next lane => exact List.count_filter (decide_eq_true lane)
    · next other =>
      exact List.count_eq_zero.2 fun member => other (of_decide_eq_true (List.mem_filter.1 member).2)
  have lanes := op.lane_le
  rw [byLane, List.count_append, List.count_append, within, within, within]
  obtain lane | lane | lane : op.lane = 0 ∨ op.lane = 1 ∨ op.lane = 2 := by omega
  all_goals simp [lane]

theorem mem_byLane {op : Operation} {ops : List Operation} : op ∈ byLane ops ↔ op ∈ ops :=
  (perm_byLane ops).mem_iff

/-- The lists of a bundle after operations were added, each with those of its lane. -/
theorem Bundle.lists_pushAll (b : Bundle) (ops : List Operation) :
    (b.pushAll ops).uploads = b.uploads ++ ops.filter (·.lane = 0) ∧
      (b.pushAll ops).tracks = b.tracks ++ ops.filter (·.lane = 1) ∧
      (b.pushAll ops).others = b.others ++ ops.filter (·.lane = 2) := by
  induction ops generalizing b with
  | nil => simp [pushAll]
  | cons op ops ih =>
    obtain ⟨uploads, tracks, others⟩ := ih (b.push op)
    show ((b.push op).pushAll ops).uploads = _ ∧ ((b.push op).pushAll ops).tracks = _ ∧
      ((b.push op).pushAll ops).others = _
    rw [uploads, tracks, others]
    unfold push Operation.lane
    by_cases upload : op.isUpload = true
    · simp [upload]
    · by_cases track : op.isTrack = true <;> simp [upload, track]

/-- The lists of a bundle are the lanes of what was put into it. -/
theorem Bundle.operations_pushAll (ops : List Operation) :
    (Bundle.empty.pushAll ops).operations = byLane ops := by
  obtain ⟨uploads, tracks, others⟩ := Bundle.empty.lists_pushAll ops
  rw [operations, uploads, tracks, others]
  rfl

theorem onPath_byLane (path : AttributePath) (ops : List Operation) :
    onPath path (byLane ops) = byLane (onPath path ops) := by
  simp only [onPath, byLane, List.filter_append, List.filter_filter, Bool.and_comm]

/-- Lists in order come out as they are. -/
theorem byLane_eq_self_iff {ops : List Operation} :
    byLane ops = ops ↔ ops.Pairwise fun op op' => op.lane ≤ op'.lane := by
  constructor
  · intro same
    rw [← same]
    have within (n : Nat) : (ops.filter (·.lane = n)).Pairwise fun op op' => op.lane ≤ op'.lane :=
      pairwise_of_lane (n := n) fun op member => of_decide_eq_true (List.mem_filter.1 member).2
    simp only [byLane, List.pairwise_append, within, true_and, List.mem_append, List.mem_filter,
      decide_eq_true_eq]
    constructor <;> intro op member op' member' <;> omega
  · intro ordered
    induction ops with
    | nil => rfl
    | cons op ops ih =>
      obtain ⟨first, ordered⟩ := List.pairwise_cons.1 ordered
      have rest := ih ordered
      -- no list before that of the first operation has anything
      have none_before {n : Nat} (before : n < op.lane) : ops.filter (·.lane = n) = [] := by
        rw [List.filter_eq_nil_iff]
        intro op' member
        have := first op' member
        simp only [decide_eq_true_eq]
        omega
      have lanes := op.lane_le
      rw [byLane] at rest
      match lane : op.lane with
      | 0 => simpa [byLane, lane] using rest
      | 1 => simpa [byLane, lane, none_before (n := 0) (by omega)] using rest
      | 2 =>
        simpa [byLane, lane, none_before (n := 0) (by omega), none_before (n := 1) (by omega)]
          using rest
      | n + 3 => omega

/-- What travels in the last list comes last. -/
theorem byLane_append_last {more : List Operation} (last : ∀ op ∈ more, op.lane = 2)
    (ops : List Operation) : byLane (ops ++ more) = byLane ops ++ more := by
  have none_of {n : Nat} (early : n < 2) : more.filter (·.lane = n) = [] := by
    rw [List.filter_eq_nil_iff]
    intro op member
    have := last op member
    simp only [decide_eq_true_eq]
    omega
  have all : more.filter (·.lane = 2) = more :=
    List.filter_eq_self.2 fun op member => decide_eq_true (last op member)
  simp only [byLane, List.filter_append, none_of (n := 0) (by decide), none_of (n := 1) (by decide), all,
    List.append_nil, List.append_assoc]

/-! ## One attribute -/

namespace Pending

/-- What is pending on an attribute is about that attribute, and what comes behind a deletion waits in
the last list. -/
structure Aligned (path : AttributePath) (p : Pending) : Prop where
  here : ∀ op ∈ p.operations, op.path = path
  barrier : p.deletes ≠ [] → ∀ op ∈ p.changes, op.lane = 2

theorem aligned_empty (path : AttributePath) : empty.Aligned path :=
  ⟨fun _ member => absurd member List.not_mem_nil, fun pending => absurd rfl pending⟩

/-- Operations in one of the three parts are pending. -/
theorem mem_operations {p : Pending} {op : Operation} :
    op ∈ p.operations ↔ op ∈ p.deletes ∨ op ∈ p.changes ∨ op ∈ p.configs := by
  simp [operations]

/-- Every visit keeps what is pending aligned. -/
theorem Aligned.visited {path : AttributePath} {p p' : Pending} {op : Operation}
    {v : Except MergeError Visit} (hop : op.path = path) (h : p.Aligned path)
    (hv : Visited p op p' v) : p'.Aligned path := by
  cases hv with
  | copy | waits => exact h
  | rejected => exact ⟨h.here, h.barrier⟩
  | changed _ _ early combined =>
    constructor
    · intro op' member
      rcases mem_operations.1 member with delete | change | config
      · exact h.here op' (mem_operations.2 (.inl delete))
      · rcases combined.mem change with old | rfl | ⟨old, member, same, -⟩
        · exact h.here op' (mem_operations.2 (.inr (.inl old)))
        · exact hop
        · exact same ▸ h.here old (mem_operations.2 (.inr (.inl member)))
      · exact h.here op' (mem_operations.2 (.inr (.inr config)))
    · intro pending op' change
      have last : op.lane = 2 := by
        rw [Operation.lane_eq_two_iff, ← Bool.not_eq_true]
        exact fun file => pending (early file)
      rcases combined.mem change with old | rfl | ⟨old, member, -, upload, track, -⟩
      · exact h.barrier pending op' old
      · exact last
      · have := h.barrier pending old member
        rw [Operation.lane_eq_two_iff] at this ⊢
        rw [← upload, ← track, this]
  | configured =>
    refine ⟨?_, h.barrier⟩
    intro op' member
    rcases mem_operations.1 member with delete | change | config
    · exact h.here op' (mem_operations.2 (.inl delete))
    · exact h.here op' (mem_operations.2 (.inr (.inl change)))
    · rw [List.mem_singleton.1 config, hop]
  | deleted =>
    refine ⟨?_, fun _ op' change => absurd change List.not_mem_nil⟩
    intro op' member
    rcases mem_of_deletesAfter (by simpa [operations] using member) with old | rfl
    · exact h.here op' old
    · exact hop

/-- A configuration travels in the last list. -/
theorem Sound.lane_configs {p : Pending} (sound : p.Sound) : ∀ op ∈ p.configs, op.lane = 2 := by
  intro op member
  obtain ⟨t, -, role⟩ := sound.configured op member
  obtain ⟨⟨min, max, unit, config⟩, -⟩ := Mutation.role_configure role
  simp [Operation.lane, Operation.isUpload, Operation.isTrack, config]

/-- A deletion and the configuration never stand in the way of an order list by list: it depends on
the changes between them alone. -/
theorem Aligned.ordered_iff {path : AttributePath} {p : Pending} (h : p.Aligned path) (sound : p.Sound) :
    p.operations.Pairwise (fun op op' => op.lane ≤ op'.lane) ↔
      p.changes.Pairwise fun op op' => op.lane ≤ op'.lane := by
  have configs := sound.lane_configs
  have deletes : p.deletes.Pairwise fun op op' => op.lane ≤ op'.lane := by
    have shape := sound.deletion
    generalize p.deletes = deletes at shape
    cases shape with
    | none => exact List.Pairwise.nil
    | alone => exact List.pairwise_singleton ..
    | @behind first op _ delete =>
      have last : op.lane = 2 := by
        simp [Operation.lane, Operation.isUpload, Operation.isTrack, delete]
      rw [List.pairwise_pair, last]
      exact first.lane_le
  have order_configs := pairwise_of_lane configs
  rw [operations, List.pairwise_append, List.pairwise_append]
  constructor
  · rintro ⟨⟨-, changes, -⟩, -⟩
    exact changes
  · intro changes
    refine ⟨⟨deletes, changes, ?_⟩, order_configs, ?_⟩
    · intro op member op' member'
      rw [h.barrier (List.ne_nil_of_mem member) op' member']
      exact op.lane_le
    · intro op _ op' member'
      rw [configs op' member']
      exact op.lane_le

end Pending

/-! ## The whole batch -/

namespace Merger

theorem sorted_takeAll (ops : List Operation) : (empty.takeAll ops).table.Sorted := by
  suffices from_any : ∀ m : Merger, m.table.Sorted → (m.takeAll ops).table.Sorted from
    from_any empty PendingTable.sorted_nil
  induction ops with
  | nil => exact fun m sorted => sorted
  | cons op ops ih =>
    intro m sorted
    refine ih (m.process op).1 ?_
    rw [table_process]
    exact sorted.set _ _

theorem aligned_takeAll (ops : List Operation) (path : AttributePath) :
    ((empty.takeAll ops).pending path).Aligned path :=
  takeAll_induction (P := fun path p => p.Aligned path) Pending.aligned_empty
    (fun here _ aligned visited => aligned.visited here visited) ops path

/-- What comes from an attribute, among what comes from all attributes in order. -/
theorem onPath_flatMap {table : PendingTable} (sorted : table.Sorted) {f : Pending → List Operation}
    (nothing : f .empty = []) (here : ∀ entry ∈ table, ∀ op ∈ f entry.2, op.path = entry.1)
    (path : AttributePath) :
    onPath path (table.flatMap fun entry => f entry.2) = f ((table.get? path).getD .empty) := by
  induction table with
  | nil => exact nothing.symm
  | cons entry rest ih =>
    obtain ⟨first, sorted'⟩ := List.pairwise_cons.1 sorted
    have ih := ih sorted' fun e member => here e (List.mem_cons_of_mem _ member)
    rw [List.flatMap_cons, onPath_append, ih]
    by_cases same : entry.1 = path
    · subst same
      have all : onPath entry.1 (f entry.2) = f entry.2 :=
        List.filter_eq_self.2 fun op member =>
          decide_eq_true (here entry List.mem_cons_self op member)
      have absent : PendingTable.get? rest entry.1 = none := by
        cases found : PendingTable.get? rest entry.1 with
        | none => rfl
        | some q =>
          exact absurd rfl (AttributePath.ne_of_order (first (entry.1, q) (PendingTable.mem_of_get? found)))
      rw [all, absent, PendingTable.get?_head, Option.getD_none, Option.getD_some, nothing, List.append_nil]
    · have none_here : onPath path (f entry.2) = [] := by
        rw [onPath, List.filter_eq_nil_iff]
        intro op member
        rw [here entry List.mem_cons_self op member]
        simpa using same
      rw [none_here, PendingTable.get?, if_neg same, List.nil_append]

/-- Every entry of a sorted table is what the table has at its path. -/
theorem get?_of_mem {table : PendingTable} (sorted : table.Sorted)
    {entry : AttributePath × Pending} (member : entry ∈ table) :
    table.get? entry.1 = some entry.2 := by
  induction table with
  | nil => exact absurd member List.not_mem_nil
  | cons first rest ih =>
    obtain ⟨before, sorted'⟩ := List.pairwise_cons.1 sorted
    rcases List.mem_cons.1 member with rfl | later
    · exact PendingTable.get?_head entry rest
    · rw [PendingTable.get?, if_neg (AttributePath.ne_of_order (before entry later)), ih sorted' later]

/-- The operations of all attributes of a batch, one attribute after the other. -/
def operations (m : Merger) : List Operation :=
  m.table.flatMap fun entry => entry.2.operations

/-- What is pending at a path is about that attribute. -/
theorem path_of_mem {m : Merger} (sorted : m.table.Sorted)
    (aligned : ∀ path, (m.pending path).Aligned path) :
    ∀ entry ∈ m.table, ∀ op ∈ entry.2.operations, op.path = entry.1 := by
  intro entry member op pending
  refine (aligned entry.1).here op ?_
  rwa [Merger.pending, get?_of_mem sorted member]

/-- The operations of a batch on one attribute are those that are pending there. -/
theorem onPath_pending {m : Merger} (sorted : m.table.Sorted)
    (aligned : ∀ path, (m.pending path).Aligned path) (path : AttributePath) :
    onPath path m.operations = (m.pending path).operations :=
  onPath_flatMap (f := Pending.operations) sorted rfl (path_of_mem sorted aligned) path

/-- What a batch has on one attribute is what is pending there, list by list. -/
theorem onPath_finish {m : Merger} (sorted : m.table.Sorted)
    (aligned : ∀ path, (m.pending path).Aligned path) (errors : List Inconsistency)
    (path : AttributePath) :
    onPath path (m.finish errors).operations = byLane (m.pending path).operations := by
  show onPath path (Bundle.empty.pushAll m.operations).operations = _
  rw [Bundle.operations_pushAll, onPath_byLane, onPath_pending sorted aligned]

/-- **What a batch has on one attribute** is what is pending there, list by list. That is the order of
the pending operations exactly if among the changes of the attribute no upload comes behind anything
else, and no tracked files behind anything but uploads. -/
theorem onPath_operations (ops : List Operation) (errors : List Inconsistency)
    (path : AttributePath) :
    let m := empty.takeAll ops
    onPath path (m.finish errors).operations = byLane (m.pending path).operations ∧
      (onPath path (m.finish errors).operations = (m.pending path).operations ↔
        (m.pending path).changes.Pairwise fun op op' => op.lane ≤ op'.lane) := by
  intro m
  have lanes := onPath_finish (sorted_takeAll ops) (aligned_takeAll ops) errors path
  refine ⟨lanes, ?_⟩
  rw [lanes, byLane_eq_self_iff]
  exact (aligned_takeAll ops path).ordered_iff (sound_empty.takeAll ops path)

/-- An artifact is cleared, and then a file is tracked in it. -/
def clearAndTrack : List Operation :=
  [⟨.single "a", .clearArtifact⟩, ⟨.single "a", .trackFiles "p" [⟨"f", none⟩]⟩]

/-- Both operations join a batch, but it clears the artifact after the file was tracked. -/
theorem onPath_operations_clearAndTrack :
    ∃ m, empty.processAll clearAndTrack = (m, .ok 2) ∧
      (m.pending (.single "a")).operations = clearAndTrack ∧
      onPath (.single "a") (m.finish []).operations = clearAndTrack.reverse ∧
      clearAndTrack.reverse ≠ clearAndTrack :=
  ⟨_, rfl, by decide, by decide, by decide⟩

end Merger

end Outbox
