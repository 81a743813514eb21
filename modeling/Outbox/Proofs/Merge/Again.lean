import Outbox.Proofs.Merge.Building

/-!
# A batch is merged once more

The operations of a merged batch, put into a new one in the order in which they are sent, all join it and
report nothing. The new batch has the same lists, but for files that were tracked in an artifact behind an
assignment or a clear of it: sent before that, they are overwritten by it the second time.

* `ByPath` are operations attribute by attribute, which `ByPath.ext` tells apart on each attribute, and
  `groupedBy` puts operations in this order;
* `Bundle.overtaken` says on which attributes tracked files have overtaken another change;
* `Merger.processAll_again` is the result, and `Merger.processAll_again_clearAndTrack` a batch that does not
  come out the same.
-/

namespace Outbox

/-! ## Attribute by attribute -/

/-- Operations attribute by attribute, in the order of the paths. -/
def ByPath (ops : List Operation) : Prop :=
  ops.Pairwise fun op op' => op.path = op'.path ∨ op.path.order op'.path = .lt

/-- Nothing comes behind an operation on a later path. -/
theorem ByPath.onPath_eq_nil {op : Operation} {ops : List Operation} (h : ByPath (op :: ops))
    {path : AttributePath} (before : path.order op.path = .lt) : onPath path (op :: ops) = [] := by
  rw [onPath, List.filter_eq_nil_iff]
  intro op' member
  have later : path.order op'.path = .lt := by
    rcases List.mem_cons.1 member with rfl | member
    · exact before
    · rcases (List.pairwise_cons.1 h).1 op' member with same | later
      · rwa [← same]
      · exact AttributePath.order_trans before later
  simpa using (AttributePath.ne_of_order later).symm

/-- **Operations attribute by attribute** are known from those on each. -/
theorem ByPath.ext {ops ops' : List Operation} (h : ByPath ops) (h' : ByPath ops')
    (same : ∀ path, onPath path ops = onPath path ops') : ops = ops' := by
  induction ops generalizing ops' with
  | nil =>
    cases ops' with
    | nil => rfl
    | cons op' ops' =>
      have here := same op'.path
      rw [onPath_cons_same rfl] at here
      cases here
  | cons op ops ih =>
    cases ops' with
    | nil =>
      have here := same op.path
      rw [onPath_cons_same rfl] at here
      cases here
    | cons op' ops' =>
      -- if the first paths differed, the smaller one would be in one list only
      have head : op.path = op'.path := by
        cases order : op.path.order op'.path with
        | eq => exact AttributePath.order_eq_eq_iff.1 order
        | lt =>
          have here := same op.path
          rw [onPath_cons_same rfl, h'.onPath_eq_nil order] at here
          cases here
        | gt =>
          have here := same op'.path
          rw [onPath_cons_same rfl, h.onPath_eq_nil (AttributePath.order_of_gt order)] at here
          cases here
      have here := same op.path
      rw [onPath_cons_same rfl, onPath_cons_same head.symm, List.cons.injEq] at here
      obtain ⟨rfl, rest⟩ := here
      have tail : ops = ops' := by
        refine ih (List.pairwise_cons.1 h).2 (List.pairwise_cons.1 h').2 fun path => ?_
        by_cases there : op.path = path
        · rw [← there, rest]
        · have other := same path
          rwa [onPath_cons_other there, onPath_cons_other there] at other
      rw [tail]

theorem onPath_filter (path : AttributePath) (keeps : Operation → Bool) (ops : List Operation) :
    onPath path (ops.filter keeps) = (onPath path ops).filter keeps := by
  simp only [onPath, List.filter_filter, Bool.and_comm]

/-- The operations of one attribute after the other, as the paths come. -/
def groupedBy (paths : List AttributePath) (ops : List Operation) : List Operation :=
  paths.flatMap fun path => onPath path ops

section groupedBy

variable {paths : List AttributePath} {ops : List Operation}

theorem onPath_onPath (path path' : AttributePath) (ops : List Operation) :
    onPath path (onPath path' ops) = if path' = path then onPath path ops else [] := by
  split
  · next same =>
    rw [same, onPath, onPath, List.filter_filter]
    simp only [Bool.and_self]
  · next other =>
    rw [onPath, List.filter_eq_nil_iff]
    intro op member
    simpa [path_of_mem_onPath member] using other

/-- Paths that come in order have a group each. -/
theorem onPath_groupedBy (sorted : paths.Pairwise fun path path' => path.order path' = .lt)
    (path : AttributePath) (ops : List Operation) :
    onPath path (groupedBy paths ops) = if path ∈ paths then onPath path ops else [] := by
  induction paths with
  | nil => rfl
  | cons first paths ih =>
    obtain ⟨before, sorted⟩ := List.pairwise_cons.1 sorted
    rw [groupedBy, List.flatMap_cons, onPath_append, onPath_onPath]
    refine (congrArg (_ ++ ·) (ih sorted)).trans ?_
    by_cases here : first = path
    · subst here
      have absent : first ∉ paths := fun member => absurd rfl (AttributePath.ne_of_order (before first member))
      rw [if_pos rfl, if_neg absent, if_pos List.mem_cons_self, List.append_nil]
    · simp [here, Ne.symm here]

theorem byPath_groupedBy (sorted : paths.Pairwise fun path path' => path.order path' = .lt)
    (ops : List Operation) : ByPath (groupedBy paths ops) := by
  refine List.pairwise_flatMap.2 ⟨fun path _ => ?_, ?_⟩
  · exact List.pairwise_iff_forall_sublist.2 fun both => .inl
      ((path_of_mem_onPath (both.subset (by simp))).trans (path_of_mem_onPath (both.subset (by simp))).symm)
  · refine sorted.imp fun before op member op' member' => .inr ?_
    rwa [path_of_mem_onPath member, path_of_mem_onPath member']

/-- Paths of all operations have all of them in their groups. -/
theorem onPath_groupedBy_of_among (sorted : paths.Pairwise fun path path' => path.order path' = .lt)
    (among : ∀ op ∈ ops, op.path ∈ paths) (path : AttributePath) :
    onPath path (groupedBy paths ops) = onPath path ops := by
  rw [onPath_groupedBy sorted]
  split
  · rfl
  · next absent =>
    rw [eq_comm, onPath, List.filter_eq_nil_iff]
    intro op member here
    exact absent (of_decide_eq_true here ▸ among op member)

/-- Operations attribute by attribute are grouped already. -/
theorem ByPath.groupedBy_eq (h : ByPath ops)
    (sorted : paths.Pairwise fun path path' => path.order path' = .lt) (among : ∀ op ∈ ops, op.path ∈ paths) :
    groupedBy paths ops = ops :=
  (byPath_groupedBy sorted ops).ext h (onPath_groupedBy_of_among sorted among)

theorem perm_groupedBy (sorted : paths.Pairwise fun path path' => path.order path' = .lt)
    (among : ∀ op ∈ ops, op.path ∈ paths) : (groupedBy paths ops).Perm ops :=
  perm_of_onPath (onPath_groupedBy_of_among sorted among)

end groupedBy

theorem filter_byLane (ops : List Operation) {n : Nat} (lane : n ≤ 2) :
    (byLane ops).filter (·.lane = n) = ops.filter (·.lane = n) := by
  have within (k : Nat) : (ops.filter (·.lane = k)).filter (·.lane = n) =
      if k = n then ops.filter (·.lane = n) else [] := by
    split
    · next same => rw [same, List.filter_filter]; simp
    · next other =>
      rw [List.filter_eq_nil_iff]
      intro op member
      have := of_decide_eq_true (List.mem_filter.1 member).2
      simpa [this] using other
  rw [byLane, List.filter_append, List.filter_append, within, within, within]
  obtain rfl | rfl | rfl : n = 0 ∨ n = 1 ∨ n = 2 := by omega
  all_goals simp

/-! ## Overtaken changes -/

/-- Whether tracked files of an attribute, if there are any, have overtaken another change of it. That
one travels in the last list, and no deletion is there which the files were tracked before. -/
def Bundle.overtaken (b : Bundle) (path : AttributePath) : Bool :=
  let later := onPath path b.others
  !later.isEmpty && later.all fun op => op.mutation ≠ .delete

namespace Pending

/-- Files that are sent have overtaken a change exactly if something is sent behind them and no deletion
is. -/
theorem overtakes_iff {p : Pending} (sound : p.Sound) (settled : p.Settled) {op : Operation}
    (sent : op ∈ p.operations) (track : op.lane = 1) :
    p.Overtakes ↔ p.operations.filter (·.lane = 2) ≠ [] ∧
      ∀ later ∈ p.operations.filter (·.lane = 2), later.mutation ≠ .delete := by
  constructor
  · rintro ⟨no_deletes, first, tracked, changes, last, track⟩
    have inside : tracked ∈ p.changes := by simp [changes]
    rw [sound.operations_of_track no_deletes inside track]
    obtain ⟨t, c, -, hr⟩ := sound.typed first (by simp [changes])
    have later : p.changes.filter (·.lane = 2) = [first] := by simp [changes, last, track]
    rw [later]
    refine ⟨by simp, fun op member delete => ?_⟩
    rw [List.mem_singleton.1 member] at delete
    rw [delete] at hr
    cases hr
  · rintro ⟨something, no_deletion⟩
    have no_deletes : p.deletes = [] := by
      have shape := sound.deletion
      have inside : ∀ op ∈ p.deletes, op.mutation = .delete → False := by
        intro op member delete
        refine no_deletion op (List.mem_filter.2 ⟨mem_operations.2 (.inl member), ?_⟩) delete
        simp [Operation.lane, Operation.isUpload, Operation.isTrack, delete]
      generalize p.deletes = deletes at shape inside
      cases shape with
      | none => rfl
      | alone delete => exact (inside _ (by simp) delete).elim
      | behind _ delete => exact (inside _ (by simp) delete).elim
    have change : op ∈ p.changes := by
      rcases mem_operations.1 sent with delete | change | config
      · rw [no_deletes] at delete
        cases delete
      · exact change
      · have := sound.lane_configs op config
        rw [track] at this
        cases this
    have built := settled.built .artifact (by simp [conflicts, sound.artifact_of_track change track])
    rcases built.artifact with short | parts
    · rw [sound.operations_of_track no_deletes change track] at something
      obtain ⟨only, single⟩ := List.length_eq_one_iff.1
        (Nat.le_antisymm short (List.length_pos_of_mem change))
      rw [single] at change something
      rw [← List.mem_singleton.1 change] at something
      simp [track] at something
    · exact ⟨no_deletes, parts⟩

end Pending

/-! ## The whole batch -/

namespace Merger

/-- The lists of a batch. -/
theorem lists_finish (m : Merger) (errors : List Inconsistency) :
    (m.finish errors).uploads = m.operations.filter (·.lane = 0) ∧
      (m.finish errors).tracks = m.operations.filter (·.lane = 1) ∧
      (m.finish errors).others = m.operations.filter (·.lane = 2) :=
  Bundle.empty.lists_pushAll m.operations

theorem byPath_operations {m : Merger} (sorted : m.table.Sorted)
    (aligned : ∀ path, (m.pending path).Aligned path) : ByPath m.operations := by
  have here := path_of_mem sorted aligned
  refine List.pairwise_flatMap.2 ⟨fun entry member => ?_, ?_⟩
  · exact List.pairwise_iff_forall_sublist.2 fun {op op'} both => .inl
      ((here entry member op (both.subset (by simp))).trans
        (here entry member op' (both.subset (by simp))).symm)
  · refine List.Pairwise.imp_of_mem ?_ sorted
    intro entry entry' member member' before op pending op' pending'
    rw [here entry member op pending, here entry' member' op' pending']
    exact .inr before

/-- What is put into an empty batch. -/
structure Fresh (m : Merger) : Prop where
  sorted : m.table.Sorted
  sound : m.Sound
  aligned : ∀ path, (m.pending path).Aligned path
  settled : ∀ path, (m.pending path).Settled

theorem fresh_processAll (ops : List Operation) : (empty.processAll ops).1.Fresh := by
  obtain ⟨taken, state⟩ := processAll_takeAll empty ops
  rw [state]
  exact ⟨sorted_takeAll taken, sound_empty.takeAll taken, aligned_takeAll taken,
    settled_takeAll taken⟩

/-- What is pending on one attribute the second time, list by list. -/
structure Repeats (p q : Pending) : Prop where
  quiet : q.errors = []
  uploads : q.operations.filter (·.lane = 0) = p.operations.filter (·.lane = 0)
  others : q.operations.filter (·.lane = 2) = p.operations.filter (·.lane = 2)
  lost : p.Overtakes → q.operations.filter (·.lane = 1) = []
  tracks : ¬ p.Overtakes → q.operations.filter (·.lane = 1) = p.operations.filter (·.lane = 1)

/-- On one attribute operations are merged once more with this result. -/
theorem repeats_joinAll {path : AttributePath} {p : Pending} (sound : p.Sound)
    (aligned : p.Aligned path) (settled : p.Settled) :
    ∃ q, Pending.empty.joinAll (byLane p.operations) = some q ∧ Repeats p q := by
  obtain ⟨q, taken, quiet, same⟩ := Pending.joinAll_byLane sound aligned settled
  refine ⟨q, taken, ?_⟩
  rcases same with ⟨ordered, same⟩ | ⟨overtakes, same⟩
  · exact ⟨quiet, by rw [same, filter_byLane _ (by decide)], by rw [same, filter_byLane _ (by decide)],
      fun overtakes => absurd overtakes ordered, fun _ => by rw [same, filter_byLane _ (by decide)]⟩
  · obtain ⟨no_deletes, first, tracked, changes, last, track⟩ := id overtakes
    have inside : tracked ∈ p.changes := by simp [changes]
    have all := sound.operations_of_track no_deletes inside track
    rw [all, changes] at same
    have left : q.operations = [first] := by simpa [last, track] using same
    refine ⟨quiet, ?_, ?_, fun _ => ?_, fun ordered => absurd overtakes ordered⟩
    · simp [left, all, changes, last, track]
    · simp [left, all, changes, last, track]
    · simp [left, last]

/-- The operations of a batch all join a new one, which repeats it on every attribute. -/
theorem joins_again {m : Merger} (fresh : m.Fresh) (errors : List Inconsistency) :
    let ops := (m.finish errors).operations
    ∃ m', empty.processAll ops = (m', .ok ops.length) ∧
      ∀ path, Repeats (m.pending path) (m'.pending path) := by
  intro ops
  have each (path : AttributePath) : ∃ q, Pending.empty.joinAll (onPath path ops) = some q ∧
      Repeats (m.pending path) q := by
    rw [onPath_finish fresh.sorted fresh.aligned]
    exact repeats_joinAll (fresh.sound path) (fresh.aligned path) (fresh.settled path)
  obtain ⟨m', all⟩ := joined_processAll (m := empty) fun path =>
    let ⟨q, taken, _⟩ := each path
    ⟨q, taken⟩
  refine ⟨m', all, fun path => ?_⟩
  obtain ⟨q, taken, repeats⟩ := each path
  have here := (processAll_joined all).pending path
  obtain rfl : q = m'.pending path := Option.some.inj (taken.symm.trans here)
  exact repeats

/-- Where files are sent, the batch tells whether they have overtaken another change. -/
theorem Fresh.overtaken_iff {m : Merger} (fresh : m.Fresh) (errors : List Inconsistency)
    {path : AttributePath} {op : Operation} (sent : op ∈ (m.pending path).operations)
    (track : op.lane = 1) :
    (m.finish errors).overtaken path = true ↔ (m.pending path).Overtakes := by
  rw [Pending.overtakes_iff (fresh.sound path) (fresh.settled path) sent track]
  unfold Bundle.overtaken
  rw [(lists_finish m errors).2.2, onPath_filter, onPath_pending fresh.sorted fresh.aligned]
  simp only [Bool.and_eq_true, Bool.not_eq_true', List.isEmpty_eq_false_iff, List.all_eq_true,
    decide_eq_true_eq]

/-- What is sent of two batches is compared attribute by attribute. -/
theorem Fresh.filter_ext {m m' : Merger} (fresh : m.Fresh) (fresh' : m'.Fresh) {f f' : Operation → Bool}
    (same : ∀ path, (m'.pending path).operations.filter f' = (m.pending path).operations.filter f) :
    m'.operations.filter f' = m.operations.filter f := by
  have ordered := byPath_operations fresh.sorted fresh.aligned
  have ordered' := byPath_operations fresh'.sorted fresh'.aligned
  refine ByPath.ext (ordered'.filter f') (ordered.filter f) fun path => ?_
  rw [onPath_filter, onPath_filter, onPath_pending fresh.sorted fresh.aligned,
    onPath_pending fresh'.sorted fresh'.aligned, same path]

/-- Those tracked files come out again that have overtaken nothing. -/
theorem Fresh.tracks_again {m m' : Merger} (fresh : m.Fresh) (fresh' : m'.Fresh)
    (repeats : ∀ path, Repeats (m.pending path) (m'.pending path)) (errors : List Inconsistency) :
    (m'.finish []).tracks =
      (m.finish errors).tracks.filter fun op => !(m.finish errors).overtaken op.path := by
  rw [(lists_finish m errors).2.1, (lists_finish m' []).2.1, List.filter_filter]
  refine fresh.filter_ext fresh' fun path => ?_
  rw [← List.filter_filter]
  have told (op : Operation) (member : op ∈ (m.pending path).operations.filter (·.lane = 1)) :
      (m.finish errors).overtaken op.path = true ↔ (m.pending path).Overtakes := by
    obtain ⟨sent, track⟩ := List.mem_filter.1 member
    rw [(fresh.aligned path).here op sent]
    exact fresh.overtaken_iff errors sent (of_decide_eq_true track)
  by_cases overtakes : (m.pending path).Overtakes
  · rw [(repeats path).lost overtakes, eq_comm, List.filter_eq_nil_iff]
    intro op member
    rw [(told op member).2 overtakes]
    decide
  · rw [(repeats path).tracks overtakes, eq_comm, List.filter_eq_self]
    intro op member
    rw [Bool.eq_false_iff.2 fun told_so => overtakes ((told op member).1 told_so)]
    rfl

/-- **A batch is merged once more.** The operations of a batch, put into a new one in the order in which
they are sent, all join it and report nothing. Uploads and other operations come out the same, and so do
tracked files, but for those that have overtaken another change of their attribute. -/
theorem processAll_again {ops : List Operation} {m : Merger} {n : Nat}
    (merged : empty.processAll ops = (m, .ok n)) (errors : List Inconsistency) :
    let b := m.finish errors
    ∃ m', empty.processAll b.operations = (m', .ok b.operations.length) ∧
      (m'.finish []).errors = [] ∧
      (m'.finish []).uploads = b.uploads ∧
      (m'.finish []).others = b.others ∧
      (m'.finish []).tracks = b.tracks.filter (fun op => !b.overtaken op.path) ∧
      ((m'.finish []).tracks = b.tracks ↔ ∀ op ∈ b.tracks, b.overtaken op.path = false) := by
  intro b
  have fresh : m.Fresh := by
    have taken := fresh_processAll ops
    rwa [merged] at taken
  obtain ⟨m', all, repeats⟩ := joins_again fresh errors
  have fresh' : m'.Fresh := by
    have taken := fresh_processAll b.operations
    rwa [all] at taken
  obtain ⟨uploads, -, others⟩ := lists_finish m errors
  obtain ⟨uploads', -, others'⟩ := lists_finish m' []
  have kept := fresh.tracks_again fresh' repeats errors
  refine ⟨m', all, ?_, ?_, ?_, kept, ?_⟩
  · show [] ++ _ = []
    rw [List.nil_append, List.flatMap_eq_nil_iff]
    intro entry member
    have := (repeats entry.1).quiet
    rwa [Merger.pending, get?_of_mem fresh'.sorted member] at this
  · rw [uploads, uploads']
    exact fresh.filter_ext fresh' fun path => (repeats path).uploads
  · rw [others, others']
    exact fresh.filter_ext fresh' fun path => (repeats path).others
  · rw [kept, List.filter_eq_self]
    simp only [Bool.not_eq_true', b]

/-- Files of a set are deleted and uploaded, and files are tracked in an artifact that is deleted. -/
def filesAndTracks : List Operation :=
  let a := AttributePath.single "a"
  let b := AttributePath.single "b"
  [⟨b, .deleteFiles ["f"]⟩, ⟨a, .trackFiles "p" [⟨"f", none⟩]⟩, ⟨b, .uploadFileSet ["g"] false⟩,
    ⟨a, .delete⟩, ⟨a, .assign (.bool true)⟩]

/-- The files are tracked in front of a deletion, so nothing is lost. -/
theorem processAll_again_filesAndTracks :
    ∃ m m', empty.processAll filesAndTracks = (m, .ok 5) ∧
      empty.processAll (m.finish []).operations = (m', .ok (m.finish []).operations.length) ∧
      (m.finish []).operations ≠ filesAndTracks ∧ (m.finish []).tracks.length = 1 ∧
      (m'.finish []).tracks = (m.finish []).tracks := by
  have first : empty.processAll filesAndTracks = (_, .ok 5) := rfl
  obtain ⟨m', all, -, -, -, -, same⟩ := processAll_again first []
  exact ⟨_, m', rfl, all, by decide, by decide, same.2 (by decide)⟩

/-- The file that was tracked behind the clear is sent before it, and is lost the second time. -/
theorem processAll_again_clearAndTrack :
    ∃ m m', empty.processAll clearAndTrack = (m, .ok 2) ∧
      empty.processAll (m.finish []).operations = (m', .ok 2) ∧
      (m.finish []).tracks.length = 1 ∧ (m'.finish []).tracks = [] :=
  ⟨_, _, rfl, rfl, by decide, by decide⟩

end Merger

end Outbox
