import Outbox.Proofs.Queue.Segmentation

/-!
# What a queue keeps

A queue removes a segment when all its records are acknowledged, which it sees from where the next segment
begins. It looks for such segments when a version is acknowledged that was not acknowledged before, and
when it is opened; and then it finds all of them. An acknowledgement of an older version is ignored, so
segments that were sealed since the last one stay.

* `Queue.Pruned.mem_iff` tells the segments that are left from the others by the one behind each;
* `Queue.exists_holding` finds the segment of a version;
* `StoredQueue.Trims` is what pruning does on the disk, and `StoredQueue.Covers` what it never does;
* `StoredQueue.trims_run` is the result, and `StoredQueue.not_trims_oldAck` what is not so.
-/

namespace Outbox

variable {α : Type} [Storable α]

/-! ## Lists of segments -/

namespace Queue

variable {ids ids' : List Nat} {lastAck : Nat}

/-- **The segments that are left** are those with none behind them that begins with the first version which
is not acknowledged, or before. -/
theorem Pruned.mem_iff (h : Pruned ids' lastAck) (ordered : ids.Pairwise (· < ·)) (suffix : ids' <:+ ids)
    (covers : ∃ id ∈ ids', id ≤ lastAck + 1) {id : Nat} :
    id ∈ ids' ↔ id ∈ ids ∧ ∀ next ∈ ids, id < next → lastAck + 1 < next := by
  obtain ⟨front, rfl⟩ := suffix
  obtain ⟨-, kept, before⟩ := List.pairwise_append.1 ordered
  obtain ⟨covering, listed, covers⟩ := covers
  cases ids' with
  | nil => cases listed
  | cons first rest =>
    have least := (List.pairwise_cons.1 kept).1
    have begins : first ≤ lastAck + 1 := by
      rcases List.mem_cons.1 listed with rfl | behind
      · exact covers
      · exact Nat.le_trans (Nat.le_of_lt (least covering behind)) covers
    constructor
    · refine fun member => ⟨List.mem_append_right front member, fun next inside later => ?_⟩
      -- what is behind a segment that is left comes behind the first of these
      have behind : next ∈ rest := by
        rcases List.mem_append.1 inside with removed | left
        · have := before next removed id member
          omega
        · refine (List.mem_cons.1 left).resolve_left fun same => ?_
          rcases List.mem_cons.1 member with rfl | member
          · omega
          · have := least id member
            omega
      cases rest with
      | nil => cases behind
      | cons second others =>
        have stop := h second others rfl
        rcases List.mem_cons.1 behind with rfl | others
        · exact stop
        · exact Nat.lt_trans stop ((List.pairwise_cons.1 (List.pairwise_cons.1 kept).2).1 next others)
    · rintro ⟨member, apart⟩
      refine (List.mem_append.1 member).resolve_left fun removed => ?_
      have := apart first (by simp) (before id removed first List.mem_cons_self)
      omega

/-- A version from the first segment on is in some segment. -/
theorem exists_holding {top version : Nat} (ordered : ids.Pairwise (· < ·))
    (covers : ∃ id ∈ ids, id ≤ version) (below : version < top) :
    ∃ id ∈ ids, id ≤ version ∧ version < endOf ids top id := by
  induction ids with
  | nil =>
    obtain ⟨id, member, -⟩ := covers
    cases member
  | cons first rest ih =>
    obtain ⟨least, ordered'⟩ := List.pairwise_cons.1 ordered
    by_cases later : ∃ id ∈ rest, id ≤ version
    · obtain ⟨id, member, begun, ends⟩ := ih ordered' later
      have same : endOf (first :: rest) top id = endOf rest top id :=
        endOf_cons (Nat.le_of_lt (least id member))
      exact ⟨id, List.mem_cons_of_mem _ member, begun, same.symm ▸ ends⟩
    · -- the first segment is the last one that begins in time
      have beyond : ∀ id ∈ rest, version < id := fun id member =>
        Nat.lt_of_not_le fun begun => later ⟨id, member, begun⟩
      obtain ⟨id, member, begun⟩ := covers
      have first_begun : first ≤ version := by
        rcases List.mem_cons.1 member with rfl | member
        · exact begun
        · exact absurd begun (Nat.not_le_of_lt (beyond id member))
      refine ⟨first, List.mem_cons_self, first_begun, ?_⟩
      have behind : (first :: rest).filter (first < ·) = rest := by
        rw [List.filter_cons_of_neg (by simp), List.filter_eq_self]
        simpa using least
      cases rest with
      | nil => rwa [endOf_eq_top (by simp)]
      | cons second others =>
        rw [endOf_eq_head behind]
        exact beyond second List.mem_cons_self

end Queue

/-! ## The disk -/

namespace StoredQueue

instance (s : StoredQueue) (id : Nat) (name : String) : Decidable (s.OnDisk id name) :=
  inferInstanceAs (Decidable (_ ∧ _))

/-- Every version that was put and is not acknowledged is in some segment. -/
def Covers (α : Type) [Storable α] (s : StoredQueue) : Prop :=
  ∀ version, s.queue.lastAck < version → version ≤ s.queue.lastPut →
    ∃ id name, s.OnDisk id name ∧ ∃ rs : List (Record α), s.segment? id = some (framed rs) ∧
      version ∈ rs.map Record.version

/-- What pruning leaves of the segments of a queue. -/
structure Trims (α : Type) [Storable α] (s s' : StoredQueue) : Prop where
  /-- The segment that is written is the last one. -/
  written : ∃ w, s'.queue.writer = some w ∧ s'.OnDisk w.id (segmentName w.id) ∧
    ∀ id name, s.OnDisk id name → id ≤ w.id
  /-- Of the others, just those are removed with a segment behind them that begins with the first version
  which is not acknowledged, or before. -/
  onDisk : ∀ id name, s'.OnDisk id name ↔ s.OnDisk id name ∧
    ∀ next name', s.OnDisk next name' → id < next → s'.queue.lastAck + 1 < next
  /-- A segment that is left and has another one behind it holds a record that is not acknowledged. -/
  holds : ∀ id name next name', s'.OnDisk id name → s'.OnDisk next name' → id < next →
    ∃ rs : List (Record α), s'.segment? id = some (framed rs) ∧ ∃ r ∈ rs, s'.queue.lastAck < r.version

variable {s : StoredQueue} {ids : List Nat} {records : List (Record α)}

theorem Arranged.mem_versions (h : s.Arranged ids records) {id version : Nat} (member : id ∈ ids)
    (begun : id ≤ version) (ends : version < endOf ids (records.length + 1) id) :
    version ∈ (Queue.recordsOf ids records id).map Record.version := by
  rw [h.versions member, List.mem_range'_1]
  omega

theorem Arranged.covers (h : s.Arranged ids records) : s.Covers α := by
  intro version above below
  obtain ⟨n, intact⟩ := Queue.Arranged.intact h
  obtain ⟨first, listed, first_le⟩ := intact.covers
  have acked : s.queue.lastAck + 1 ≤ version := above
  rw [Queue.Arranged.lastPut h] at below
  obtain ⟨id, member, begun, ends⟩ := Queue.exists_holding intact.ordered
    ⟨first, listed, Nat.le_trans first_le acked⟩ (Nat.lt_add_one_of_le below)
  exact ⟨id, segmentName id, h.onDisk_iff.2 ⟨member, rfl⟩, _, h.segment?_eq member,
    h.mem_versions member begun ends⟩

/-- **Pruning is exact.** -/
theorem Pruned.trims {s' : StoredQueue} {ids' : List Nat} (h : s.Pruned s' ids ids')
    (before : s.Arranged ids records) (after : s'.Arranged ids' records) : s.Trims α s' := by
  have ordered := Queue.Arranged.ordered before
  obtain ⟨n, intact⟩ := Queue.Arranged.intact after
  have left {id : Nat} : id ∈ ids' ↔ id ∈ ids ∧ ∀ next ∈ ids, id < next → s'.queue.lastAck + 1 < next :=
    h.stop.mem_iff ordered h.suffix intact.covers
  obtain ⟨w, hw⟩ := Option.isSome_iff_exists.1 (Queue.Arranged.isOpen after)
  obtain ⟨listed, greatest, -⟩ := Queue.Arranged.writer after hw
  refine ⟨⟨w, hw, after.onDisk_iff.2 ⟨listed, rfl⟩, ?_⟩, ?_, ?_⟩
  · intro id name found
    obtain ⟨member, -⟩ := before.onDisk_iff.1 found
    refine Nat.le_of_not_lt fun later => ?_
    have apart := (left.1 listed).2 id member later
    have still : id ∈ ids' := left.2 ⟨member, fun next inside behind =>
      (left.1 listed).2 next inside (Nat.lt_trans later behind)⟩
    exact absurd (greatest id still) (Nat.not_le_of_lt later)
  · intro id name
    rw [after.onDisk_iff, before.onDisk_iff, left]
    constructor
    · rintro ⟨⟨member, apart⟩, rfl⟩
      exact ⟨⟨member, rfl⟩, fun next name' found => apart next (before.onDisk_iff.1 found).1⟩
    · rintro ⟨⟨member, rfl⟩, apart⟩
      exact ⟨⟨member, fun next inside => apart next _ (before.onDisk_iff.2 ⟨inside, rfl⟩)⟩, rfl⟩
  · intro id name next name' found found' later
    obtain ⟨member, -⟩ := after.onDisk_iff.1 found
    obtain ⟨inside, -⟩ := after.onDisk_iff.1 found'
    obtain ⟨ends_in, behind⟩ := endOf_mem inside later (records.length + 1)
    have apart := (left.1 member).2 _ (h.suffix.subset ends_in) behind
    have versions := after.mem_versions member (Nat.le_max_left id (s'.queue.lastAck + 1))
      (Nat.max_lt.2 ⟨behind, apart⟩)
    obtain ⟨r, held, version⟩ := List.mem_map.1 versions
    exact ⟨_, after.segment?_eq member, r, held, by omega⟩

/-! ## Runs -/

/-- **Pruning is exact in every run.** A queue begins in a new folder with one segment; records are put, read
and acknowledged up to the last one, and the queue is dropped and opened again with any limits. What is
acknowledged never becomes less, and what is not is in some segment. Whenever a version is acknowledged
that was not before, and whenever the queue is opened again, just those segments are left that have to be.
The acknowledgement of any other version does nothing. -/
theorem trims_run {d : Disk} {folder : Place} (free : d.Free folder) (maxSize : Nat) :
    ∃ d' q, Queue.openIn d folder maxSize = (d', .ok q) ∧
      (∀ id name, OnDisk ⟨d', q⟩ id name ↔ id = 1 ∧ name = segmentName 1) ∧
      ∀ (calls : List (Call α)) (c : Call α), calls.length + 1 < UInt64.size →
        AdmitsAll ⟨d', q⟩ calls → (run ⟨d', q⟩ calls).Admits c →
          let s := run ⟨d', q⟩ calls
          let s' := (s.call c).1
          s'.queue.folder = folder ∧ s.queue.lastAck ≤ s'.queue.lastAck ∧ s'.Covers α ∧
            (s.Prunes c → (s.call c).2 = .done ∧ s.Trims α s') ∧
            ∀ version, c = .ack version → version ≤ s.queue.lastAck → s.call c = (s, .done) := by
  obtain ⟨d', q, opened, first, place, -⟩ := Queue.arranged_create (α := α) free maxSize
  refine ⟨d', q, opened, fun id name => ?_, fun calls c few admitted last => ?_⟩
  · have start : StoredQueue.Arranged ⟨d', q⟩ [1] ([] : List (Record α)) := first
    rw [start.onDisk_iff, List.mem_singleton]
    constructor
    · rintro ⟨rfl, rfl⟩
      exact ⟨rfl, rfl⟩
    · rintro ⟨rfl, rfl⟩
      exact ⟨rfl, rfl⟩
  · intro s s'
    obtain ⟨ids, records, arranged, length, folder⟩ :=
      Arranged.run (s := ⟨d', q⟩) first (by simpa using Nat.lt_of_succ_lt few) admitted
    simp only [List.length_nil, Nat.zero_add] at length
    obtain ⟨ids', records', arranged', changed, -⟩ := arranged_call arranged last (by omega)
    refine ⟨changed.folder.trans (folder.trans place), changed.lastAck_le, arranged'.covers, ?_, ?_⟩
    · intro prunes
      obtain ⟨ids'', done, after, pruned, -⟩ := arranged.pruned last prunes
      exact ⟨done, pruned.trims arranged after⟩
    · rintro version rfl old
      exact call_ack_old old

/-- Three segments of one record each, of which the reader has not seen any. -/
def threeSegments : List (Call String) :=
  [.put 5 "a", .put 6 "b", .put 7 "c"]

/-- Two of them are removed by one acknowledgement, ahead of the reader. -/
theorem trims_threeSegments : ∃ d q, Queue.openIn Disk.empty ["queue"] 1 = (d, .ok q) ∧
    segmentIds (run ⟨d, q⟩ threeSegments) = [1, 2, 3] ∧
      segmentIds ((run ⟨d, q⟩ threeSegments).call (.ack 2 : Call String)).1 = [3] ∧
      Trims String (run ⟨d, q⟩ threeSegments) ((run ⟨d, q⟩ threeSegments).call (.ack 2 : Call String)).1 := by
  have facts : (Queue.openIn Disk.empty ["queue"] 1).2.toOption.map (fun q =>
      let s : StoredQueue := ⟨(Queue.openIn Disk.empty ["queue"] 1).1, q⟩
      (decide (s.AdmitsAll threeSegments), (s.run threeSegments).queue.lastPut,
        (s.run threeSegments).queue.lastAck, (s.run threeSegments).segmentIds,
        ((s.run threeSegments).call (.ack 2 : Call String)).1.segmentIds)) =
      some (true, 3, 0, [1, 2, 3], [3]) := by decide +kernel
  obtain ⟨d, q, opened, -, pruning⟩ := trims_run (α := String) free_empty 1
  simp only [opened, Except.toOption, Option.map_some, Option.some.injEq, Prod.mk.injEq,
    decide_eq_true_eq] at facts
  obtain ⟨admitted, lastPut, lastAck, segments, left⟩ := facts
  have last : (run ⟨d, q⟩ threeSegments).Admits (.ack 2 : Call String) := by
    show 2 ≤ (run ⟨d, q⟩ threeSegments).queue.lastPut
    omega
  have prunes : (run ⟨d, q⟩ threeSegments).Prunes (.ack 2 : Call String) := by
    show (run ⟨d, q⟩ threeSegments).queue.lastAck < 2
    omega
  obtain ⟨-, -, -, exactly, -⟩ := pruning threeSegments (.ack 2) (by decide) admitted last
  exact ⟨d, q, opened, segments, left, (exactly prunes).2⟩

/-- The second record is acknowledged while its segment is written, and then sealed by the third one. -/
def sealedBehindAck : List (Call String) :=
  [.put 5 "a", .put 6 "b", .ack 2, .put 7 "c"]

/-- **An older version is acknowledged, and a segment stays** that is done with. -/
theorem not_trims_oldAck : ∃ d q, Queue.openIn Disk.empty ["queue"] 1 = (d, .ok q) ∧
    AdmitsAll ⟨d, q⟩ (sealedBehindAck ++ [.ack 1]) ∧
      ((run ⟨d, q⟩ sealedBehindAck).call (.ack 1 : Call String)).2 = .done ∧
      ((run ⟨d, q⟩ sealedBehindAck).call (.ack 1 : Call String)).1.queue.lastAck = 2 ∧
      ((run ⟨d, q⟩ sealedBehindAck).call (.ack 1 : Call String)).1.OnDisk 2 "data-2.log" ∧
      ((run ⟨d, q⟩ sealedBehindAck).call (.ack 1 : Call String)).1.OnDisk 3 "data-3.log" ∧
      ¬ Trims String (run ⟨d, q⟩ sealedBehindAck)
        ((run ⟨d, q⟩ sealedBehindAck).call (.ack 1 : Call String)).1 := by
  have facts : (Queue.openIn Disk.empty ["queue"] 1).2.toOption.map (fun q =>
      let s : StoredQueue := ⟨(Queue.openIn Disk.empty ["queue"] 1).1, q⟩
      let s' := ((s.run sealedBehindAck).call (.ack 1 : Call String))
      (decide (s.AdmitsAll (sealedBehindAck ++ [.ack 1])), s'.2, s'.1.queue.lastAck,
        decide (s'.1.OnDisk 2 "data-2.log"), decide (s'.1.OnDisk 3 "data-3.log"),
        decide ((s.run sealedBehindAck).OnDisk 3 "data-3.log"))) =
      some (true, .done, 2, true, true, true) := by decide +kernel
  rcases opens : Queue.openIn Disk.empty ["queue"] 1 with ⟨d, e | q⟩
  · rw [opens] at facts
    cases facts
  · simp only [opens, Except.toOption, Option.map_some, Option.some.injEq, Prod.mk.injEq,
      decide_eq_true_eq] at facts
    obtain ⟨admitted, done, lastAck, second, third, third_before⟩ := facts
    refine ⟨d, q, rfl, admitted, done, lastAck, second, third, fun trims => ?_⟩
    have apart := ((trims.onDisk 2 "data-2.log").1 second).2 3 "data-3.log" third_before (by decide)
    rw [lastAck] at apart
    exact absurd apart (by decide)

end StoredQueue

end Outbox
