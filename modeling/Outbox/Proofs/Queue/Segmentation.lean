import Outbox.Proofs.Queue.Arrangement

/-!
# The segments of a queue

The records of a queue are spread over its segments without a gap, and the table of the queue names just
the segments that lie in its folder. A segment grows up to the limit, which only a record that is alone in
its segment may exceed. All of this holds of an open queue at any time.

* `StoredQueue.OnDisk` and `StoredQueue.segment?` are what lies on the disk and what it holds;
* `Queue.Roomy` says that the segments keep to the limit, and `Queue.Roomy.changed` that every call keeps
  it so;
* `StoredQueue.LaidOut` is all that is said of the segments, and `StoredQueue.laidOut_run` the result.
-/

namespace Outbox

variable {α : Type} [Storable α]

/-! ## Lists of records -/

/-- The records of a segment have the versions from its own to the next one's. -/
theorem Filed.versions {records : List (Record α)} (h : Filed records) {a b : Nat} (one : 1 ≤ a)
    (top : b ≤ records.length + 1) :
    (between records a b).map Record.version = List.range' a (b - a) := by
  induction n : b - a generalizing a with
  | zero =>
    rw [between_eq_nil (by omega)]
    rfl
  | succ n ih =>
    obtain ⟨r, found⟩ : ∃ r, records[a - 1]? = some r := ⟨_, List.getElem?_eq_getElem (by omega)⟩
    have version := h.numbered found
    rw [between_eq_cons one (by omega) found, List.map_cons, ih (by omega) (by omega), List.range'_succ,
      version, Nat.sub_add_cancel one]

theorem Filed.version_between {records : List (Record α)} (h : Filed records) {a b : Nat} (one : 1 ≤ a)
    (top : b ≤ records.length + 1) {r : Record α} (member : r ∈ between records a b) :
    a ≤ r.version ∧ r.version < b := by
  have listed := List.mem_map_of_mem (f := Record.version) member
  rw [h.versions one top, List.mem_range'_1] at listed
  omega

/-- The length of records is that of their frames. -/
theorem length_framed (rs : List (Record α)) :
    (framed rs).length = (rs.map fun r => Frame.size r.payload).foldr (· + ·) 0 := by
  induction rs with
  | nil => rfl
  | cons r rs ih =>
    rw [framed_cons, List.length_append, Frame.length_write, ih, List.map_cons, List.foldr_cons]

/-! ## The limit -/

namespace Queue

/-- The records of a segment. -/
def recordsOf (ids : List Nat) (records : List (Record α)) (id : Nat) : List (Record α) :=
  between records id (endOf ids (records.length + 1) id)

/-- No segment is longer than the limit, but for one record. -/
def Roomy (limit : Nat) (ids : List Nat) (records : List (Record α)) : Prop :=
  ∀ id ∈ ids, (framed (recordsOf ids records id)).length ≤ limit ∨ (recordsOf ids records id).length = 1

variable {ids : List Nat} {records : List (Record α)} {limit : Nat}

theorem Roomy.suffix (h : Roomy limit ids records) (ordered : ids.Pairwise (· < ·)) {ids' : List Nat}
    (suffix : ids' <:+ ids) : Roomy limit ids' records := by
  intro id member
  rw [recordsOf, endOf_suffix ordered suffix member]
  exact h id (suffix.subset member)

/-- A segment that was just begun is empty. -/
theorem Roomy.begun (h : Roomy limit ids records) (later : ∀ id ∈ ids, id < records.length + 1) :
    Roomy limit (ids ++ [records.length + 1]) records := by
  intro id member
  rcases List.mem_append.1 member with old | new
  · rw [recordsOf, endOf_concat (later id old)]
    exact h id old
  · obtain rfl := List.mem_singleton.1 new
    have none_in : recordsOf (ids ++ [records.length + 1]) records (records.length + 1) = [] := by
      refine between_eq_nil (endOf_le ?_)
      exact List.forall_mem_append.2 ⟨fun id old => Nat.le_of_lt (later id old), by simp⟩
    rw [none_in]
    exact .inl (Nat.zero_le _)

omit [Storable α] in
/-- A record more is in the last segment. -/
theorem recordsOf_last {last : Nat} (greatest : ∀ id ∈ ids, id ≤ last)
    (top : last ≤ records.length + 1) (r : Record α) :
    recordsOf ids (records ++ [r]) last = recordsOf ids records last ++ [r] := by
  have length : (records ++ [r]).length = records.length + [r].length := List.length_append
  rw [recordsOf, recordsOf, endOf_eq_top greatest, endOf_eq_top greatest, length, between_top top]

/-- A record more keeps to the limit, where the last segment has room for it or nothing in it. -/
theorem Roomy.append (h : Roomy limit ids records) (tops : ∀ id ∈ ids, id ≤ records.length + 1) {last : Nat}
    (listed : last ∈ ids) (greatest : ∀ id ∈ ids, id ≤ last) {r : Record α}
    (room : (framed (recordsOf ids records last)).length = 0 ∨
      (framed (recordsOf ids records last)).length + Frame.size r.payload ≤ limit) :
    Roomy limit ids (records ++ [r]) := by
  intro id member
  by_cases same : id = last
  · subst same
    rw [recordsOf_last greatest (tops id member), framed_append, List.length_append, List.length_append]
    rcases room with empty | room
    · have := length_le_length_framed (recordsOf ids records id)
      refine .inr ?_
      rw [List.length_singleton]
      omega
    · refine .inl ?_
      rwa [framed_cons, framed_nil, List.append_nil, Frame.length_write]
  · have before : id < last := Nat.lt_of_le_of_ne (greatest id member) same
    have within : endOf ids (records.length + 1) id ≤ records.length + 1 := endOf_le tops
    have ends : endOf ids ((records ++ [r]).length + 1) id = endOf ids (records.length + 1) id :=
      endOf_of_later listed before _
    rw [recordsOf, ends, between_of_le within]
    exact h id member

variable {d : Disk} {q : Queue}

/-- What an arranged queue holds in its segments. -/
theorem Arranged.stored (h : q.Arranged d ids records) {id : Nat} (member : id ∈ ids) :
    ∃ file, d.lookup? (q.folder ++ [segmentName id]) = some (.file file) ∧
      q.text d file = framed (recordsOf ids records id) := by
  obtain ⟨n, intact⟩ := h.intact
  exact intact.stored id member

/-- The writer is at the end of the last segment. -/
theorem Arranged.writer (h : q.Arranged d ids records) {w : SegmentWriter} (hw : q.writer = some w) :
    w.id ∈ ids ∧ (∀ id ∈ ids, id ≤ w.id) ∧
      d.lookup? (q.folder ++ [segmentName w.id]) = some (.file w.file) ∧
      w.size = (framed (recordsOf ids records w.id)).length := by
  obtain ⟨n, intact⟩ := h.intact
  obtain ⟨listed, greatest, place, size⟩ := intact.writer w hw
  obtain ⟨file, found, text⟩ := h.stored listed
  obtain rfl : file = w.file := by
    have place' : d.lookup? (q.folder ++ [segmentName w.id]) = some (.file w.file) := place
    rw [found] at place'
    simpa using place'
  exact ⟨listed, greatest, place, size.trans (congrArg List.length text)⟩

theorem Arranged.ordered (h : q.Arranged d ids records) : ids.Pairwise (· < ·) := by
  obtain ⟨n, intact⟩ := h.intact
  exact intact.ordered

theorem Arranged.top (h : q.Arranged d ids records) : ∀ id ∈ ids, id ≤ records.length + 1 := by
  obtain ⟨n, intact⟩ := h.intact
  exact intact.le_top

/-- Where there is room, the segments keep to the limit before anything is put. -/
theorem Roomy.room (h : Roomy q.maxSize ids records) (arranged : q.Arranged d ids records)
    {w : SegmentWriter} (hw : q.writer = some w) {bytes : Nat} {ids' : List Nat}
    (room : q.Room w ids (records.length + 1) bytes ids') (ordered : ids'.Pairwise (· < ·)) :
    Roomy q.maxSize ids' records ∧ ∃ last ∈ ids', (∀ id ∈ ids', id ≤ last) ∧
      last ≤ records.length + 1 ∧ ((framed (recordsOf ids' records last)).length = 0 ∨
        (framed (recordsOf ids' records last)).length + bytes ≤ q.maxSize) := by
  obtain ⟨listed, greatest, -, size⟩ := arranged.writer hw
  cases room with
  | left fits =>
    rw [size] at fits
    exact ⟨h, w.id, listed, greatest, arranged.top w.id listed, fits⟩
  | begun =>
    have later : ∀ id ∈ ids, id < records.length + 1 := fun id member =>
      (List.pairwise_append.1 ordered).2.2 id member _ (List.mem_singleton_self _)
    have below : ∀ id ∈ ids ++ [records.length + 1], id ≤ records.length + 1 :=
      List.forall_mem_append.2 ⟨fun id member => Nat.le_of_lt (later id member), by simp⟩
    refine ⟨h.begun later, records.length + 1, by simp, below, Nat.le_refl _, .inl ?_⟩
    rw [recordsOf, between_eq_nil (endOf_le below), framed_nil, List.length_nil]

/-- **Every call keeps the segments to the limit.** -/
theorem Roomy.changed {s s' : StoredQueue} {ids' : List Nat} {records' : List (Record α)}
    (h : Roomy s.queue.maxSize ids records) (arranged : s.Arranged ids records)
    (arranged' : s'.Arranged ids' records') (changed : s.Changed s' ids records ids' records') :
    Roomy s.queue.maxSize ids' records' := by
  have ordered' := Queue.Arranged.ordered arranged'
  cases changed with
  | kept => exact h
  | put hw room =>
    obtain ⟨roomy, last, listed, greatest, top, left⟩ := h.room arranged hw room ordered'
    exact roomy.append (fun id member => Nat.le_trans (greatest id member) top) listed greatest left
  | refused hw room => exact (h.room arranged hw room ordered').1
  | pruned pruned => exact h.suffix (Queue.Arranged.ordered arranged) pruned.suffix

end Queue

/-! ## The disk -/

namespace StoredQueue

/-- The segments that the table of a queue names. -/
def segmentIds (s : StoredQueue) : List Nat :=
  s.queue.segments.map Prod.fst

/-- A file of this name is there, and is the segment of this version by its name. -/
def OnDisk (s : StoredQueue) (id : Nat) (name : String) : Prop :=
  segmentId? name = some id ∧ (s.disk.file? (s.queue.folder ++ [name])).isSome

/-- What a segment holds, with what the writer holds back. -/
def segment? (s : StoredQueue) (id : Nat) : Option (List UInt8) :=
  (s.disk.file? (s.queue.folder ++ [segmentName id])).map fun file => s.queue.text s.disk file

/-- What is said of the segments of a queue with this limit. -/
structure LaidOut (α : Type) [Storable α] (s : StoredQueue) (limit : Nat) : Prop where
  /-- The table is in order, and names just the segments that are on the disk. -/
  ordered : s.segmentIds.Pairwise (· < ·)
  named : ∀ id name, (id, name) ∈ s.queue.segments ↔ s.OnDisk id name
  /-- A segment holds records from its own version on, one after the other and up to the next segment at
  most. It is as long as their frames, and no longer than the limit unless it holds one record. -/
  held : ∀ id ∈ s.segmentIds, ∃ rs : List (Record α), s.segment? id = some (framed rs) ∧
    rs.map Record.version = List.range' id rs.length ∧
    (∀ next ∈ s.segmentIds, id < next → id + rs.length ≤ next) ∧
    (framed rs).length = (rs.map fun r => Frame.size r.payload).foldr (· + ·) 0 ∧
    ((framed rs).length ≤ limit ∨ rs.length = 1)
  /-- The last segment is the one that is written, and the writer knows its length. -/
  written : ∃ w, s.queue.writer = some w ∧ w.id ∈ s.segmentIds ∧ (∀ id ∈ s.segmentIds, id ≤ w.id) ∧
    s.disk.file? (s.queue.folder ++ [segmentName w.id]) = some w.file ∧
    (s.segment? w.id).map List.length = some w.size
  read : s.queue.readId ∈ s.segmentIds
  acked : s.queue.lastAck ≤ s.queue.lastPut

variable {s : StoredQueue} {ids : List Nat} {records : List (Record α)}

theorem Arranged.segmentIds_eq (h : s.Arranged ids records) : s.segmentIds = ids := by
  rw [segmentIds, Queue.Arranged.table h, List.map_map]
  exact List.map_id ids

theorem Arranged.segment?_eq (h : s.Arranged ids records) {id : Nat} (member : id ∈ ids) :
    s.segment? id = some (framed (Queue.recordsOf ids records id)) := by
  obtain ⟨file, found, text⟩ := Queue.Arranged.stored h member
  rw [segment?, Disk.file?, found, Option.map_some, text]

/-- There are no other segments on the disk. -/
theorem Arranged.onDisk_iff (h : s.Arranged ids records) {id : Nat} {name : String} :
    s.OnDisk id name ↔ id ∈ ids ∧ name = segmentName id := by
  obtain ⟨n, intact⟩ := Queue.Arranged.intact h
  constructor
  · rintro ⟨named, exists_file⟩
    obtain ⟨e, found⟩ : ∃ e, s.disk.lookup? (s.queue.folder ++ [name]) = some e := by
      cases found : s.disk.lookup? (s.queue.folder ++ [name]) with
      | none => simp [Disk.file?, found] at exists_file
      | some e => exact ⟨e, rfl⟩
    obtain none_such | ⟨id', member, rfl⟩ := intact.only found
    · rw [none_such] at named
      cases named
    · rw [segmentId?_segmentName (intact.small id' member), Option.some.injEq] at named
      exact named ▸ ⟨member, rfl⟩
  · rintro ⟨member, rfl⟩
    obtain ⟨file, found, -⟩ := Queue.Arranged.stored h member
    exact ⟨segmentId?_segmentName (intact.small id member), by simp [Disk.file?, found]⟩

/-- The records of a segment have the versions up to the next one. -/
theorem Arranged.versions (h : s.Arranged ids records) {id : Nat} (member : id ∈ ids) :
    (Queue.recordsOf ids records id).map Record.version =
      List.range' id (endOf ids (records.length + 1) id - id) := by
  obtain ⟨n, intact⟩ := Queue.Arranged.intact h
  exact intact.filed.versions (intact.one_le id member) (endOf_le intact.le_top)

/-- **An arranged queue that keeps to the limit is laid out.** -/
theorem Arranged.laidOut (h : s.Arranged ids records) {limit : Nat}
    (roomy : Queue.Roomy limit ids records) : s.LaidOut α limit where
  ordered := by
    rw [h.segmentIds_eq]
    exact Queue.Arranged.ordered h
  named id name := by
    rw [h.onDisk_iff, Queue.Arranged.table h, List.mem_map]
    constructor
    · rintro ⟨id', member, same⟩
      cases same
      exact ⟨member, rfl⟩
    · rintro ⟨member, rfl⟩
      exact ⟨id, member, rfl⟩
  held id member := by
    rw [h.segmentIds_eq] at member ⊢
    have versions := h.versions member
    have length : (Queue.recordsOf ids records id).length = endOf ids (records.length + 1) id - id := by
      rw [← List.length_map Record.version, versions, List.length_range']
    refine ⟨Queue.recordsOf ids records id, h.segment?_eq member, by rw [versions, length], ?_,
      length_framed _, roomy id member⟩
    intro next listed later
    have first := le_endOf ids (Queue.Arranged.top h id member)
    have before := endOf_le_later (Queue.Arranged.ordered h) listed later (records.length + 1)
    omega
  written := by
    obtain ⟨w, hw⟩ := Option.isSome_iff_exists.1 (Queue.Arranged.isOpen h)
    obtain ⟨listed, greatest, place, size⟩ := Queue.Arranged.writer h hw
    rw [h.segmentIds_eq]
    exact ⟨w, hw, listed, greatest, by rw [Disk.file?, place], by rw [h.segment?_eq listed, size]; rfl⟩
  read := by
    rw [h.segmentIds_eq]
    exact Queue.Arranged.listed h
  acked := by
    obtain ⟨n, intact⟩ := Queue.Arranged.intact h
    rw [Queue.Arranged.lastPut h]
    exact intact.lastAck

/-- The limit does not change when the queue is opened again. -/
def SameLimit (limit : Nat) : Call α → Prop
  | .reopen maxSize => maxSize = limit
  | _ => True

/-- **A queue stays laid out**, whatever is asked. -/
theorem laidOut_of_roomy (h : s.Arranged ids records) (roomy : Queue.Roomy s.queue.maxSize ids records)
    {calls : List (Call α)} (few : records.length + calls.length < UInt64.size)
    (admitted : s.AdmitsAll calls) (same : ∀ c ∈ calls, SameLimit s.queue.maxSize c) :
    (s.run calls).LaidOut α s.queue.maxSize := by
  induction calls generalizing s ids records with
  | nil => exact h.laidOut roomy
  | cons c calls ih =>
    rw [List.length_cons] at few
    obtain ⟨ids', records', arranged, changed, limit⟩ := arranged_call h admitted.1 (by omega)
    have length := changed.length_le
    have fixed : (s.call c).1.queue.maxSize = s.queue.maxSize := by
      have keeps := same c List.mem_cons_self
      rw [limit]
      cases c with
      | reopen maxSize => exact keeps
      | _ => rfl
    have roomy' := roomy.changed h arranged changed
    rw [← fixed] at roomy' same ⊢
    exact ih arranged roomy' (by omega) admitted.2 fun c' member => same c' (List.mem_cons_of_mem c member)

/-- **The segments of a queue are laid out at any time.** A queue begins in a new folder; records are put,
read and acknowledged up to the last one, and the queue is dropped and opened again with the same limit, as
often as one likes. -/
theorem laidOut_run {d : Disk} {folder : Place} (free : d.Free folder) (limit : Nat) :
    ∃ d' q, Queue.openIn d folder limit = (d', .ok q) ∧ ∀ calls : List (Call α),
      calls.length < UInt64.size → AdmitsAll ⟨d', q⟩ calls → (∀ c ∈ calls, SameLimit limit c) →
      (run ⟨d', q⟩ calls).LaidOut α limit := by
  obtain ⟨d', q, opened, arranged, -, size, -⟩ := Queue.arranged_create (α := α) free limit
  refine ⟨d', q, opened, fun calls few admitted same => ?_⟩
  have start : StoredQueue.Arranged ⟨d', q⟩ [1] ([] : List (Record α)) := arranged
  have roomy : Queue.Roomy q.maxSize [1] ([] : List (Record α)) := by
    intro id member
    have nothing : Queue.recordsOf [1] ([] : List (Record α)) id = [] := by
      simp [Queue.recordsOf, between]
    rw [nothing]
    exact .inl (Nat.zero_le _)
  subst size
  exact laidOut_of_roomy start roomy (by simpa using few) admitted same

/-- Two records in each segment, and one that is too long for a segment with the limit 80. -/
def fillThree : List (Call String) :=
  [.put 5 "x", .put 6 "y", .put 7 "z", .get, .ack 1, .reopen 80, .put 8 "w",
    .put 9 "as long as a whole segment may become, and longer", .flush]

theorem laidOut_fillThree : ∃ d q, Queue.openIn Disk.empty ["queue"] 80 = (d, .ok q) ∧
    segmentIds (run ⟨d, q⟩ fillThree) = [1, 3, 5] ∧ (run ⟨d, q⟩ fillThree).LaidOut String 80 := by
  have facts : (Queue.openIn Disk.empty ["queue"] 80).2.toOption.map (fun q =>
      let s : StoredQueue := ⟨(Queue.openIn Disk.empty ["queue"] 80).1, q⟩
      (decide (s.AdmitsAll fillThree), (s.run fillThree).segmentIds)) =
      some (true, [1, 3, 5]) := by decide +kernel
  obtain ⟨d, q, opened, laidOut⟩ := laidOut_run (α := String) free_empty 80
  simp only [opened, Except.toOption, Option.map_some, Option.some.injEq, Prod.mk.injEq,
    decide_eq_true_eq] at facts
  have same : ∀ c ∈ fillThree, SameLimit 80 c := by
    simp [fillThree, SameLimit]
  exact ⟨d, q, opened, facts.2, laidOut fillThree (by decide) facts.1 same⟩

end StoredQueue

end Outbox
