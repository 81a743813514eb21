import Outbox.Proofs.Queue.Segmentation
import Outbox.Proofs.Queue.Several

/-!
# Records that were acknowledged

A get leaves out what was read since the queue was opened, and not what was acknowledged: acknowledging
leaves the reader where it is, unless the segment in which it is goes away. So a record that was acknowledged
ahead of the reader is given all the same as long as its segment is there.

* `SegmentReader.seekIn_sized` is what a reader does among records of which some may be undecodable;
* `Queue.Seated` with the reader as it is says that the reader is at the end of some record, and
  `StoredQueue.seated_call` that every call keeps this;
* `StoredQueue.Readable` is a queue in which everything can be decoded, and `StoredQueue.readable_call` keeps
  it; there `Queue.Gave.version_eq` tells exactly which record comes next;
* `StoredQueue.gives_run` is the result.
-/

namespace Outbox

variable {α : Type} [Storable α]

/-! ## Among records -/

/-- **A reader uses up whole records**, whether they can be decoded or not, and what it finds is one of them. -/
theorem SegmentReader.seekIn_sized {rs : List (Record α)} (sized : ∀ r ∈ rs, r.Sized) {w : Window}
    {content : List UInt8} {k : Nat} (h : w.At content k) (ahead : content.drop k = framed rs)
    (r : SegmentReader) (above : Nat) :
    ∃ r' reached k' j, r.seekIn (α := α) above w = (r', reached) ∧ r'.file = r.file ∧ r'.At content k' ∧
      content.drop k' = framed (rs.drop j) ∧ j ≤ rs.length ∧
      ∀ found size, reached = .record found size → ∃ x ∈ rs, found.version = x.version := by
  induction rs generalizing r w k with
  | nil =>
    obtain ⟨k', h', behind⟩ := h.skipFrame
    have ended : Frame.next w.bytes = (.finished, []) := by rw [h.bytes, ahead]; rfl
    refine ⟨_, _, k', 0, seekIn_finished ended above, rfl, at_advance h' r 0, ?_, Nat.le_refl _, ?_⟩
    · rw [behind, ahead]
      rfl
    · rintro found size ⟨⟩
  | cons record rest ih =>
    obtain ⟨k', h', behind⟩ := h.skipFrame
    have head := sized record List.mem_cons_self
    have frame : Frame.next w.bytes = (.payload record.payload, framed rest) := by
      have := next_framed head.fits rest []
      rw [List.append_nil, List.append_nil] at this
      rw [h.bytes, ahead, this]
    have ahead' : content.drop k' = framed rest := by rw [behind, ← h.bytes, frame]
    cases parsed : Record.parse? (α := α) record.payload with
    | none =>
      refine ⟨_, _, k', 1, seekIn_undecodable frame parsed above, rfl, at_advance h' r _, ahead',
        Nat.le_add_left 1 _, ?_⟩
      rintro found size ⟨⟩
    | some found =>
      have version := Record.version_of_parse?_payload head.version_lt parsed
      rw [seekIn_payload frame parsed]
      by_cases old : found.version ≤ above
      · obtain ⟨r', reached, k'', j, seek, file, at_k, left, bound, among⟩ :=
          ih (fun x member => sized x (List.mem_cons_of_mem _ member)) h' ahead'
            (r.advance w.skipFrame (Frame.size record.payload))
        refine ⟨r', reached, k'', j + 1, by rw [if_pos old, seek], file, at_k, left,
          Nat.succ_le_succ bound, fun x size is => ?_⟩
        obtain ⟨y, member, same⟩ := among x size is
        exact ⟨y, List.mem_cons_of_mem _ member, same⟩
      · refine ⟨_, _, k', 1, if_neg old, rfl, at_advance h' r _, ahead', Nat.le_add_left 1 _, ?_⟩
        rintro _ size ⟨⟩
        exact ⟨record, List.mem_cons_self, version⟩

/-- A stretch without its first records. -/
theorem drop_between {β : Type} {items : List β} {a : Nat} (one : 1 ≤ a) (b j : Nat) :
    (between items a b).drop j = between items (a + j) b := by
  rw [between, List.drop_drop, between]
  congr 1
  omega

theorem Filed.le_version {records : List (Record α)} (h : Filed records) {a b : Nat} (one : 1 ≤ a)
    (top : b ≤ records.length + 1) {r : Record α} (member : r ∈ between records a b) : a ≤ r.version := by
  have listed := List.mem_map_of_mem (f := Record.version) member
  rw [h.versions one top] at listed
  exact (List.mem_range'_1.1 listed).1

namespace Queue

variable {d : Disk} {q : Queue} {ids : List Nat} {records : List (Record α)}

/-! ## The reader as it is -/

/-- A reader that is moved to another place of the records is in order. -/
theorem Seated.moved (h : q.Seated id d ids records) {readId m : Nat} {reader : Option SegmentReader}
    (reading : Reading d { q with readId := readId, reader := reader, lastRead := records.length } ids records m)
    (lastRead : Nat) :
    Seated id d { q with readId := readId, reader := reader, lastRead := lastRead } ids records where
  intact := by
    obtain ⟨n, intact⟩ := h.intact
    have inside := Nat.le_trans reading.last (endOf_le intact.le_top)
    exact ⟨records.length, intact.reread (Nat.le_refl _) reading (.inl (Nat.le_of_succ_le_succ inside))⟩
  isOpen := h.isOpen

/-- **The reader of a queue looks for the next record in its segment.** It stays in order, and a record that it
finds is in that segment. -/
theorem Seated.seek (h : q.Seated id d ids records) (nothing : ∀ file, q.held file = []) :
    ∃ r r' reached, q.currentReader d = .ok r ∧ r.seek (α := α) d q.lastRead = (r', reached) ∧
      (∀ lastRead, Seated id d { q with reader := some r', lastRead := lastRead } ids records) ∧
      q.readId ∈ ids ∧ ∀ found size, reached = .record found size → q.readId ≤ found.version := by
  obtain ⟨n, intact⟩ := h.intact
  obtain ⟨m, reading, -⟩ := intact.reading
  obtain ⟨r, file, k, current, place, opened, at_k, ahead⟩ := currentReader_eq intact reading
  have text : q.text d file = d.read file := text_eq_read nothing d file
  have ahead : (d.read file).drop k =
      framed (between records (m + 1) (endOf ids (records.length + 1) q.readId)) := text ▸ ahead
  have top : endOf ids (records.length + 1) q.readId ≤ records.length + 1 := endOf_le intact.le_top
  have last : m + 1 ≤ endOf ids (records.length + 1) q.readId := reading.last
  have first : q.readId ≤ m + 1 := reading.first
  have listed : q.readId ∈ ids := reading.listed
  have seek : r.seek (α := α) d q.lastRead = r.seekIn q.lastRead (r.window d file) := by
    rw [SegmentReader.seek, opened]
  obtain ⟨r', reached, k', j, found, file', at_k', left, within, among⟩ := SegmentReader.seekIn_sized
    (fun x member => intact.filed.sized x (mem_of_mem_between member)) at_k ahead r q.lastRead
  rw [drop_between (Nat.le_add_left 1 m)] at left
  rw [length_between top] at within
  refine ⟨r, r', reached, current, seek.trans found, fun lastRead => ?_, listed, fun x size is => ?_⟩
  · refine h.moved (m := m + j) ⟨listed, ?_, ?_, by simp, ?_⟩ lastRead
    · exact Nat.le_trans first (by omega)
    · show m + j + 1 ≤ endOf ids (records.length + 1) q.readId
      omega
    · rintro _ ⟨⟩
      refine ⟨file, k', place, file'.trans opened, at_k', ?_⟩
      show (q.text d file).drop k' = _
      rw [text, left, Nat.add_right_comm]
  · obtain ⟨y, member, same⟩ := among x size is
    have := intact.filed.le_version (Nat.le_add_left 1 m) top member
    omega

/-- **A get leaves the reader in order**, and what it gives is in a segment that is there. -/
theorem Seated.getThrough (h : q.Seated id d ids records) (nothing : ∀ file, q.held file = [])
    (later : List Nat) (listed : ∀ id ∈ later, id ∈ ids) :
    (q.getThrough (α := α) d later).1.Seated id d ids records ∧
      q.Passed (q.getThrough (α := α) d later).1 ∧
      ∀ e, (q.getThrough (α := α) d later).2 = .ok (some e) → ∃ id ∈ ids, id ≤ e.record.version := by
  induction later generalizing q with
  | nil =>
    obtain ⟨r, r', reached, current, seek, seated, here, among⟩ := h.seek nothing
    rw [getThrough.eq_def]
    simp only [current, seek]
    cases reached with
    | failed e => exact ⟨seated q.lastRead, ⟨rfl, rfl, rfl, rfl⟩, by simp⟩
    | finished => exact ⟨seated q.lastRead, ⟨rfl, rfl, rfl, rfl⟩, by simp⟩
    | record found size =>
      refine ⟨seated found.version, ⟨rfl, rfl, rfl, rfl⟩, ?_⟩
      rintro _ ⟨⟩
      exact ⟨q.readId, here, among found size rfl⟩
  | cons next rest ih =>
    obtain ⟨r, r', reached, current, seek, seated, here, among⟩ := h.seek nothing
    rw [getThrough.eq_def]
    simp only [current, seek]
    cases reached with
    | failed e => exact ⟨seated q.lastRead, ⟨rfl, rfl, rfl, rfl⟩, by simp⟩
    | finished =>
      have inside := listed next List.mem_cons_self
      obtain ⟨n, intact⟩ := h.intact
      have one := intact.one_le next inside
      have top := intact.le_top next inside
      have moved : Seated id d { q with readId := next, reader := none } ids records :=
        h.moved (reading_start d rfl inside one top) q.lastRead
      obtain ⟨seated', passed, given⟩ := ih moved nothing fun id' member =>
        listed id' (List.mem_cons_of_mem _ member)
      exact ⟨seated', ⟨passed.folder, passed.maxSize, passed.isOpen, passed.lastAck⟩, given⟩
    | record found size =>
      refine ⟨seated found.version, ⟨rfl, rfl, rfl, rfl⟩, ?_⟩
      rintro _ ⟨⟩
      exact ⟨q.readId, here, among found size rfl⟩

theorem mem_of_mem_laterIds (h : q.Seated id d ids records) {next : Nat} (later : next ∈ q.laterIds) :
    next ∈ ids := by
  have inside := (List.mem_filter.1 later).1
  rw [h.arranged.table, List.map_map] at inside
  simpa using inside

theorem Seated.get (h : q.Seated id d ids records) :
    (q.get (α := α) d).queue.Seated id (q.get (α := α) d).disk ids records ∧
      q.Passed (q.get (α := α) d).queue ∧
      ∀ e, (q.get (α := α) d).result = .ok (some e) → ∃ id ∈ ids, id ≤ e.record.version := by
  obtain ⟨flushed, passed⟩ := h.flush
  obtain ⟨n, intact⟩ := h.intact
  have nothing := (intact_flush intact).2
  rw [flush_reseated] at nothing
  unfold Queue.get
  generalize q.flush d = o at flushed passed nothing ⊢
  obtain ⟨d₁, q₁⟩ := o
  obtain ⟨seated, passed', given⟩ := flushed.getThrough nothing q₁.laterIds fun _ => mem_of_mem_laterIds flushed
  exact ⟨seated, passed.trans passed', given⟩

theorem Seated.getUpTo (h : q.Seated id d ids records) (n : Nat) :
    (q.getUpTo (α := α) d n).queue.Seated id (q.getUpTo (α := α) d n).disk ids records := by
  induction n generalizing d q with
  | zero => exact h
  | succ n ih =>
    obtain ⟨got, -, -⟩ := h.get
    rw [Queue.getUpTo]
    generalize q.get (α := α) d = o at got ⊢
    obtain ⟨d₁, q₁, e | _ | element⟩ := o
    · exact got
    · exact got
    · exact ih got

theorem Intact.seated (h : q.Intact d ids records) (isOpen : q.writer.isSome) : q.Seated id d ids records :=
  ⟨⟨q.lastRead, h⟩, isOpen⟩

end Queue

namespace StoredQueue

variable {s : StoredQueue} {ids : List Nat} {records : List (Record α)}

/-- **Every call leaves the reader in order**, and adds one record at most. -/
theorem seated_call (h : s.queue.Seated id s.disk ids records) {c : Call α} (admitted : s.Admits c)
    (small : records.length + 1 < UInt64.size) :
    ∃ ids', ∃ records' : List (Record α),
      (s.call c).1.queue.Seated id (s.call c).1.disk ids' records' ∧ records'.length ≤ records.length + 1 := by
  cases c with
  | put now obj =>
    obtain ⟨w, hw⟩ := Option.isSome_iff_exists.1 h.isOpen
    obtain ⟨ids', -, -, stored | refused⟩ := h.put hw small
    · exact ⟨ids', _, stored, by simp⟩
    · exact ⟨ids', records, refused, Nat.le_add_right _ 1⟩
  | get => exact ⟨ids, records, h.get.1, Nat.le_add_right _ 1⟩
  | getUpTo n => exact ⟨ids, records, h.getUpTo n, Nat.le_add_right _ 1⟩
  | ack version =>
    by_cases old : version ≤ s.queue.lastAck
    · rw [call_ack_old old]
      exact ⟨ids, records, h, Nat.le_add_right _ 1⟩
    · have known : version ≤ records.length := h.arranged.lastPut ▸ admitted
      obtain ⟨ids', -, seated, -⟩ := h.ack rfl (Nat.lt_of_not_le old) known
      exact ⟨ids', records, seated, Nat.le_add_right _ 1⟩
  | flush => exact ⟨ids, records, h.flush.1, Nat.le_add_right _ 1⟩
  | close => exact admitted.elim
  | reopen maxSize =>
    obtain ⟨d', q', ids', opened, intact, isOpen, -⟩ := h.reopen maxSize
    simp only [call, opened]
    exact ⟨ids', records, intact.seated isOpen, Nat.le_add_right _ 1⟩

theorem seated_run (h : s.queue.Seated id s.disk ids records) {calls : List (Call α)}
    (few : records.length + calls.length < UInt64.size) (admitted : s.AdmitsAll calls) :
    ∃ ids', ∃ records' : List (Record α), (s.run calls).queue.Seated id (s.run calls).disk ids' records' := by
  induction calls generalizing s ids records with
  | nil => exact ⟨ids, records, h⟩
  | cons c calls ih =>
    rw [List.length_cons] at few
    obtain ⟨ids', records', seated, length⟩ := seated_call h admitted.1 (by omega)
    exact ih seated (by omega) admitted.2

/-! ## Where everything can be decoded -/

/-- A queue on a disk whose records can all be read. -/
structure Readable (s : StoredQueue) (ids : List Nat) (records : List (Record α)) : Prop where
  intact : s.queue.Intact s.disk ids records
  isOpen : s.queue.writer.isSome
  durable : ∀ r ∈ records, r.Durable

/-- What is put can be stored. -/
def Stores (s : StoredQueue) : Call α → Prop
  | .put now obj => Record.Durable ⟨obj, s.queue.lastPut + 1, now⟩
  | _ => True

/-- Whatever is put in turn can be stored. -/
def StoresAll (s : StoredQueue) : List (Call α) → Prop
  | [] => True
  | c :: calls => s.Stores c ∧ StoresAll (s.call c).1 calls

theorem Readable.get (h : s.Readable ids records) :
    ∃ d' q' result m, s.queue.get (α := α) s.disk = ⟨d', q', result⟩ ∧ Readable ⟨d', q'⟩ ids records ∧
      s.queue.Gave ids records q' result m := by
  obtain ⟨d', q', result, m, got, intact, gave⟩ := Queue.intact_get h.intact h.durable
  exact ⟨d', q', result, m, got, ⟨intact, gave.passed.isOpen.trans h.isOpen, h.durable⟩, gave⟩

theorem Readable.getUpTo (h : s.Readable ids records) (n : Nat) :
    (s.call (α := α) (.getUpTo n)).1.Readable ids records := by
  induction n generalizing s with
  | zero => exact h
  | succ n ih =>
    obtain ⟨d', q', result, m, got, readable, -⟩ := h.get
    simp only [call, after, Queue.getUpTo, got]
    obtain e | _ | element := result
    · exact readable
    · exact readable
    · exact ih readable

/-- **Every call leaves a queue readable** into which only such objects are put that can be stored. -/
theorem readable_call (h : s.Readable ids records) {c : Call α} (admitted : s.Admits c) (stores : s.Stores c) :
    ∃ ids', ∃ records' : List (Record α), (s.call c).1.Readable ids' records' := by
  cases c with
  | put now obj =>
    obtain ⟨w, hw⟩ := Option.isSome_iff_exists.1 h.isOpen
    have durable : Record.Durable ⟨obj, records.length + 1, now⟩ := h.intact.lastPut ▸ stores
    obtain ⟨d', segments, w', ids', put, -, intact⟩ := Queue.intact_put h.intact hw durable.sized
    simp only [call, after, put]
    exact ⟨ids', _, intact, rfl, List.forall_mem_append.2 ⟨h.durable, List.forall_mem_singleton.2 durable⟩⟩
  | get =>
    obtain ⟨d', q', result, m, got, readable, -⟩ := h.get
    simp only [call, after, got]
    exact ⟨ids, records, readable⟩
  | getUpTo n => exact ⟨ids, records, h.getUpTo n⟩
  | ack version =>
    have known : version ≤ records.length := h.intact.lastPut ▸ admitted
    obtain ⟨d', q', ids', acked, intact, kept⟩ := Queue.intact_ack h.intact known
    simp only [call, after, acked]
    exact ⟨ids', records, intact, by rw [kept.writer]; exact h.isOpen, h.durable⟩
  | flush =>
    obtain ⟨intact, -⟩ := Queue.intact_flush h.intact
    have isOpen := (Queue.isOpen_flush s.disk s.queue).trans h.isOpen
    exact ⟨ids, records, intact, isOpen, h.durable⟩
  | close => exact admitted.elim
  | reopen maxSize =>
    obtain ⟨d', q', ids', opened, intact, isOpen, -⟩ := (h.intact.seated h.isOpen).reopen maxSize
    simp only [call, opened]
    exact ⟨ids', records, intact, isOpen, h.durable⟩

theorem readable_run (h : s.Readable ids records) {calls : List (Call α)} (admitted : s.AdmitsAll calls)
    (stores : s.StoresAll calls) :
    ∃ ids', ∃ records' : List (Record α), (s.run calls).Readable ids' records' := by
  induction calls generalizing s ids records with
  | nil => exact ⟨ids, records, h⟩
  | cons c calls ih =>
    obtain ⟨ids', records', readable⟩ := readable_call h admitted.1 stores.1
    exact ih readable admitted.2 stores.2

/-! ## What is given -/

/-- A get gives nothing that was read since the queue was opened, and nothing whose segment is gone. A record
that was acknowledged is given only if the reader is behind it. -/
structure GivesUnread (α : Type) [Storable α] (s : StoredQueue) : Prop where
  unread : ∀ e ∈ (s.call (α := α) .get).2.given, s.queue.lastRead < e.record.version
  stored : ∀ e ∈ (s.call (α := α) .get).2.given, ∃ id name, s.OnDisk id name ∧ id ≤ e.record.version
  acked : ∀ e ∈ (s.call (α := α) .get).2.given, e.record.version ≤ s.queue.lastAck →
    s.queue.lastRead < s.queue.lastAck ∧ ∃ id name, s.OnDisk id name ∧ id ≤ s.queue.lastAck

/-- A get gives the first record that was not read since the queue was opened and whose segment is there,
acknowledged or not, and nothing if there is none. -/
def GivesNext (α : Type) [Storable α] (s : StoredQueue) : Prop :=
  ∃ first, (∃ name, s.OnDisk first name) ∧ (∀ id name, s.OnDisk id name → first ≤ id) ∧
    if max (s.queue.lastRead + 1) first ≤ s.queue.lastPut then
      ∃ e : Element α, (s.call .get).2 = .element (some e) ∧
        e.record.version = max (s.queue.lastRead + 1) first
    else (s.call (α := α) .get).2 = .element none

theorem givesUnread_of_seated (h : s.queue.Seated id s.disk ids records) : s.GivesUnread α := by
  have rises := s.rises_call (c := (.get : Call α)) trivial
  have stored : ∀ e ∈ (s.call (α := α) .get).2.given, ∃ id name, s.OnDisk id name ∧ id ≤ e.record.version := by
    intro e member
    have given : (s.queue.get (α := α) s.disk).result = .ok (some e) := by
      simp only [call, after] at member
      cases result : (s.queue.get (α := α) s.disk).result with
      | error e' => simp [result, Answer.of, Answer.given] at member
      | ok found => simpa [result, Answer.of, Answer.given, eq_comm] using member
    obtain ⟨id, listed, early⟩ := h.get.2.2 e given
    exact ⟨id, segmentName id, (Arranged.onDisk_iff h.arranged).2 ⟨listed, rfl⟩, early⟩
  refine ⟨fun e member => (rises.given e member).1, stored, fun e member acked => ?_⟩
  obtain ⟨id, name, place, early⟩ := stored e member
  exact ⟨Nat.lt_of_lt_of_le (rises.given e member).1 acked, id, name, place, Nat.le_trans early acked⟩

/-- The version that a reader comes to, in terms of the first segment. -/
theorem version_eq_of_gave {q q' : Queue} {result : Except QueueError (Option (Element α))} {m : Nat}
    (gave : q.Gave ids records q' result m) {first : Nat} (listed : first ∈ ids)
    (least : ∀ id ∈ ids, first ≤ id) : m + 1 = max (q.lastRead + 1) first := by
  obtain ⟨id, member, early⟩ := gave.listed
  have := least id member
  have := gave.reached
  rcases gave.upTo with back | before
  · omega
  · have := before first listed
    omega

theorem givesNext_of_readable (h : s.Readable ids records) : s.GivesNext α := by
  obtain ⟨first, listed, least⟩ : ∃ first ∈ ids, ∀ id ∈ ids, first ≤ id := by
    obtain ⟨id, member, -⟩ := h.intact.covers
    have ordered := h.intact.ordered
    clear h
    cases ids with
    | nil => cases member
    | cons first rest =>
      refine ⟨first, List.mem_cons_self, fun id member => ?_⟩
      rcases List.mem_cons.1 member with rfl | later
      · exact Nat.le_refl _
      · exact Nat.le_of_lt ((List.pairwise_cons.1 ordered).1 id later)
  obtain ⟨d', q', result, m, got, -, gave⟩ := h.get
  have onDisk {id : Nat} {name : String} : s.OnDisk id name ↔ id ∈ ids ∧ name = segmentName id :=
    Arranged.onDisk_iff (h.intact.arranged h.isOpen)
  refine ⟨first, ⟨_, onDisk.2 ⟨listed, rfl⟩⟩, fun id name place => least id (onDisk.1 place).1, ?_⟩
  rw [← version_eq_of_gave gave listed least, h.intact.lastPut]
  simp only [call, after, got, gave.answer, Answer.of]
  by_cases inside : m + 1 ≤ records.length
  · rw [if_pos inside, List.getElem?_eq_getElem inside]
    exact ⟨_, rfl, h.intact.filed.numbered (List.getElem?_eq_getElem inside)⟩
  · rw [if_neg inside, List.getElem?_eq_none (by omega), Option.map_none]

/-- **What a get gives depends on what was read and on which segments are left**, and not on what was
acknowledged. A queue begins in a new folder; records are put and read, any version is acknowledged that was
put, and the queue is opened again as often as one likes. Then a get gives what was not read since the queue
was opened and is in a segment that is left. Where all objects can be stored, it gives the first such record. -/
theorem gives_run {d : Disk} {folder : Place} (free : d.Free folder) (maxSize : Nat) :
    ∃ d' q, Queue.openIn d folder maxSize = (d', .ok q) ∧ ∀ calls : List (Call α),
      calls.length < UInt64.size → AdmitsAll ⟨d', q⟩ calls →
      GivesUnread α (run ⟨d', q⟩ calls) ∧ (StoresAll ⟨d', q⟩ calls → GivesNext α (run ⟨d', q⟩ calls)) := by
  obtain ⟨d₁, made, blank⟩ := free.make
  obtain ⟨d', q, ids, opened, intact, -, -, isOpen, -⟩ := Queue.intact_create (α := α) made blank maxSize
  refine ⟨d', q, opened, fun calls few admitted => ⟨?_, fun stores => ?_⟩⟩
  · obtain ⟨ids', records, seated⟩ := seated_run (s := ⟨d', q⟩) (intact.seated isOpen) (by simpa using few) admitted
    exact givesUnread_of_seated seated
  · have start : Readable ⟨d', q⟩ ids ([] : List (Record α)) := ⟨intact, isOpen, by simp⟩
    obtain ⟨ids', records, readable⟩ := readable_run start admitted stores
    exact givesNext_of_readable readable

/-- A record is acknowledged before it was read. -/
def ackAhead : List (Call String) :=
  [.put 5 "a", .put 5 "b", .ack 1]

/-- The record that was acknowledged comes next: it is in the segment that is written. -/
theorem gives_ackAhead : ∃ d q, Queue.openIn Disk.empty ["queue"] 80 = (d, .ok q) ∧
    (run ⟨d, q⟩ ackAhead).queue.lastAck = 1 ∧ (run ⟨d, q⟩ ackAhead).GivesNext String ∧
    (run ⟨d, q⟩ ackAhead).GivesUnread String := by
  have facts : (Queue.openIn Disk.empty ["queue"] 80).2.toOption.map (fun q =>
      let s : StoredQueue := ⟨(Queue.openIn Disk.empty ["queue"] 80).1, q⟩
      (decide (s.AdmitsAll ackAhead), s.queue.lastPut, (s.call (.put 5 "a")).1.queue.lastPut,
        (s.run ackAhead).queue.lastAck)) = some (true, 0, 1, 1) := by decide +kernel
  have first : Record.Durable (⟨"a", 1, 5⟩ : Record String) := ⟨by decide +kernel, by decide +kernel⟩
  have second : Record.Durable (⟨"b", 2, 5⟩ : Record String) := ⟨by decide +kernel, by decide +kernel⟩
  obtain ⟨d, q, opened, gives⟩ := gives_run (α := String) free_empty 80
  simp only [opened, Except.toOption, Option.map_some, Option.some.injEq, Prod.mk.injEq,
    decide_eq_true_eq] at facts
  obtain ⟨admitted, none_put, one_put, acked⟩ := facts
  have stores : StoresAll ⟨d, q⟩ ackAhead := by
    refine ⟨?_, ?_, trivial, trivial⟩
    · show Record.Durable ⟨"a", q.lastPut + 1, 5⟩
      rw [none_put]
      exact first
    · show Record.Durable ⟨"b", (call ⟨d, q⟩ (.put 5 "a")).1.queue.lastPut + 1, 5⟩
      rw [one_put]
      exact second
  obtain ⟨unread, next⟩ := gives ackAhead (by decide) admitted
  exact ⟨d, q, opened, acked, next stores, unread⟩

/-- The first record is acknowledged, and the next get gives it. -/
theorem gives_acknowledged : ∃ d q, Queue.openIn Disk.empty ["queue"] 80 = (d, .ok q) ∧
    answers ⟨d, q⟩ [.put 5 "a", .put 5 "b", .ack 1, .get] =
      [.version 1, .version 2, .done, .element (some (ListQueue.element ⟨"a", 1, 5⟩))] := by
  have facts : (Queue.openIn Disk.empty ["queue"] 80).2.toOption.map (fun q =>
      answers ⟨(Queue.openIn Disk.empty ["queue"] 80).1, q⟩ [.put 5 "a", .put 5 "b", .ack 1, .get]) =
      some [.version 1, .version 2, .done, .element (some (ListQueue.element ⟨"a", 1, 5⟩))] := by
    decide +kernel
  rcases opens : Queue.openIn Disk.empty ["queue"] 80 with ⟨d, e | q⟩
  · rw [opens] at facts
    cases facts
  · rw [opens] at facts
    exact ⟨d, q, rfl, Option.some.inj facts⟩

end StoredQueue

end Outbox
