import Outbox.Proofs.Queue.Readable
import Outbox.Proofs.Queue.Refinement

/-!
# What a queue accepts and gives out

Putting, flushing, acknowledging and opening do not look at objects; only getting does. So a queue of
any objects is a queue of their values, all of which can be stored, and a get is a get of a value that
is decoded behind it. What comes out of a queue of operations has its moments in whole milliseconds.

* `Record.ofValue?` decodes, and `Queue.get_eq_decodedOutcome` says that a get does the same, as long as
  everything that was read before is decoded;
* `Record.cut` is a record as it comes out of a queue of operations;
* `StoredQueue.Follows` relates a queue of operations to a list of them, of which only what was read is
  known to be decoded, and `Follows.call` (one question) and `Follows.run` (all of them) keep the relation;
* `Queue.gives_accepted` is the result: the get that comes to an operation gives it out, with its moment in
  whole milliseconds, if its times can be read, and fails if they cannot.
-/

namespace Outbox

open Json (Value)

/-- A value is stored as it is. -/
instance : Storable Value :=
  ⟨id, some⟩

namespace Record

variable {α : Type} [Storable α]

/-- The record with the value of its object. -/
def asValue (r : Record α) : Record Value :=
  ⟨Storable.json r.obj, r.version, r.time⟩

/-- The record whose object has this value. -/
def ofValue? (r : Record Value) : Option (Record α) :=
  (Storable.ofJson? r.obj).map fun obj => ⟨obj, r.version, r.time⟩

theorem version_of_ofValue? {r : Record Value} {r' : Record α} (h : ofValue? r = some r') :
    r'.version = r.version := by
  obtain ⟨obj, -, rfl⟩ := Option.map_eq_some_iff.1 h
  rfl

/-- The value of the object is all that is written of it. -/
theorem payload_asValue (r : Record α) : r.asValue.payload = r.payload :=
  rfl

/-- A record is read by decoding the object behind everything else. -/
theorem parse?_eq_bind (bytes : List UInt8) :
    parse? (α := α) bytes = (parse? (α := Value) bytes).bind ofValue? := by
  simp only [parse?, Json.readPart?, Option.bind_eq_bind, Option.bind_assoc]
  congr 1
  funext tree
  congr 1
  funext v
  simp only [ofJson?]
  split
  · next obj version time _ =>
    show ((Storable.ofJson? obj : Option α).bind fun o => version.natural?.bind fun n =>
        time.signed?.bind fun t => some (⟨o, n, t⟩ : Record α)) =
      (version.natural?.bind fun n => time.signed?.bind fun t =>
        some (⟨obj, n, t⟩ : Record Value)).bind ofValue?
    cases version.natural? <;> cases time.signed? <;> cases ho : (Storable.ofJson? obj : Option α) <;>
      simp [ofValue?, ho]
  · rfl

/-- The value of a record that can be written is stored, whatever the record is. -/
theorem durable_asValue {r : Record α} (obj : (Storable.json r.obj).Fits 126)
    (version : r.version < UInt64.size) (time : IsClock r.time)
    (fits : r.payload.length < UInt32.size) : r.asValue.Durable where
  reads := parse?_payload (r := r.asValue) obj version time
  fits := fits

end Record

/-! ## Getting -/

variable {α : Type} [Storable α]

namespace SegmentReader

/-- What a reader of objects comes to where a reader of values comes to this. -/
def decoded : SegmentReader × Reached Value → SegmentReader × Reached α
  | (r, .record record size) =>
    match Record.ofValue? record with
    | some record' => (r, .record record' size)
    | none => (r, .failed (.undecodable (segmentName r.id) (r.offset - size)))
  | (r, .finished) => (r, .finished)
  | (r, .failed e) => (r, .failed e)

theorem seekIn_undecodable {r : SegmentReader} {w : Window} {payload rest : List UInt8}
    (h : Frame.next w.bytes = (.payload payload, rest)) (unread : Record.parse? (α := α) payload = none)
    (above : Nat) : r.seekIn (α := α) above w = (r.advance w.skipFrame (Frame.size payload),
      .failed (.undecodable (segmentName r.id) r.offset)) := by
  rw [seekIn]
  split
  · next found =>
    rw [h] at found
    cases found
  · next found =>
    rw [h] at found
    cases found
  · next found =>
    rw [h] at found
    cases found
    simp only [unread]

/-- **A reader of objects** comes to where a reader of values comes, if everything on the way is
decoded. -/
theorem seekIn_eq_decoded {rs : List (Record Value)} (durable : ∀ x ∈ rs, x.Durable) {above : Nat}
    (early : ∀ x ∈ rs, x.version ≤ above → (Record.ofValue? (α := α) x).isSome) {w : Window}
    (ahead : w.bytes = framed rs) (r : SegmentReader) :
    r.seekIn (α := α) above w = decoded (r.seekIn (α := Value) above w) := by
  induction rs generalizing r w with
  | nil =>
    have ended : Frame.next w.bytes = (.finished, []) := by rw [ahead]; rfl
    rw [seekIn_finished ended, seekIn_finished ended]
    rfl
  | cons x rs ih =>
    have head := durable x List.mem_cons_self
    have frame : Frame.next w.bytes = (.payload x.payload, framed rs) := by
      have := next_framed head.fits rs []
      rw [List.append_nil, List.append_nil] at this
      rw [ahead, this]
    have behind : w.skipFrame.bytes = framed rs := by rw [Window.bytes_skipFrame, frame]
    have parsed : Record.parse? (α := α) x.payload = Record.ofValue? x := by
      rw [Record.parse?_eq_bind, head.reads]
      rfl
    rw [seekIn_payload frame head.reads]
    cases known : Record.ofValue? (α := α) x with
    | none =>
      have fresh : ¬ x.version ≤ above := fun old => by
        simpa [known] using early x List.mem_cons_self old
      rw [known] at parsed
      rw [seekIn_undecodable frame parsed, if_neg fresh]
      simp only [decoded, known, advance, Nat.add_sub_cancel]
    | some x' =>
      have version : x'.version = x.version := Record.version_of_ofValue? known
      rw [known] at parsed
      rw [seekIn_payload frame parsed, version]
      split
      · exact ih (fun y member => durable y (List.mem_cons_of_mem x member))
          (fun y member => early y (List.mem_cons_of_mem x member)) behind _
      · simp only [decoded, known]

end SegmentReader

namespace Queue

variable {d : Disk} {q : Queue} {ids : List Nat} {records : List (Record Value)}

/-- The failure to decode the record that a reader has just read. -/
def undecodable (size : Nat) : Option SegmentReader → QueueError
  | some r => .undecodable (segmentName r.id) (r.offset - size)
  | none => .undecodable "" 0

/-- What getting an object gives where getting a value gives this, for a queue that has read so far. An
object that is not decoded was not read. -/
def decoded (lastRead : Nat) : Queue × Except QueueError (Option (Element Value)) →
    Queue × Except QueueError (Option (Element α))
  | (q, .error e) => (q, .error e)
  | (q, .ok none) => (q, .ok none)
  | (q, .ok (some e)) =>
    match Record.ofValue? e.record with
    | some record => (q, .ok (some ⟨record, e.size⟩))
    | none => ({ q with lastRead := lastRead }, .error (undecodable e.size q.reader))

/-- The reader of a segment decodes what a reader of values finds. -/
theorem seek_eq_decoded (h : q.Intact d ids records) (durable : ∀ x ∈ records, x.Durable)
    (nothing : ∀ file, q.held file = [])
    (early : ∀ x ∈ records, x.version ≤ q.lastRead → (Record.ofValue? (α := α) x).isSome)
    {r : SegmentReader} (current : q.currentReader d = .ok r) :
    r.seek (α := α) d q.lastRead = SegmentReader.decoded (r.seek (α := Value) d q.lastRead) := by
  obtain ⟨m, reading, -⟩ := h.reading
  obtain ⟨r', file, k, current', -, isFile, place, ahead⟩ := currentReader_eq h reading
  obtain rfl : r' = r := by
    rw [current] at current'
    exact (Except.ok.inj current').symm
  rw [text_eq_read nothing] at ahead
  have bytes := (show (r'.window d file).bytes = _ from place.bytes).trans ahead
  simp only [SegmentReader.seek, isFile]
  refine SegmentReader.seekIn_eq_decoded ?_ ?_ bytes r'
  · exact fun x member => durable x (mem_of_mem_between member)
  · exact fun x member => early x (mem_of_mem_between member)

/-- Where a reader of objects finds a record, or fails on it, later segments do not matter. -/
theorem getThrough_eq_decoded_record {r r' : SegmentReader} {x : Record Value} {size : Nat}
    (current : q.currentReader d = .ok r)
    (seek : r.seek (α := Value) d q.lastRead = (r', .record x size))
    (objects : r.seek (α := α) d q.lastRead = SegmentReader.decoded (r', .record x size))
    (later : List Nat) :
    q.getThrough (α := α) d later = decoded q.lastRead (q.getThrough (α := Value) d later) := by
  rw [getThrough.eq_def, getThrough.eq_def]
  simp only [current, seek, objects, SegmentReader.decoded]
  cases known : Record.ofValue? (α := α) x with
  | none => simp only [decoded, known, undecodable]
  | some x' => simp only [decoded, known, Record.version_of_ofValue? known]

/-- **Getting an object is getting a value and decoding it**, if what was read before is decoded. -/
theorem getThrough_eq_decoded (h : q.Intact d ids records) (durable : ∀ x ∈ records, x.Durable)
    (nothing : ∀ file, q.held file = [])
    (early : ∀ x ∈ records, x.version ≤ q.lastRead → (Record.ofValue? (α := α) x).isSome)
    {later : List Nat} (hl : q.laterIds = later) :
    q.getThrough (α := α) d later = decoded q.lastRead (q.getThrough (α := Value) d later) := by
  induction later generalizing q with
  | nil =>
    obtain ⟨r, r', reached, m, current, seek, -, -, -, sought⟩ := sought_seek h durable nothing
    have objects := seek_eq_decoded (α := α) h durable nothing early current
    rw [seek] at objects
    cases sought with
    | record _ _ => exact getThrough_eq_decoded_record current seek objects []
    | finished _ _ =>
      rw [getThrough, getThrough]
      simp only [current, objects, seek]
      rfl
  | cons next rest ih =>
    obtain ⟨r, r', reached, m, current, seek, -, -, upTo, sought⟩ := sought_seek h durable nothing
    have objects := seek_eq_decoded (α := α) h durable nothing early current
    rw [seek] at objects
    cases sought with
    | record _ _ => exact getThrough_eq_decoded_record current seek objects (next :: rest)
    | finished ended _ =>
      obtain ⟨moved, behind⟩ := h.goOn hl ended upTo
      rw [getThrough, getThrough]
      simp only [current, objects, seek]
      exact ih moved nothing early behind

/-- How far a queue was read does not matter to what it hands to the disk. -/
theorem drop_read (d : Disk) (q : Queue) (lastRead : Nat) : drop d { q with lastRead := lastRead } = q.drop d := by
  unfold drop flush
  cases q.writer <;> rfl

/-- What getting an object leaves behind and answers where getting a value does this. -/
def decodedOutcome (lastRead : Nat) (o : Outcome (Option (Element Value))) :
    Outcome (Option (Element α)) :=
  ⟨o.disk, (decoded (α := α) lastRead (o.queue, o.result)).1, (decoded lastRead (o.queue, o.result)).2⟩

theorem get_eq_decodedOutcome (h : q.Intact d ids records) (durable : ∀ x ∈ records, x.Durable)
    (early : ∀ x ∈ records, x.version ≤ q.lastRead → (Record.ofValue? (α := α) x).isSome) :
    q.get (α := α) d = decodedOutcome q.lastRead (q.get (α := Value) d) := by
  obtain ⟨flushed, nothing⟩ := intact_flush h
  have lastRead := lastRead_flush d q
  have through := getThrough_eq_decoded (α := α) flushed durable nothing (lastRead.symm ▸ early) rfl
  rw [lastRead] at through
  simp only [get, decodedOutcome, through]

end Queue

/-! ## A queue of operations -/

/-- The list with the values of its objects. -/
def ListQueue.asValues (l : ListQueue α) : ListQueue Value :=
  ⟨l.records.map Record.asValue, l.read, l.acked, l.isOpen⟩

theorem ListQueue.getElem?_asValues (l : ListQueue α) (i : Nat) :
    l.asValues.records[i]? = l.records[i]?.map Record.asValue :=
  List.getElem?_map

theorem ListQueue.length_asValues (l : ListQueue α) : l.asValues.records.length = l.records.length :=
  List.length_map _

/-- The record with the moment of its operation in whole milliseconds. -/
def Record.cut (r : Record Operation) : Record Operation :=
  ⟨r.obj.cut, r.version, r.time⟩

/-- What is cut is not written anyway. -/
theorem Record.asValue_cut (r : Record Operation) : r.cut.asValue = r.asValue :=
  congrArg (fun v => (⟨v, r.version, r.time⟩ : Record Value)) r.obj.json_cut

theorem Record.payload_cut (r : Record Operation) : r.cut.payload = r.payload := by
  rw [← payload_asValue, asValue_cut, payload_asValue]

theorem Record.ofValue?_of_dated {r : Record Operation} (dated : r.obj.mutation.Dated) :
    ofValue? r.asValue = some r.cut := by
  have reads : (Storable.ofJson? (Storable.json r.obj) : Option Operation) = some r.obj.cut :=
    Operation.ofJson?_json dated
  show (Storable.ofJson? (Storable.json r.obj)).map _ = _
  rw [reads]
  rfl

theorem Record.ofValue?_of_undated {r : Record Operation} (undated : ¬ r.obj.mutation.Dated) :
    ofValue? (α := Operation) r.asValue = none := by
  have refused : (Storable.ofJson? (Storable.json r.obj) : Option Operation) = none :=
    Operation.ofJson?_json_eq_none undated
  show (Storable.ofJson? (Storable.json r.obj)).map _ = _
  rw [refused]
  rfl

/-- A put does not tell what is cut. -/
theorem Queue.put_cut (d : Disk) (q : Queue) (now : Int) (op : Operation) :
    q.put d now op.cut = q.put d now op := by
  show q.put d now op.cut.json = q.put d now op.json
  rw [op.json_cut]

/-- A question with the moment of what is put in whole milliseconds. -/
def Call.cut : Call Operation → Call Operation
  | .put now op => .put now op.cut
  | c => c

namespace StoredQueue

/-- A queue of operations on a disk holds a list of them as they come out, of which what was read has times
that can be read. -/
structure Follows (s : StoredQueue) (l : ListQueue Operation) : Prop where
  holds : s.Holds l.asValues
  dated : ∀ r ∈ l.records.take l.read, r.obj.mutation.Dated
  whole : ∀ r ∈ l.records, r.cut = r

variable {s : StoredQueue} {l : ListQueue Operation}

/-- What was read before is decoded. -/
theorem Follows.early (h : s.Follows l) : ∀ x ∈ l.asValues.records, x.version ≤ s.queue.lastRead →
    (Record.ofValue? (α := Operation) x).isSome := by
  intro x member old
  obtain ⟨ids, intact⟩ := h.holds.intact
  obtain ⟨i, inside, found⟩ := List.mem_iff_getElem.1 member
  have place := (List.getElem?_eq_getElem inside).trans (congrArg some found)
  have version := intact.filed.numbered place
  rw [l.getElem?_asValues, Option.map_eq_some_iff] at place
  obtain ⟨r, place, rfl⟩ := place
  have read : s.queue.lastRead = l.read := h.holds.read
  have dated : r.obj.mutation.Dated := by
    refine h.dated r (List.mem_iff_getElem?.2 ⟨i, ?_⟩)
    rw [List.getElem?_take_of_lt (by omega), place]
  rw [Record.ofValue?_of_dated dated]
  rfl

/-- A get is a get of a value that is decoded. -/
theorem Follows.get_eq (h : s.Follows l) : s.queue.get (α := Operation) s.disk =
    Queue.decodedOutcome l.read (s.queue.get (α := Value) s.disk) := by
  obtain ⟨ids, intact⟩ := h.holds.intact
  have read : s.queue.lastRead = l.read := h.holds.read
  rw [Queue.get_eq_decodedOutcome intact h.holds.durable h.early, read]

/-- Where everything was read, there is nothing to get. -/
theorem Follows.get_ended (h : s.Follows l) (ended : l.records[l.read]? = none) :
    ∃ d' q', s.queue.get (α := Operation) s.disk = ⟨d', q', .ok none⟩ ∧ Follows ⟨d', q'⟩ l := by
  obtain ⟨d', q', got, holds, -⟩ := h.holds.get
  have values : l.asValues.records[l.asValues.read]? = none := by
    rw [l.getElem?_asValues]
    exact congrArg (Option.map _) ended
  rw [values] at got
  rw [if_neg (Nat.not_lt_of_le (List.getElem?_eq_none_iff.1 values))] at holds
  exact ⟨d', q', by rw [h.get_eq, got]; rfl, holds, h.dated, h.whole⟩

/-- The value of the next operation is read in any case. -/
theorem Follows.get_value (h : s.Follows l) {r : Record Operation} (next : l.records[l.read]? = some r) :
    ∃ d' q', s.queue.get (α := Value) s.disk = ⟨d', q', .ok (some (ListQueue.element r.asValue))⟩ ∧
      StoredQueue.Holds ⟨d', q'⟩ { l.asValues with read := l.read + 1 } := by
  obtain ⟨d', q', got, holds, -⟩ := h.holds.get
  have value : l.asValues.records[l.asValues.read]? = some r.asValue := by
    rw [l.getElem?_asValues]
    exact congrArg (Option.map _) next
  rw [value] at got
  rw [if_pos (List.getElem?_eq_some_iff.1 value).1] at holds
  exact ⟨d', q', got, holds⟩

/-- **An operation whose times can be read is given out.** -/
theorem Follows.get_dated (h : s.Follows l) {r : Record Operation} (next : l.records[l.read]? = some r)
    (dated : r.obj.mutation.Dated) :
    ∃ d' q', s.queue.get s.disk = ⟨d', q', .ok (some (ListQueue.element r))⟩ ∧
      Follows ⟨d', q'⟩ { l with read := l.read + 1 } := by
  obtain ⟨d', q', got, holds⟩ := h.get_value next
  have whole : r.cut = r := h.whole r (List.mem_of_getElem? next)
  refine ⟨d', q', ?_, holds, ?_, h.whole⟩
  · rw [h.get_eq, got]
    simp only [ListQueue.element, Queue.decodedOutcome, Queue.decoded,
      Record.ofValue?_of_dated dated, whole, Record.payload_asValue]
  · intro r' member
    rw [List.take_add_one, next] at member
    rcases List.mem_append.1 member with before | last
    · exact h.dated r' before
    · obtain rfl := List.mem_singleton.1 last
      exact dated

/-- **An operation with another time is not**, neither now nor after the queue is opened again: what was
read does not go beyond it. -/
theorem Follows.get_undated (h : s.Follows l) {r : Record Operation}
    (next : l.records[l.read]? = some r) (undated : ¬ r.obj.mutation.Dated) :
    ∃ d' q' file offset, s.queue.get (α := Operation) s.disk = ⟨d', q', .error (.undecodable file offset)⟩ ∧
      ∀ maxSize, ∃ d'' q'', Queue.openIn (q'.drop d') q'.folder maxSize = (d'', .ok q'') ∧
        Follows ⟨d'', q''⟩ { l with read := l.acked, isOpen := true } := by
  obtain ⟨d', q', got, holds⟩ := h.get_value next
  have failed : s.queue.get (α := Operation) s.disk = ⟨d', { q' with lastRead := l.read },
      .error (Queue.undecodable (Frame.size r.payload) q'.reader)⟩ := by
    rw [h.get_eq, got]
    simp only [ListQueue.element, Queue.decodedOutcome, Queue.decoded,
      Record.ofValue?_of_undated undated, Record.payload_asValue]
  have named : ∃ file offset,
      Queue.undecodable (Frame.size r.payload) q'.reader = .undecodable file offset := by
    cases q'.reader <;> exact ⟨_, _, rfl⟩
  obtain ⟨file, offset, named⟩ := named
  refine ⟨d', _, file, offset, named ▸ failed, fun maxSize => ?_⟩
  obtain ⟨d'', q'', opens, holds', -⟩ := holds.reopen maxSize
  refine ⟨d'', q'', (Queue.drop_read d' q' l.read).symm ▸ opens, holds', fun r' member => h.dated r' ?_,
    h.whole⟩
  exact (List.take_prefix_take_left h.holds.ordered).subset member

/-! ## Questions with their answers -/

/-- What is asked of a queue in turn, with the answers. -/
def exchange (s : StoredQueue) : List (Call α) → List (Call α × Answer α)
  | [] => []
  | c :: calls => (c, (s.call c).2) :: exchange (s.call c).1 calls

/-- Whether a question is not a put that failed. -/
def isAccepted : Call α × Answer α → Bool
  | (.put .., .failed _) => false
  | _ => true

/-- A get came to a record that it could not decode. -/
def Stumbles (a : Answer α) : Prop :=
  ∃ file offset, a = .failed (.undecodable file offset)

/-- What may be asked: objects are put at times that a clock shows, and only what was read is
acknowledged. -/
def Permits (s : StoredQueue) : Call α → Prop
  | .put now _ => IsClock now
  | .ack version => version ≤ s.queue.lastRead
  | _ => True

/-- What may be asked in turn. -/
def PermitsAll (s : StoredQueue) : List (Call α) → Prop
  | [] => True
  | c :: calls => s.Permits c ∧ PermitsAll (s.call c).1 calls

/-- A question that is accepted is answered as by the list, into which operations are put as they come out;
a put that fails leaves the list as it is. -/
def Agrees (s : StoredQueue) (l : ListQueue Operation) (c : Call Operation) : Prop :=
  if isAccepted (c, (s.call c).2) then
    (s.call c).2 = (l.call c.cut).2 ∧ (s.call c).1.Follows (l.call c.cut).1
  else (s.call c).1.Follows l

/-- What is read stays as it is when the list grows. -/
theorem Follows.length_le (h : s.Follows l) : l.read ≤ l.records.length := by
  obtain ⟨ids, intact⟩ := h.holds.intact
  have read : s.queue.lastRead = l.read := h.holds.read
  have length := l.length_asValues
  have := intact.lastRead
  omega

/-- **Any operation is put** that fits into a frame, whatever its times are. -/
theorem Follows.put_fits (h : s.Follows l) (isOpen : l.isOpen = true) {now : Int} {op : Operation}
    (clock : IsClock now) (small : l.records.length + 1 < UInt64.size)
    (fits : (Record.payload ⟨op, l.records.length + 1, now⟩).length < UInt32.size) :
    ∃ d' q', s.queue.put s.disk now op = ⟨d', q', .ok (l.records.length + 1)⟩ ∧
      Follows ⟨d', q'⟩ { l with records := l.records ++ [⟨op.cut, l.records.length + 1, now⟩] } := by
  have length := l.length_asValues
  have durable : Record.Durable (⟨op.json, l.asValues.records.length + 1, now⟩ : Record Value) := by
    rw [length]
    exact Record.durable_asValue (r := ⟨op, l.records.length + 1, now⟩)
      (op.fits_json.mono (by decide)) small clock fits
  obtain ⟨d', q', put, holds, -⟩ := h.holds.put isOpen durable
  rw [length] at put holds
  refine ⟨d', q', put, ?_, ?_, ?_⟩
  · have same := Record.asValue_cut ⟨op, l.records.length + 1, now⟩
    simp only [Record.cut] at same
    simp only [ListQueue.asValues, List.map_append, List.map_cons, List.map_nil, same] at holds ⊢
    exact holds
  · rw [List.take_append_of_le_length h.length_le]
    exact h.dated
  · refine List.forall_mem_append.2 ⟨h.whole, List.forall_mem_singleton.2 ?_⟩
    rw [Record.cut, op.cut_cut]

/-- An operation is put, or refused by a queue that was closed or for its size. -/
theorem Follows.put (h : s.Follows l) {now : Int} {op : Operation} (clock : IsClock now)
    (small : l.records.length + 1 < UInt64.size) : s.Agrees l (.put now op) := by
  have same : s.queue.put s.disk now op = s.queue.put s.disk now op.json := rfl
  cases isOpen : l.isOpen with
  | false =>
    have closed := h.holds.put_closed isOpen now op.json
    simp only [Agrees, call, after, same, closed]
    exact h
  | true =>
    by_cases fits : (Record.payload ⟨op, l.records.length + 1, now⟩).length < UInt32.size
    · obtain ⟨d', q', put, follows⟩ := h.put_fits isOpen clock small fits
      simp only [Agrees, call, after, put, Call.cut, ListQueue.call, isOpen, if_true]
      exact ⟨rfl, isOpen ▸ follows⟩
    · have length := l.length_asValues
      have large : UInt32.size ≤
          (Record.payload ⟨op.json, l.asValues.records.length + 1, now⟩).length :=
        length ▸ Nat.le_of_not_lt fits
      obtain ⟨d', q', e, put, holds, -⟩ := h.holds.put_large isOpen (length ▸ small) large
      simp only [Agrees, call, after, same, put]
      exact ⟨holds, h.dated, h.whole⟩

/-- Several records are given out, unless one of them is not decoded. -/
theorem Follows.getUpTo (h : s.Follows l) (n : Nat) :
    (∃ d' q' file offset, s.queue.getUpTo (α := Operation) s.disk n =
        ⟨d', q', .error (.undecodable file offset)⟩) ∨
      ∃ d' q', s.queue.getUpTo s.disk n =
          ⟨d', q', .ok (((l.records.drop l.read).take n).map ListQueue.element)⟩ ∧
        Follows ⟨d', q'⟩ { l with read := l.read + ((l.records.drop l.read).take n).length } := by
  induction n generalizing s l with
  | zero => exact .inr ⟨s.disk, s.queue, rfl, h⟩
  | succ n ih =>
    cases next : l.records[l.read]? with
    | none =>
      obtain ⟨d', q', got, follows⟩ := h.get_ended next
      have ended := List.drop_eq_nil_of_le (List.getElem?_eq_none_iff.1 next)
      refine .inr ⟨d', q', ?_, ?_⟩
      · simp [Queue.getUpTo, got, ended]
      · simpa [ended] using follows
    | some r =>
      obtain ⟨inside, found⟩ := List.getElem?_eq_some_iff.1 next
      rcases Classical.em r.obj.mutation.Dated with dated | undated
      · obtain ⟨d₁, q₁, got, follows⟩ := h.get_dated next dated
        rw [List.drop_eq_getElem_cons inside, List.take_succ_cons, found]
        rcases ih follows with ⟨d₂, q₂, file, offset, failed⟩ | ⟨d₂, q₂, more, follows'⟩
        · exact .inl ⟨d₂, q₂, file, offset, by simp only [Queue.getUpTo, got, failed, Except.map]⟩
        · refine .inr ⟨d₂, q₂, ?_, ?_⟩
          · simp only [Queue.getUpTo, got, more, Except.map, List.map_cons]
          · rw [List.length_cons, Nat.add_comm _ 1, ← Nat.add_assoc]
            exact follows'
      · obtain ⟨d', q', file, offset, failed, -⟩ := h.get_undated next undated
        exact .inl ⟨d', q', file, offset, by simp only [Queue.getUpTo, failed]⟩

/-- **A question is answered as by the list**, unless a record is not decoded. -/
theorem Follows.call (h : s.Follows l) {c : Call Operation} (permitted : s.Permits c)
    (small : l.records.length + 1 < UInt64.size) : Stumbles (s.call c).2 ∨ s.Agrees l c := by
  cases c with
  | put now op => exact .inr (h.put permitted small)
  | get =>
    cases next : l.records[l.read]? with
    | none =>
      obtain ⟨d', q', got, follows⟩ := h.get_ended next
      refine .inr ?_
      simp only [Agrees, StoredQueue.call, after, got, Call.cut, ListQueue.call, next]
      exact ⟨rfl, follows⟩
    | some r =>
      rcases Classical.em r.obj.mutation.Dated with dated | undated
      · obtain ⟨d', q', got, follows⟩ := h.get_dated next dated
        refine .inr ?_
        simp only [Agrees, StoredQueue.call, after, got, Call.cut, ListQueue.call, next]
        exact ⟨rfl, follows⟩
      · obtain ⟨d', q', file, offset, failed, -⟩ := h.get_undated next undated
        exact .inl ⟨file, offset, by simp only [StoredQueue.call, after, failed]; rfl⟩
  | getUpTo n =>
    rcases h.getUpTo n with ⟨d', q', file, offset, failed⟩ | ⟨d', q', got, follows⟩
    · exact .inl ⟨file, offset, by simp only [StoredQueue.call, after, failed]; rfl⟩
    · refine .inr ?_
      simp only [Agrees, StoredQueue.call, after, got, Call.cut, ListQueue.call]
      exact ⟨rfl, follows⟩
  | ack version =>
    have known : version ≤ s.queue.lastRead := permitted
    obtain ⟨d', q', acked, holds, -⟩ := h.holds.ack (Nat.le_trans known (Nat.le_of_eq h.holds.read))
    refine .inr ?_
    simp only [Agrees, StoredQueue.call, after, acked, Call.cut, ListQueue.call]
    exact ⟨rfl, holds, h.dated, h.whole⟩
  | flush => exact .inr ⟨rfl, h.holds.flush.1, h.dated, h.whole⟩
  | close => exact .inr ⟨rfl, h.holds.close.1, h.dated, h.whole⟩
  | reopen maxSize =>
    obtain ⟨d', q', opens, holds, -⟩ := h.holds.reopen maxSize
    refine .inr ?_
    simp only [Agrees, StoredQueue.call, opens, Call.cut, ListQueue.call]
    refine ⟨trivial, holds, fun r member => h.dated r ?_, h.whole⟩
    exact (List.take_prefix_take_left h.holds.ordered).subset member

/-- A question adds one record at most. -/
theorem length_records_call (l : ListQueue α) (c : Call α) :
    (l.call c).1.records.length ≤ l.records.length + 1 := by
  cases c with
  | put now obj =>
    simp only [ListQueue.call]
    split <;> simp
  | get =>
    simp only [ListQueue.call]
    split <;> simp
  | _ => simp [ListQueue.call]

/-- The answers to questions in turn, with the questions, apart from puts that failed. -/
def accepted (s : StoredQueue) (calls : List (Call α)) : List (Call α × Answer α) :=
  (s.exchange calls).filter isAccepted

/-- The queue that questions in turn leave behind. -/
def run (s : StoredQueue) (calls : List (Call α)) : StoredQueue :=
  calls.foldl (fun s c => (s.call c).1) s

end StoredQueue

/-- The list that questions in turn leave behind. -/
def ListQueue.run (l : ListQueue α) (calls : List (Call α)) : ListQueue α :=
  calls.foldl (fun l c => (l.call c).1) l

namespace StoredQueue

variable {s : StoredQueue} {l : ListQueue Operation}

/-- **As long as everything is decoded, a queue of operations follows its list**, into which just what
was accepted was put, as it comes out. -/
theorem Follows.run (h : s.Follows l) {calls : List (Call Operation)}
    (few : l.records.length + calls.length < UInt64.size) (permitted : s.PermitsAll calls)
    (steady : ∀ e ∈ s.exchange calls, ¬ Stumbles e.2) :
    (s.accepted calls).map Prod.snd = l.answers ((s.accepted calls).map fun e => e.1.cut) ∧
      (s.run calls).Follows (l.run ((s.accepted calls).map fun e => e.1.cut)) := by
  induction calls generalizing s l with
  | nil => exact ⟨rfl, h⟩
  | cons c calls ih =>
    obtain ⟨first, rest⟩ := permitted
    rw [List.length_cons] at few
    rw [exchange, List.forall_mem_cons] at steady
    have agrees := (h.call first (by omega)).resolve_left steady.1
    have length := length_records_call l c.cut
    rw [Agrees] at agrees
    rw [accepted, exchange]
    cases known : isAccepted (c, (s.call c).2) with
    | true =>
      rw [known, if_pos rfl] at agrees
      obtain ⟨same, follows⟩ := agrees
      obtain ⟨answers, follows'⟩ := ih follows (by omega) rest steady.2
      rw [List.filter_cons_of_pos known, List.map_cons, List.map_cons, ListQueue.answers, ← same]
      exact ⟨congrArg (_ :: ·) answers, follows'⟩
    | false =>
      rw [known, if_neg Bool.false_ne_true] at agrees
      rw [List.filter_cons_of_neg (by simp [known])]
      exact ih agrees (by omega) rest steady.2

end StoredQueue

/-- A queue of operations is opened for the first time. -/
theorem StoredQueue.follows_create {d : Disk} {folder : Place} (free : d.Free folder) (maxSize : Nat) :
    ∃ d' q, Queue.openIn d folder maxSize = (d', .ok q) ∧ Follows ⟨d', q⟩ .empty := by
  obtain ⟨d₁, made, blank⟩ := free.make
  obtain ⟨d', q, opened, holds, -⟩ := holds_create (α := Value) made blank maxSize
  exact ⟨d', q, opened, holds, by simp [ListQueue.empty], List.forall_mem_nil _⟩

/-- **What a queue of operations accepts, it gives out, if the times can be read.** A queue begins in a
new folder; any operations are put, read and acknowledged, and the queue is opened again as often as one
likes. As long as no get fails to decode, the answers are those of the list of what was accepted, in which
each operation has its moment in whole milliseconds: it is the one that was put unless that had a finer
moment, or one in a leap second (`Mutation.cut_eq_self_iff`). The get that comes to the next operation of
the list gives it out if its times can be read, and fails if not: if the time of a point is not finite, or
the moment is in the leap second at the end of the last year. -/
theorem Queue.gives_accepted {d : Disk} {folder : Place} (free : d.Free folder) (maxSize : Nat) :
    ∃ d' q, openIn d folder maxSize = (d', .ok q) ∧ ∀ calls : List (Call Operation),
      calls.length < UInt64.size → StoredQueue.PermitsAll ⟨d', q⟩ calls →
      (∀ e ∈ StoredQueue.exchange ⟨d', q⟩ calls, ¬ StoredQueue.Stumbles e.2) →
      let accepted := StoredQueue.accepted ⟨d', q⟩ calls
      let list := (ListQueue.empty : ListQueue Operation).run (accepted.map fun e => e.1.cut)
      accepted.map Prod.snd = ListQueue.empty.answers (accepted.map fun e => e.1.cut) ∧
        ∀ r, list.records[list.read]? = some r →
          (r.obj.mutation.Dated →
            ((StoredQueue.run ⟨d', q⟩ calls).call .get).2 = .element (some (ListQueue.element r))) ∧
          (¬ r.obj.mutation.Dated →
            StoredQueue.Stumbles ((StoredQueue.run ⟨d', q⟩ calls).call (α := Operation) .get).2) := by
  obtain ⟨d', q, opened, first⟩ := StoredQueue.follows_create free maxSize
  refine ⟨d', q, opened, fun calls few permitted steady => ?_⟩
  obtain ⟨answers, follows⟩ := first.run
    (by rwa [ListQueue.empty, List.length_nil, Nat.zero_add]) permitted steady
  refine ⟨answers, fun r next => ⟨fun dated => ?_, fun undated => ?_⟩⟩
  · obtain ⟨_, _, got, -⟩ := follows.get_dated next dated
    simp only [StoredQueue.call, StoredQueue.after, got, Answer.of]
  · obtain ⟨_, _, file, offset, failed, -⟩ := follows.get_undated next undated
    exact ⟨file, offset, by simp only [StoredQueue.call, StoredQueue.after, failed, Answer.of]⟩

/-- One point of a series at some time, its value not a number and its step infinite. -/
def strangePoint (time : Binary64) : Operation :=
  ⟨.single "a", .log (.floats [⟨.nan, some (.infinite false), time⟩])⟩

/-- At time zero it is given out. -/
theorem Queue.gives_accepted_strangePoint : ∃ d q, openIn Disk.empty ["queue"] 0 = (d, .ok q) ∧
    ((StoredQueue.run ⟨d, q⟩ [.put 5 (strangePoint (.finite (.zero false)))]).call .get).2 =
      .element (some (ListQueue.element ⟨strangePoint (.finite (.zero false)), 1, 5⟩)) := by
  obtain ⟨d, q, opened, promise⟩ := gives_accepted free_empty 0
  obtain ⟨d', q', opened', first⟩ := StoredQueue.follows_create free_empty 0
  obtain ⟨rfl, rfl⟩ : d = d' ∧ q = q' := by simpa [opened] using opened'
  have clock : IsClock 5 := ⟨by decide, by decide⟩
  have fits : (Record.payload ⟨strangePoint (.finite (.zero false)), 1, 5⟩).length < UInt32.size := by
    decide +kernel
  have dated : (strangePoint (.finite (.zero false))).mutation.Dated := fun p member => by
    obtain rfl := List.mem_singleton.1 member
    exact ⟨_, rfl⟩
  obtain ⟨d₁, q₁, put, -⟩ := first.put_fits rfl clock (by decide) fits
  have exchange : StoredQueue.exchange ⟨d, q⟩ [.put 5 (strangePoint (.finite (.zero false)))] =
      [(.put 5 (strangePoint (.finite (.zero false))), .version 1)] := by
    simp only [StoredQueue.exchange, StoredQueue.call, StoredQueue.after, put, Answer.of]
    rfl
  have steady : ∀ e ∈ StoredQueue.exchange ⟨d, q⟩ [.put 5 (strangePoint (.finite (.zero false)))],
      ¬ StoredQueue.Stumbles e.2 := by
    rw [exchange, List.forall_mem_singleton]
    rintro ⟨_, _, failed⟩
    cases failed
  obtain ⟨-, next⟩ := promise [.put 5 (strangePoint (.finite (.zero false)))] (by decide)
    ⟨clock, trivial⟩ steady
  rw [StoredQueue.accepted, exchange] at next
  exact ⟨d, q, opened, (next _ rfl).1 dated⟩

/-- At an infinite time it is accepted, and from then on every get fails that comes to it, in this process
and in every other one. -/
theorem Queue.get_infiniteTime : ∃ d q d₁ q₁ d₂ q₂ file offset,
    openIn Disk.empty ["queue"] 0 = (d, .ok q) ∧
      q.put d 5 (strangePoint (.infinite false)) = ⟨d₁, q₁, .ok 1⟩ ∧
      q₁.get (α := Operation) d₁ = ⟨d₂, q₂, .error (.undecodable file offset)⟩ ∧
      ∀ maxSize, ∃ d₃ q₃ file offset, openIn (q₂.drop d₂) q₂.folder maxSize = (d₃, .ok q₃) ∧
        (q₃.get (α := Operation) d₃).result = .error (.undecodable file offset) := by
  obtain ⟨d, q, opened, first⟩ := StoredQueue.follows_create free_empty 0
  have clock : IsClock 5 := ⟨by decide, by decide⟩
  have fits : (Record.payload ⟨strangePoint (.infinite false), 1, 5⟩).length < UInt32.size := by
    decide +kernel
  have undated : ¬ (strangePoint (.infinite false)).mutation.Dated := fun dated => by
    obtain ⟨x, finite⟩ := dated _ List.mem_cons_self
    cases finite
  obtain ⟨d₁, q₁, put, follows⟩ := first.put_fits rfl clock (by decide) fits
  obtain ⟨d₂, q₂, file, offset, failed, opens⟩ := follows.get_undated rfl undated
  refine ⟨d, q, d₁, q₁, d₂, q₂, file, offset, opened, put, failed, fun maxSize => ?_⟩
  obtain ⟨d₃, q₃, opened', follows'⟩ := opens maxSize
  obtain ⟨_, _, file', offset', failed', -⟩ := follows'.get_undated rfl undated
  exact ⟨d₃, q₃, file', offset', opened', by rw [failed']⟩

end Outbox
