import Outbox.Proofs.Batch.Failing
import Outbox.Proofs.Batch.Stored
import Outbox.Proofs.Queue.Decoding

/-!
# Operations that cannot be decoded

A queue of operations that can be stored is one that follows its list (`Holds.follows`), and goes on to do
so when an operation is put that cannot be decoded (`Follows.put_cases`). As a source it gives the records
of the list one by one, and a read fails where such an operation comes (`queueSource_gives`).
-/

namespace Outbox

/-! ## From records to values -/

namespace Record

variable {r : Record Operation}

theorem Durable.asValue (h : r.Durable) : r.asValue.Durable :=
  durable_asValue (r.obj.fits_json.mono (by decide)) h.sized.version_lt (bounds_of_parse? h.reads).2 h.fits

/-- What can be stored has times that can be read, and is read back as it is. -/
theorem Durable.dated_and_whole (h : r.Durable) : r.obj.mutation.Dated ∧ r.cut = r := by
  have reads := h.reads
  rw [parse?_payload (r.obj.fits_json.mono (by decide)) h.sized.version_lt
    (bounds_of_parse? h.reads).2] at reads
  rcases Classical.em r.obj.mutation.Dated with dated | undated
  · have obj : (Storable.ofJson? (Storable.json r.obj) : Option Operation) = some r.obj.cut :=
      Operation.ofJson?_json dated
    rw [obj] at reads
    exact ⟨dated, Option.some.inj reads⟩
  · have refused : (Storable.ofJson? (Storable.json r.obj) : Option Operation) = none :=
      Operation.ofJson?_json_eq_none undated
    rw [refused] at reads
    cases reads

/-- **What can be stored of an operation** is what comes out of the queue: if its times can be read, the
operation with its moment in whole milliseconds. -/
theorem durable_cut (dated : r.obj.mutation.Dated) (small : r.version < UInt64.size)
    (clock : IsClock r.time) (fits : r.payload.length < UInt32.size) : r.cut.Durable where
  reads := by
    have reads : (Storable.ofJson? (Storable.json r.obj) : Option Operation) = some r.obj.cut :=
      Operation.ofJson?_json dated
    rw [payload_cut, parse?_payload (r.obj.fits_json.mono (by decide)) small clock, reads]
    rfl
  fits := by
    rw [payload_cut]
    exact fits

end Record

theorem framed_asValue (records : List (Record Operation)) :
    framed (records.map Record.asValue) = framed records := by
  rw [framed, List.flatMap_map]
  rfl

theorem between_map {β γ : Type} (f : β → γ) (items : List β) (a b : Nat) :
    between (items.map f) a b = (between items a b).map f := by
  rw [between, between, ← List.map_take, ← List.map_drop]

theorem Filed.asValues {records : List (Record Operation)} (h : Filed records) :
    Filed (records.map Record.asValue) where
  numbered {i x} found := by
    rw [List.getElem?_map] at found
    obtain ⟨r, place, rfl⟩ := Option.map_eq_some_iff.1 found
    exact h.numbered place
  sized := List.forall_mem_map.2 fun r inside => ⟨(h.sized r inside).fits, (h.sized r inside).version_lt⟩

namespace Queue

variable {d : Disk} {q : Queue} {ids : List Nat} {records : List (Record Operation)}

theorem Reading.asValues {m : Nat} (h : q.Reading d ids records m) :
    q.Reading d ids (records.map Record.asValue) m where
  listed := h.listed
  first := h.first
  last := by
    rw [List.length_map]
    exact h.last
  unopened := h.unopened
  opened r hr := by
    rw [List.length_map, between_map, framed_asValue]
    exact h.opened r hr

/-- An open queue of operations is one of their values. -/
theorem Intact.asValues (h : q.Intact d ids records) :
    q.Intact d ids (records.map Record.asValue) where
  tidy := h.tidy
  filed := h.filed.asValues
  lastPut := h.lastPut.trans (List.length_map _).symm
  lastRead := by
    rw [List.length_map]
    exact h.lastRead
  lastAck := by
    rw [List.length_map]
    exact h.lastAck
  ackFile := h.ackFile
  acked := h.acked
  table := h.table
  ordered := h.ordered
  one_le := h.one_le
  le_top := by
    rw [List.length_map]
    exact h.le_top
  small := h.small
  covers := h.covers
  only := h.only
  stored id mem := by
    rw [List.length_map, between_map, framed_asValue]
    exact h.stored id mem
  writer := h.writer
  reading := by
    obtain ⟨m, reading, bound⟩ := h.reading
    exact ⟨m, reading.asValues, bound⟩

end Queue

namespace StoredQueue

variable {s : StoredQueue} {l : ListQueue Operation}

/-- **A queue that holds a list follows it.** -/
theorem Holds.follows (h : s.Holds l) : s.Follows l where
  holds := by
    obtain ⟨ids, intact⟩ := h.intact
    exact ⟨⟨ids, intact.asValues⟩, h.read, h.acked, h.isOpen, h.ordered,
      List.forall_mem_map.2 fun r inside => (h.durable r inside).asValue⟩
  dated r mem := (h.durable r (List.mem_of_mem_take mem)).dated_and_whole.1
  whole r mem := (h.durable r mem).dated_and_whole.2

/-! ## The queue -/

theorem Follows.lastPut (h : s.Follows l) : s.queue.lastPut = l.records.length := by
  obtain ⟨ids, intact⟩ := h.holds.intact
  exact intact.lastPut.trans (List.length_map _)

theorem Follows.numbered (h : s.Follows l) {i : Nat} {r : Record Operation}
    (found : l.records[i]? = some r) : r.version = i + 1 := by
  obtain ⟨ids, intact⟩ := h.holds.intact
  have place : l.asValues.records[i]? = some r.asValue := by
    rw [l.getElem?_asValues, found]
    rfl
  exact intact.filed.numbered place

/-- What cannot be decoded is behind everything that was acknowledged. -/
theorem Follows.lastAck_lt (h : s.Follows l) (blocks : ∃ r ∈ l.records, ¬ r.obj.mutation.Dated) :
    s.queue.lastAck < s.queue.lastPut := by
  obtain ⟨r, mem, undated⟩ := blocks
  have unread : l.read < l.records.length := by
    refine Nat.lt_of_not_le fun all => undated (h.dated r ?_)
    rw [List.take_of_length_le all]
    exact mem
  have acked : s.queue.lastAck = l.acked := h.holds.acked
  have ordered : l.acked ≤ l.read := h.holds.ordered
  rw [h.lastPut]
  omega

/-- An operation is put, whatever its times are, or it is refused. -/
theorem Follows.put_cases (h : s.Follows l) {now : Int} {op : Operation} (clock : IsClock now)
    (small : s.queue.lastPut + 1 < UInt64.size) :
    ∃ l', Follows ⟨(s.queue.put s.disk now op).disk, (s.queue.put s.disk now op).queue⟩ l' ∧
      l'.read = l.read ∧
      (l'.records = l.records ∨ ∃ version, l'.records = l.records ++ [⟨op.cut, version, now⟩]) := by
  rw [h.lastPut] at small
  have agrees : s.Agrees l (.put now op) := h.put clock small
  unfold Agrees at agrees
  split at agrees
  · refine ⟨(l.call (.put now op.cut)).1, agrees.2, ?_⟩
    unfold ListQueue.call
    dsimp only
    split
    · exact ⟨rfl, .inr ⟨_, rfl⟩⟩
    · exact ⟨rfl, .inl rfl⟩
  · exact ⟨l, agrees, rfl, .inl rfl⟩

end StoredQueue

/-! ## The source -/

/-- The records that were read, as they are delivered. -/
def ListQueue.given (l : ListQueue Operation) : List Queued :=
  (l.records.take l.read).map queued

/-- A queue follows a list of which it has read just these records. -/
def StoredQueue.Given (l : ListQueue Operation) (s : StoredQueue) (rs : List Queued) : Prop :=
  ∃ read, s.Follows { l with read := read } ∧ rs = ListQueue.given { l with read := read }

namespace StoredQueue

variable {s : StoredQueue} {l : ListQueue Operation}

/-- The version of a batch of records that were read. -/
theorem Follows.version_le (h : s.Follows l) {batch : Batch} (read : batch.From l.given) :
    batch.version ≤ l.read := by
  obtain ⟨_, mem, version⟩ := read.version
  obtain ⟨r, read, rfl⟩ := List.mem_map.1 mem
  obtain ⟨i, found⟩ := List.mem_iff_getElem?.1 read
  rw [List.getElem?_take] at found
  split at found
  · next inside =>
    have numbered := h.numbered found
    have version : r.version = batch.version := version
    omega
  · cases found

/-- A get does not acknowledge anything, whether it fails or not. -/
theorem Follows.marks_get (h : s.Follows l) :
    (s.queue.get (α := Operation) s.disk).queue.lastPut = l.records.length ∧
      (s.queue.get (α := Operation) s.disk).queue.lastAck = l.acked := by
  obtain ⟨d', q', got, holds, -⟩ := h.holds.get
  obtain ⟨ids, intact⟩ := holds.intact
  have lastPut : q'.lastPut = l.records.length := intact.lastPut.trans (List.length_map _)
  have lastAck : q'.lastAck = l.acked := holds.acked
  rw [h.get_eq, got]
  unfold Queue.decodedOutcome Queue.decoded
  cases l.asValues.records[l.asValues.read]? with
  | none => exact ⟨lastPut, lastAck⟩
  | some x =>
    simp only [Option.map_some]
    cases Record.ofValue? (α := Operation) (ListQueue.element x).record <;> exact ⟨lastPut, lastAck⟩

/-- What the next read gives. -/
theorem Follows.next_cases (h : s.Follows l) :
    (∃ s', nextOfQueue s = (s', .ok none) ∧ s'.Follows l) ∨
      (∃ s' r, nextOfQueue s = (s', .ok (some (queued r))) ∧ l.records[l.read]? = some r ∧
        s'.Follows { l with read := l.read + 1 }) ∨
      ∃ s' e, nextOfQueue s = (s', .error e) ∧ s'.queue.lastPut = l.records.length ∧
        s'.queue.lastAck = l.acked := by
  unfold nextOfQueue
  cases next : l.records[l.read]? with
  | none =>
    obtain ⟨d', q', got, follows⟩ := h.get_ended next
    exact .inl ⟨⟨d', q'⟩, by simp only [got]; rfl, follows⟩
  | some r =>
    rcases Classical.em r.obj.mutation.Dated with dated | undated
    · obtain ⟨d', q', got, follows⟩ := h.get_dated next dated
      exact .inr (.inl ⟨⟨d', q'⟩, r, by simp only [got]; rfl, rfl, follows⟩)
    · obtain ⟨d', q', file, offset, failed, -⟩ := h.get_undated next undated
      obtain ⟨lastPut, lastAck⟩ := h.marks_get
      rw [failed] at lastPut lastAck
      exact .inr (.inr ⟨⟨d', q'⟩, _, by simp only [failed]; rfl, lastPut, lastAck⟩)

/-- **A queue gives the records of its list** until a read comes to an operation that cannot be decoded.
What was acknowledged is behind. -/
theorem queueSource_gives (l : ListQueue Operation) (blocks : ∃ r ∈ l.records, ¬ r.obj.mutation.Dated) :
    queueSource.Gives (Given l) fun s => s.queue.lastAck < s.queue.lastPut where
  ended {s s' rs} given read := by
    obtain ⟨n, follows, rfl⟩ := given
    replace read : nextOfQueue s = (s', .ok none) := read
    rcases follows.next_cases with ⟨_, next, follows'⟩ | ⟨_, _, next, -⟩ | ⟨_, _, next, -⟩ <;>
      cases next.symm.trans read
    exact ⟨n, follows', rfl⟩
  gives {s s' rs r} given read := by
    obtain ⟨n, follows, rfl⟩ := given
    replace read : nextOfQueue s = (s', .ok (some r)) := read
    rcases follows.next_cases with ⟨_, next, -⟩ | ⟨_, x, next, found, follows'⟩ | ⟨_, _, next, -⟩ <;>
      cases next.symm.trans read
    refine ⟨n + 1, follows', ?_⟩
    have place : l.records[n]? = some x := found
    simp [ListQueue.given, List.take_add_one, place]
  breaks {s s' rs e} given read := by
    obtain ⟨n, follows, rfl⟩ := given
    replace read : nextOfQueue s = (s', .error e) := read
    have behind := follows.lastAck_lt blocks
    have acked : s.queue.lastAck = l.acked := follows.holds.acked
    rw [follows.lastPut, acked] at behind
    rcases follows.next_cases with ⟨_, next, -⟩ | ⟨_, _, next, -⟩ | ⟨_, _, next, lastPut, lastAck⟩ <;>
      cases next.symm.trans read
    rw [lastPut, lastAck]
    exact behind

end StoredQueue

end Outbox
