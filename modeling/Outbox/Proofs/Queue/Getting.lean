import Outbox.Proofs.Queue.Putting

/-!
# Getting

The reader gives the records in turn, through the ends of segments. It is never behind the first
record that was neither read nor removed with its segment.

* `intact_getThrough` is what a reader finds in the segment that is being read and in later ones;
* `intact_get` is one record, and `intact_getUpTo` are several.
-/

namespace Outbox.Queue

variable {α : Type} [Storable α] {d : Disk} {q : Queue} {ids : List Nat}
  {records : List (Record α)}

theorem laterIds_eq (h : q.Intact d ids records) :
    q.laterIds = ids.filter (q.readId < ·) := by
  rw [laterIds, h.table, List.map_map]
  congr 1
  exact List.map_id ids

/-- The segment that is being read is there. -/
theorem Intact.readId_mem (h : q.Intact d ids records) : q.readId ∈ ids := by
  obtain ⟨m, reading, -⟩ := h.reading
  exact reading.listed

/-- The reader, opened if need be, is where it is said to be. -/
theorem currentReader_eq (h : q.Intact d ids records) {m : Nat} (reading : q.Reading d ids records m) :
    ∃ r file k, q.currentReader d = .ok r ∧
      d.lookup? (q.folder ++ [segmentName q.readId]) = some (.file file) ∧ r.file = some file ∧
      r.At (d.read file) k ∧ (q.text d file).drop k =
        framed (between records (m + 1) (endOf ids (records.length + 1) q.readId)) := by
  unfold currentReader
  cases hr : q.reader with
  | some r =>
    obtain ⟨file, k, opened⟩ := reading.opened r hr
    exact ⟨r, file, k, rfl, opened⟩
  | none =>
    obtain ⟨file, found, text⟩ := h.stored _ reading.listed
    refine ⟨⟨q.readId, some file, 0, [], 0⟩, file, 0, ?_, found, rfl, SegmentReader.at_start .., ?_⟩
    · simp only [SegmentReader.openAt, found]
    · rw [List.drop_zero, text, reading.unopened hr]

/-- Another reader in the same place of the same records. -/
theorem Intact.reread (h : q.Intact d ids records) {readId lastRead m : Nat}
    {reader : Option SegmentReader} (read : lastRead ≤ records.length)
    (reading : Reading d { q with readId := readId, reader := reader, lastRead := lastRead } ids
      records m) (bound : Abreast ids lastRead m) :
    Intact d { q with readId := readId, reader := reader, lastRead := lastRead } ids records :=
  ⟨h.tidy, h.filed, h.lastPut, read, h.lastAck, h.ackFile, h.acked, h.table, h.ordered, h.one_le,
    h.le_top, h.small, h.covers, h.only, h.stored, h.writer, m, reading, bound⟩

/-- What a reader comes to in its segment: the record behind version `m`, or the end of the segment,
which begins no later than that record. -/
inductive Sought (d : Disk) (q : Queue) (ids : List Nat) (records : List (Record α)) (m : Nat)
    (r' : SegmentReader) : Reached α → Prop
  | record {r : Record α} : records[m]? = some r →
      Intact d { q with reader := some r', lastRead := m + 1 } ids records →
      Sought d q ids records m r' (.record r (Frame.size r.payload))
  | finished : endOf ids (records.length + 1) q.readId ≤ m + 1 →
      Intact d { q with reader := some r' } ids records →
      Sought d q ids records m r' .finished

/-- The reader looks for the next record in its segment. -/
theorem sought_seek (h : q.Intact d ids records) (durable : ∀ r ∈ records, r.Durable)
    (nothing : ∀ file, q.held file = []) :
    ∃ r r' reached m, q.currentReader d = .ok r ∧ r.seek d q.lastRead = (r', reached) ∧
      q.lastRead ≤ m ∧ q.readId ≤ m + 1 ∧ Abreast ids q.lastRead m ∧ Sought d q ids records m r' reached := by
  obtain ⟨m, reading, bound⟩ := h.reading
  obtain ⟨r, file, k, current, found, opened, at_k, ahead⟩ := currentReader_eq h reading
  have text : q.text d file = d.read file := text_eq_read nothing d file
  rw [text] at ahead
  have first := h.one_le _ reading.listed
  have from_one : 1 ≤ m + 1 := by omega
  have top : endOf ids (records.length + 1) q.readId ≤ records.length + 1 := endOf_le h.le_top
  generalize hb : endOf ids (records.length + 1) q.readId = b at ahead top
  have last : m + 1 ≤ b := hb ▸ reading.last
  obtain ⟨r', k', -, opened', at_k', law⟩ := SegmentReader.seekIn_framed
    (fun r member => durable r (mem_of_mem_between member)) at_k ahead r q.lastRead
  have next : max (m + 1) (q.lastRead + 1) = max m q.lastRead + 1 := by omega
  rw [h.filed.dropWhile_between from_one top, next] at law
  have seek : r.seek (α := α) d q.lastRead = r.seekIn q.lastRead (r.window d file) := by
    rw [SegmentReader.seek, opened]
  have read := h.lastRead
  have start := reading.first
  -- where the reader is after it has gone to version `n`
  have intact {n lastRead : Nat} (back : m ≤ n) (within : n + 1 ≤ b)
      (known : lastRead ≤ records.length) (reached : Abreast ids lastRead n)
      (behind : (d.read file).drop k' = framed (between records (n + 1) b)) :
      Intact d { q with reader := some r', lastRead := lastRead } ids records := by
    refine h.reread known ⟨reading.listed, ?_, ?_, by simp, ?_⟩ reached
    · exact Nat.le_trans reading.first (by omega)
    · exact hb ▸ within
    · rintro _ ⟨⟩
      refine ⟨file, k', found, opened'.trans opened, at_k', ?_⟩
      show (q.text d file).drop k' =
        framed (between records (n + 1) (endOf ids (records.length + 1) q.readId))
      rw [text, behind, hb]
  by_cases inside : max m q.lastRead + 1 < b
  · obtain ⟨record, here⟩ : ∃ record, records[max m q.lastRead]? = some record :=
      ⟨_, List.getElem?_eq_getElem (by omega)⟩
    rw [between_eq_cons (by omega) inside here] at law
    refine ⟨r, r', _, max m q.lastRead, current, seek.trans law.1, by omega, by omega, bound.caughtUp,
      .record here ?_⟩
    exact intact (by omega) (by omega) (by omega) (.inl (Nat.le_refl _)) law.2
  · rw [between_eq_nil (by omega)] at law
    refine ⟨r, r', _, max m q.lastRead, current, seek.trans law.1, by omega, by omega, bound.caughtUp,
      .finished (by omega) ?_⟩
    refine intact (n := b - 1) (by omega) (by omega) read (bound.caughtUp.mono (by omega)) ?_
    rw [law.2, between_eq_nil (by omega), framed_nil]

/-- What getting leaves as it was. -/
structure Passed (q q' : Queue) : Prop where
  folder : q'.folder = q.folder
  maxSize : q'.maxSize = q.maxSize
  isOpen : q'.writer.isSome = q.writer.isSome
  lastAck : q'.lastAck = q.lastAck

/-- The answer of a reader: the record behind version `m`, if there is one. It is the first one above what was
read that is in a segment. -/
structure Gave (q : Queue) (ids : List Nat) (records : List (Record α)) (q' : Queue)
    (result : Except QueueError (Option (Element α))) (m : Nat) : Prop where
  passed : q.Passed q'
  reached : q.lastRead ≤ m
  listed : ∃ id ∈ ids, id ≤ m + 1
  upTo : Abreast ids q.lastRead m
  answer : result = .ok (records[m]?.map fun r => ⟨r, Frame.size r.payload⟩)
  lastRead : q'.lastRead = if m < records.length then m + 1 else q.lastRead

/-- Where the segment that is being read has another record, later ones do not matter. -/
theorem gave_record (h : q.Intact d ids records) {r r' : SegmentReader} {record : Record α}
    {size m : Nat} (current : q.currentReader d = .ok r)
    (seek : r.seek d q.lastRead = (r', .record record size)) (back : q.lastRead ≤ m)
    (listed : ∃ id ∈ ids, id ≤ m + 1) (upTo : Abreast ids q.lastRead m)
    (sought : Sought d q ids records m r' (.record record size)) (later : List Nat) :
    ∃ q' result m, q.getThrough (α := α) d later = (q', result) ∧ q'.Intact d ids records ∧
      q.Gave ids records q' result m := by
  cases sought with
  | record here intact =>
    have inside := (List.getElem?_eq_some_iff.1 here).1
    refine ⟨{ q with reader := some r', lastRead := m + 1 }, _, m, ?_, intact, ⟨rfl, rfl, rfl, rfl⟩,
      back, listed, upTo, rfl, (if_pos inside).symm⟩
    rw [getThrough.eq_def]
    simp only [current, seek, here, Option.map_some, h.filed.numbered here]

/-- A reader that has come to the end of its segment goes on at the beginning of the next one. -/
theorem Intact.goOn (h : q.Intact d ids records) {next : Nat} {rest : List Nat}
    (later : q.laterIds = next :: rest) {m : Nat}
    (ended : endOf ids (records.length + 1) q.readId ≤ m + 1) (upTo : Abreast ids q.lastRead m) :
    Intact d { q with readId := next, reader := none } ids records ∧
      laterIds { q with readId := next, reader := none } = rest := by
  have behind := later
  rw [laterIds_eq h] at behind
  rw [endOf_eq_head behind] at ended
  obtain ⟨listed, -⟩ := List.mem_filter.1 (behind ▸ List.mem_cons_self : next ∈ ids.filter _)
  have one := h.one_le next listed
  have moved : Intact d { q with readId := next, reader := none, lastRead := q.lastRead } ids records := by
    have upTo' : Abreast ids q.lastRead (next - 1) := upTo.mono (by omega)
    exact h.reread h.lastRead (reading_start d rfl listed one (h.le_top next listed)) upTo'
  exact ⟨moved, (laterIds_eq moved).trans (filter_of_filter_eq_cons h.ordered behind)⟩

/-- **The reader gives the next record**, or none if there are no more. -/
theorem intact_getThrough (h : q.Intact d ids records) (durable : ∀ r ∈ records, r.Durable)
    (nothing : ∀ file, q.held file = [])
    {later : List Nat} (hl : q.laterIds = later) :
    ∃ q' result m, q.getThrough (α := α) d later = (q', result) ∧ q'.Intact d ids records ∧
      q.Gave ids records q' result m := by
  induction later generalizing q with
  | nil =>
    obtain ⟨r, r', reached, m, current, seek, back, first, upTo, sought⟩ := sought_seek h durable nothing
    cases sought with
    | record here intact =>
      exact gave_record h current seek back ⟨_, h.readId_mem, first⟩ upTo (.record here intact) []
    | finished ended intact =>
      rw [laterIds_eq h] at hl
      have top : endOf ids (records.length + 1) q.readId = records.length + 1 := by simp [endOf, hl]
      have none_left : records[m]? = none := List.getElem?_eq_none (by omega)
      refine ⟨{ q with reader := some r' }, _, m, ?_, intact, ⟨rfl, rfl, rfl, rfl⟩, back,
        ⟨_, h.readId_mem, first⟩, upTo, rfl, ?_⟩
      · rw [getThrough]
        simp only [current, seek, none_left, Option.map_none]
      · rw [if_neg (by omega)]
  | cons next rest ih =>
    obtain ⟨r, r', reached, m, current, seek, back, first, upTo, sought⟩ := sought_seek h durable nothing
    cases sought with
    | record here intact =>
      exact gave_record h current seek back ⟨_, h.readId_mem, first⟩ upTo (.record here intact) (next :: rest)
    | finished ended intact =>
      obtain ⟨moved, behind⟩ := h.goOn hl ended upTo
      obtain ⟨q', result, m', found, intact', gave⟩ := ih moved nothing behind
      refine ⟨q', result, m', ?_, intact', ⟨gave.passed.folder, gave.passed.maxSize,
        gave.passed.isOpen, gave.passed.lastAck⟩, gave.reached, gave.listed, gave.upTo, gave.answer,
        gave.lastRead⟩
      rw [getThrough]
      simp only [current, seek]
      exact found

/-- **Getting gives the next record**, or none if there are no more. -/
theorem intact_get (h : q.Intact d ids records) (durable : ∀ r ∈ records, r.Durable) :
    ∃ d' q' result m, q.get (α := α) d = ⟨d', q', result⟩ ∧ q'.Intact d' ids records ∧
      q.Gave ids records q' result m := by
  obtain ⟨flushed, nothing⟩ := intact_flush h
  obtain ⟨writer, same, still⟩ := flush_eq d q
  obtain ⟨q', result, m, got, intact, gave⟩ := intact_getThrough flushed durable nothing rfl
  rw [get]
  rcases hf : q.flush d with ⟨d₁, q₁⟩
  simp only [hf] at flushed same got intact gave ⊢
  subst same
  rw [got]
  exact ⟨d₁, q', result, m, rfl, intact, ⟨gave.passed.folder, gave.passed.maxSize,
    gave.passed.isOpen.trans still, gave.passed.lastAck⟩, gave.reached, gave.listed, gave.upTo,
    gave.answer, gave.lastRead⟩

end Outbox.Queue
