import Outbox.Proofs.Queue.Layout

/-!
# Putting

Whatever the writer does, it adds some records to the last segment: one record when something is put,
and none when the buffer is handed to the disk. A new segment begins where the records end.

* `put_eq` is what a put changes in any queue;
* `Intact.wrote` is the law of the writer;
* `intact_flush`, `intact_roll`, `intact_put`, `intact_put_large` and `intact_close` are the operations.
-/

namespace Outbox.Queue

variable {α : Type} [Storable α] {d : Disk} {q : Queue} {ids : List Nat}
  {records : List (Record α)}

theorem held_of_writer {w : SegmentWriter} (h : q.writer = some w) (file : Nat) :
    q.held file = if w.file = file then w.buffer else [] := by
  rw [held, h]

/-- The last segment goes up to the end of the records. -/
theorem Intact.endOf_writer (h : q.Intact d ids records) {w : SegmentWriter}
    (hw : q.writer = some w) (top : Nat) : endOf ids top w.id = top :=
  endOf_eq_top (h.writer w hw).2.1

/-- The writer's file is the last segment's alone. -/
theorem Intact.id_eq_of_file (h : q.Intact d ids records) {w : SegmentWriter}
    (hw : q.writer = some w) {id : Nat}
    (found : d.lookup? (q.folder ++ [segmentName id]) = some (.file w.file)) : id = w.id :=
  segmentName_inj (h.tidy.single found (h.writer w hw).2.2.1)

theorem Intact.file_lt (h : q.Intact d ids records) {w : SegmentWriter} (hw : q.writer = some w) :
    w.file < d.contents.length :=
  h.tidy.bounded (h.writer w hw).2.2.1

/-- The acknowledged version has a file of its own. -/
theorem Intact.ackFile_ne (h : q.Intact d ids records) {w : SegmentWriter} (hw : q.writer = some w) :
    q.ackFile ≠ w.file := fun same =>
  segmentName_ne_ackName w.id (h.tidy.single (h.writer w hw).2.2.1 (same ▸ h.ackFile))

/-- The queue after its writer has written. -/
def written (q : Queue) (w : SegmentWriter) (lastPut : Nat) : Queue :=
  { q with writer := some w, lastPut := lastPut }

section written

variable {w w' : SegmentWriter} {d' : Disk} {bytes : List UInt8}

theorem text_written_last (hw : q.writer = some w) (wrote : w.Wrote d bytes d' w') (lastPut : Nat) :
    (q.written w' lastPut).text d' w.file = q.text d w.file ++ bytes := by
  simpa [Queue.text, held, written, hw, wrote.file, SegmentWriter.text] using wrote.text

theorem text_written_other (hw : q.writer = some w) (wrote : w.Wrote d bytes d' w') (lastPut : Nat)
    {file : Nat} (ne : file ≠ w.file) : (q.written w' lastPut).text d' file = q.text d file := by
  simp [Queue.text, held, written, hw, wrote.file, Ne.symm ne, wrote.only.other ne]

end written

/-- What a segment holds from some record on, it holds after the writer has written, and the last
segment holds the new records as well. -/
theorem Intact.text_written (h : q.Intact d ids records) {w w' : SegmentWriter}
    (hw : q.writer = some w) {d' : Disk} {more : List (Record α)}
    (wrote : w.Wrote d (framed more) d' w') (lastPut : Nat) {id a k file : Nat} (member : id ∈ ids)
    (found : d.lookup? (q.folder ++ [segmentName id]) = some (.file file))
    (bound : a ≤ endOf ids (records.length + 1) id) (short : k ≤ (q.text d file).length)
    (text : (q.text d file).drop k =
      framed (between records a (endOf ids (records.length + 1) id))) :
    ((q.written w' lastPut).text d' file).drop k =
      framed (between (records ++ more) a (endOf ids ((records ++ more).length + 1) id)) := by
  obtain ⟨listed, last, place, -⟩ := h.writer w hw
  by_cases same : id = w.id
  · subst same
    obtain rfl : file = w.file := by simpa [found] using place
    rw [h.endOf_writer hw] at bound text ⊢
    rw [text_written_last hw wrote, List.drop_append_of_le_length short, text, List.length_append,
      between_top bound, framed_append]
  · have ne : file ≠ w.file := by
      rintro rfl
      exact same (h.id_eq_of_file hw found)
    have before : id < w.id := Nat.lt_of_le_of_ne (last id member) same
    have within : endOf ids (records.length + 1) id ≤ records.length + 1 := endOf_le h.le_top
    have same_end : endOf ids ((records ++ more).length + 1) id =
        endOf ids (records.length + 1) id := endOf_of_later listed before _
    rw [text_written_other hw wrote _ ne, same_end, between_of_le within, text]

/-- **The law of the writer.** Where it writes the frames of more records, those records are put. -/
theorem Intact.wrote (h : q.Intact d ids records) {w w' : SegmentWriter} (hw : q.writer = some w)
    {d' : Disk} {more : List (Record α)} (wrote : w.Wrote d (framed more) d' w')
    (size : w'.size = w.size + (framed more).length) (filed : Filed (records ++ more)) :
    (q.written w' (records.length + more.length)).Intact d' ids (records ++ more) := by
  obtain ⟨listed, last, place, measured⟩ := h.writer w hw
  have length : (records ++ more).length = records.length + more.length := List.length_append
  have lookup (p : Place) : d'.lookup? p = d.lookup? p := wrote.only.lookup? p
  have grows {file : Nat} : d.read file <+: d'.read file := by
    by_cases same : file = w.file
    · exact same ▸ wrote.grows
    · exact ⟨[], by rw [List.append_nil, wrote.only.other same]⟩
  have end_le {id : Nat} : endOf ids (records.length + 1) id ≤
      endOf ids ((records ++ more).length + 1) id := by
    rw [endOf, endOf]
    cases ids.filter (id < ·) <;> simp
  refine ⟨h.tidy.onlyChanges wrote.only, filed, length.symm, ?_, ?_, ?_, ?_, h.table, h.ordered,
    h.one_le, ?_, h.small, h.covers, ?_, ?_, ?_, ?_⟩
  · have := h.lastRead
    rw [length]
    exact Nat.le_add_right_of_le this
  · have := h.lastAck
    rw [length]
    exact Nat.le_add_right_of_le this
  · exact (lookup _).trans h.ackFile
  · show versionIn (d'.read q.ackFile) = q.lastAck
    rw [wrote.only.other (h.ackFile_ne hw), h.acked]
  · intro id member
    have := h.le_top id member
    omega
  · intro name e found
    exact h.only ((lookup _).symm.trans found)
  · intro id member
    obtain ⟨file, found, text⟩ := h.stored id member
    refine ⟨file, (lookup _).trans found, ?_⟩
    exact h.text_written (k := 0) hw wrote _ member found (le_endOf ids (h.le_top id member))
      (Nat.zero_le _) text
  · intro w'' hw''
    obtain rfl : w' = w'' := by simpa [written] using hw''
    rw [wrote.id, wrote.file]
    refine ⟨listed, last, (lookup _).trans place, ?_⟩
    rw [text_written_last hw wrote, List.length_append, size, measured]
  · obtain ⟨m, reading, bound⟩ := h.reading
    refine ⟨m, ⟨reading.listed, reading.first, Nat.le_trans reading.last end_le, reading.unopened, ?_⟩,
      bound⟩
    intro r hr
    obtain ⟨file, k, found, opened, at_k, text⟩ := reading.opened r hr
    have short : k ≤ (q.text d file).length := by
      have used := at_k.used
      have within := at_k.within
      rw [Queue.text, List.length_append]
      simp only at used within
      omega
    exact ⟨file, k, (lookup _).trans found, opened, at_k.grows grows,
      h.text_written hw wrote _ reading.listed found reading.last short text⟩

/-- The writer may hand over what it holds back at any time. -/
theorem Intact.handed (h : q.Intact d ids records) {w w' : SegmentWriter} (hw : q.writer = some w)
    {d' : Disk} (wrote : w.Wrote d [] d' w') (size : w'.size = w.size) :
    Intact d' { q with writer := some w' } ids records := by
  have filed : Filed (records ++ []) := by simpa using h.filed
  have same : q.written w' (records.length + 0) = { q with writer := some w' } := by
    rw [written, Nat.add_zero, ← h.lastPut]
  have nothing : w.Wrote d (framed ([] : List (Record α))) d' w' := wrote
  have := h.wrote hw nothing (by simpa using size) filed
  rwa [List.length_nil, same, List.append_nil] at this

/-! ## The operations -/

/-- Flushing changes no more than the writer. -/
theorem flush_eq (d : Disk) (q : Queue) :
    ∃ writer, (q.flush d).2 = { q with writer := writer } ∧ writer.isSome = q.writer.isSome := by
  unfold flush
  split
  · next none_open => exact ⟨none, by rw [← none_open], by rw [none_open]⟩
  · next w open_ => exact ⟨some (w.flush d).2, rfl, by rw [open_]; rfl⟩

@[simp] theorem folder_flush (d : Disk) (q : Queue) : (q.flush d).2.folder = q.folder := by
  obtain ⟨writer, same, -⟩ := flush_eq d q
  rw [same]

theorem segments_flush (d : Disk) (q : Queue) : (q.flush d).2.segments = q.segments := by
  obtain ⟨writer, same, -⟩ := flush_eq d q
  rw [same]

theorem ackFile_flush (d : Disk) (q : Queue) : (q.flush d).2.ackFile = q.ackFile := by
  obtain ⟨writer, same, -⟩ := flush_eq d q
  rw [same]

theorem lastPut_flush (d : Disk) (q : Queue) : (q.flush d).2.lastPut = q.lastPut := by
  obtain ⟨writer, same, -⟩ := flush_eq d q
  rw [same]

theorem lastAck_flush (d : Disk) (q : Queue) : (q.flush d).2.lastAck = q.lastAck := by
  obtain ⟨writer, same, -⟩ := flush_eq d q
  rw [same]

theorem lastRead_flush (d : Disk) (q : Queue) : (q.flush d).2.lastRead = q.lastRead := by
  obtain ⟨writer, same, -⟩ := flush_eq d q
  rw [same]

theorem isOpen_flush (d : Disk) (q : Queue) : (q.flush d).2.writer.isSome = q.writer.isSome := by
  obtain ⟨writer, same, still⟩ := flush_eq d q
  rw [same, still]

/-- A new segment changes the table and the writer. -/
theorem roll_eq (d : Disk) (q : Queue) (id : Nat) :
    ∃ segments writer, (q.roll d id).queue = { q with segments := segments, writer := writer } := by
  obtain ⟨writer, flushed, -⟩ := flush_eq d q
  unfold roll
  generalize q.flush d = r at flushed ⊢
  obtain ⟨d₁, q₁⟩ := r
  obtain rfl : q₁ = _ := flushed
  dsimp only
  split <;> exact ⟨_, _, rfl⟩

theorem rollFor_eq (d : Disk) (q : Queue) (w : SegmentWriter) (id bytes : Nat) :
    ∃ segments writer,
      (q.rollFor d w id bytes).queue = { q with segments := segments, writer := writer } := by
  unfold rollFor
  split
  · exact roll_eq d q id
  · exact ⟨_, _, rfl⟩

theorem append_eq (d : Disk) (q : Queue) (payload : List UInt8) :
    ∃ writer, (q.append d payload).queue = { q with writer := writer } := by
  unfold append
  split <;> exact ⟨_, rfl⟩

/-- A put changes the table and the writer, and puts one record or none. -/
theorem put_eq (d : Disk) (q : Queue) (now : Int) (obj : α) :
    ∃ segments writer lastPut, (lastPut = q.lastPut ∨ lastPut = q.lastPut + 1) ∧
      (q.put d now obj).queue =
        { q with segments := segments, writer := writer, lastPut := lastPut } := by
  unfold put
  cases q.writer with
  | none => exact ⟨_, _, _, .inl rfl, rfl⟩
  | some w =>
    obtain ⟨segments, writer, rolled⟩ := rollFor_eq d q w (q.lastPut + 1)
      (Frame.size (Record.payload ⟨obj, q.lastPut + 1, now⟩))
    dsimp only
    split
    · next same =>
      rw [same] at rolled
      exact ⟨segments, writer, q.lastPut, .inl rfl, rolled⟩
    · next d₁ q₁ same =>
      rw [same] at rolled
      obtain rfl : q₁ = _ := rolled
      obtain ⟨writer', appended⟩ := append_eq d₁ { q with segments := segments, writer := writer }
        (Record.payload ⟨obj, q.lastPut + 1, now⟩)
      split
      · next same =>
        rw [same] at appended
        exact ⟨segments, writer', q.lastPut, .inl rfl, appended⟩
      · next same =>
        rw [same] at appended
        obtain rfl := appended
        exact ⟨segments, writer', q.lastPut + 1, .inr rfl, rfl⟩

/-- Nothing is held back after a flush, and the records are the same. -/
theorem intact_flush (h : q.Intact d ids records) :
    (q.flush d).2.Intact (q.flush d).1 ids records ∧ ∀ file, (q.flush d).2.held file = [] := by
  unfold flush
  split
  · next none_open => exact ⟨h, fun file => by rw [held, none_open]⟩
  · next w hw =>
    have wrote := SegmentWriter.wrote_flush (h.file_lt hw)
    have size : (w.flush d).2.size = w.size := by
      unfold SegmentWriter.flush
      split <;> rfl
    refine ⟨h.handed hw wrote size, ?_⟩
    intro file
    rw [held_of_writer rfl, SegmentWriter.buffer_flush, ite_self]

/-- A record more is appended to the last segment. -/
theorem intact_append (h : q.Intact d ids records) {w : SegmentWriter} (hw : q.writer = some w)
    {r : Record α} (filed : Filed (records ++ [r])) :
    ∃ d' w', w.put d r.payload = (d', w', .ok ()) ∧
      (q.written w' (records.length + 1)).Intact d' ids (records ++ [r]) := by
  obtain ⟨d', w', put, wrote, size⟩ := SegmentWriter.wrote_put (h.file_lt hw) (filed.sized r (by simp)).fits
  refine ⟨d', w', put, ?_⟩
  have text : framed [r] = Frame.write r.payload := by simp
  have one : w.Wrote d (framed [r]) d' w' := by
    rw [text]
    exact wrote
  exact h.wrote hw one (by rw [text, Frame.length_write, size]) filed

/-- Adding a segment behind all others. -/
theorem set_concat {ids : List Nat} {id : Nat} (later : ∀ id' ∈ ids, id' < id) :
    SegmentTable.set (ids.map fun id => (id, segmentName id)) id (segmentName id) =
      (ids ++ [id]).map fun id => (id, segmentName id) := by
  induction ids with
  | nil => rfl
  | cons first ids ih =>
    have before := later first List.mem_cons_self
    rw [List.map_cons, SegmentTable.set, if_neg (by omega), if_neg (by omega),
      ih fun id' member => later id' (List.mem_cons_of_mem _ member)]
    rfl

/-- A new file for a segment. It is empty, so cutting it changes nothing. -/
theorem openAt_new {folder : Place} {id : Nat} (tidy : d.Tidy folder) (small : id < UInt64.size)
    (free : d.lookup? (folder ++ [segmentName id]) = none) :
    ∃ d', d.create? (folder ++ [segmentName id]) = some (d', d.contents.length) ∧
      SegmentWriter.openAt d folder id 0 = (d', .ok ⟨id, d.contents.length, [], 0⟩) ∧
      d'.Tidy folder ∧ (∀ file, d'.read file = d.read file) ∧
      ∀ other, d'.lookup? (folder ++ [other]) =
        if other = segmentName id then some (.file d.contents.length)
        else d.lookup? (folder ++ [other]) := by
  obtain ⟨d', created, tidy', -, reads, lookups⟩ := tidy.create (isName_segmentName small) free
  refine ⟨d', created, ?_, tidy', reads, lookups⟩
  have empty : (d'.read d.contents.length).take 0 = d'.read d.contents.length := by
    rw [reads, Disk.read_of_le (Nat.le_refl _), List.take_nil]
  simp only [SegmentWriter.openAt, created, empty, Disk.update_read]

/-- There is no segment behind all others. -/
theorem Intact.lookup?_next (h : q.Intact d ids records) (later : ∀ id ∈ ids, id < records.length + 1)
    (small : records.length + 1 < UInt64.size) :
    d.lookup? (q.folder ++ [segmentName (records.length + 1)]) = none := by
  cases found : d.lookup? (q.folder ++ [segmentName (records.length + 1)]) with
  | none => rfl
  | some e =>
    obtain none_such | ⟨id, member, named⟩ := h.only found
    · rw [segmentId?_segmentName small] at none_such
      cases none_such
    · have := later id member
      have := segmentName_inj named
      omega

/-- **A new segment begins where the records end.** -/
theorem intact_begin (h : q.Intact d ids records) (nothing : ∀ file, q.held file = [])
    (later : ∀ id ∈ ids, id < records.length + 1) (small : records.length + 1 < UInt64.size) :
    ∃ d', d.create? (q.folder ++ [segmentName (records.length + 1)]) = some (d', d.contents.length) ∧
      SegmentWriter.openAt d q.folder (records.length + 1) 0 =
        (d', .ok ⟨records.length + 1, d.contents.length, [], 0⟩) ∧
      Intact d' { q with
        segments := q.segments.set (records.length + 1) (segmentName (records.length + 1))
        writer := some ⟨records.length + 1, d.contents.length, [], 0⟩ } (ids ++ [records.length + 1])
        records := by
  have free := h.lookup?_next later small
  obtain ⟨d', created, opened, tidy, reads, lookups⟩ := openAt_new h.tidy small free
  have empty : d'.read d.contents.length = [] := by rw [reads, Disk.read_of_le (Nat.le_refl _)]
  refine ⟨d', created, opened, ?_⟩
  generalize hq : ({ q with
    segments := q.segments.set (records.length + 1) (segmentName (records.length + 1))
    writer := some ⟨records.length + 1, d.contents.length, [], 0⟩ } : Queue) = q'
  have held (file : Nat) : q'.held file = [] := by simp [← hq, Queue.held]
  -- what was there stays there
  have lookup_old {id : Nat} (member : id ∈ ids) :
      d'.lookup? (q.folder ++ [segmentName id]) = d.lookup? (q.folder ++ [segmentName id]) := by
    have other : segmentName id ≠ segmentName (records.length + 1) := fun same => by
      have := later id member
      have := segmentName_inj same
      omega
    rw [lookups, if_neg other]
  have text_old {name : String} {file : Nat}
      (found : d.lookup? (q.folder ++ [name]) = some (.file file)) :
      d'.read file = d.read file ∧ q'.text d' file = q.text d file := by
    exact ⟨reads file, by rw [Queue.text, Queue.text, reads, held, nothing]⟩
  have end_old {id : Nat} (member : id ∈ ids) :
      endOf (ids ++ [records.length + 1]) (records.length + 1) id = endOf ids (records.length + 1) id :=
    endOf_concat (later id member) _
  have below : ∀ id ∈ ids ++ [records.length + 1], id ≤ records.length + 1 :=
    List.forall_mem_append.2 ⟨fun id member => Nat.le_of_lt (later id member),
      List.forall_mem_singleton.2 (Nat.le_refl _)⟩
  subst hq
  refine ⟨tidy, h.filed, h.lastPut, h.lastRead, h.lastAck, ?_, ?_, ?_, ?_, ?_, ?_, ?_, ?_, ?_, ?_, ?_, ?_⟩
  · show d'.lookup? (q.folder ++ [ackName]) = _
    rw [lookups, if_neg (segmentName_ne_ackName _).symm, h.ackFile]
  · show versionIn (d'.read q.ackFile) = q.lastAck
    rw [(text_old h.ackFile).1, h.acked]
  · show SegmentTable.set q.segments _ _ = _
    rw [h.table, set_concat later]
  · rw [List.pairwise_append]
    refine ⟨h.ordered, List.pairwise_singleton .., ?_⟩
    intro id member id' new
    rw [List.mem_singleton.1 new]
    exact later id member
  · exact List.forall_mem_append.2 ⟨h.one_le, List.forall_mem_singleton.2 (Nat.le_add_left 1 _)⟩
  · exact below
  · exact List.forall_mem_append.2 ⟨h.small, List.forall_mem_singleton.2 small⟩
  · obtain ⟨id, member, covers⟩ := h.covers
    exact ⟨id, List.mem_append_left _ member, covers⟩
  · intro name e found
    have found' := (lookups name).symm.trans found
    split at found'
    · next named => exact .inr ⟨_, by simp, named⟩
    · obtain none_such | ⟨id, member, named⟩ := h.only found'
      · exact .inl none_such
      · exact .inr ⟨id, List.mem_append_left _ member, named⟩
  · intro id member
    rcases List.mem_append.1 member with old | new
    · obtain ⟨file, found, text⟩ := h.stored id old
      exact ⟨file, (lookup_old old).trans found, by rw [(text_old found).2, text, end_old old]⟩
    · obtain rfl := List.mem_singleton.1 new
      refine ⟨d.contents.length, ?_, ?_⟩
      · exact (lookups _).trans (if_pos rfl)
      · rw [Queue.text, empty, held, between_eq_nil, framed_nil, List.append_nil]
        exact endOf_le below
  · rintro w' ⟨⟩
    refine ⟨by simp, below, (lookups _).trans (if_pos rfl), ?_⟩
    rw [Queue.text, empty, held]
    rfl
  · obtain ⟨m, reading, bound⟩ := h.reading
    exact ⟨m, reading.kept rfl rfl rfl (List.mem_append_left _ reading.listed)
      (end_old reading.listed) (lookup_old reading.listed) text_old, bound.concat reading.listed later⟩

/-- The last segment goes up to here, so another one can begin: there are records in it. -/
theorem Intact.lt_of_size_pos (h : q.Intact d ids records) {w : SegmentWriter}
    (hw : q.writer = some w) (begun : 0 < w.size) : ∀ id ∈ ids, id < records.length + 1 := by
  obtain ⟨listed, last, place, measured⟩ := h.writer w hw
  have below : w.id < records.length + 1 := by
    refine Nat.lt_of_le_of_ne (h.le_top w.id listed) fun none_in => ?_
    obtain ⟨file, found, text⟩ := h.stored w.id listed
    obtain rfl : w.file = file := by simpa [place] using found
    rw [h.endOf_writer hw, between_eq_nil (by omega), framed_nil] at text
    rw [measured, text] at begun
    exact absurd begun (Nat.lt_irrefl 0)
  exact fun id member => Nat.lt_of_le_of_lt (last id member) below

/-- Rolling begins a new segment. -/
theorem intact_roll (h : q.Intact d ids records) (later : ∀ id ∈ ids, id < records.length + 1)
    (small : records.length + 1 < UInt64.size) :
    ∃ d' segments w', q.roll d (records.length + 1) =
        ⟨d', { q with segments := segments, writer := some w' }, .ok ()⟩ ∧
      Intact d' { q with segments := segments, writer := some w' } (ids ++ [records.length + 1])
        records := by
  obtain ⟨flushed, nothing⟩ := intact_flush h
  obtain ⟨writer, same, -⟩ := flush_eq d q
  unfold roll
  rcases hf : q.flush d with ⟨d₁, q₁⟩
  simp only [hf] at flushed nothing same
  subst same
  obtain ⟨d', -, opened, intact⟩ := intact_begin flushed nothing later small
  exact ⟨d', _, _, by simp only [opened], intact⟩

/-- The segments when so many bytes are to be put: a new one is begun, unless the last one holds nothing
or has room for them. -/
inductive Room (q : Queue) (w : SegmentWriter) (ids : List Nat) (id bytes : Nat) : List Nat → Prop
  | left : w.size = 0 ∨ w.size + bytes ≤ q.maxSize → Room q w ids id bytes ids
  | begun : Room q w ids id bytes (ids ++ [id])

/-- A new segment is begun or not, and the records are the same. -/
theorem intact_rollFor (h : q.Intact d ids records) {w : SegmentWriter} (hw : q.writer = some w)
    (small : records.length + 1 < UInt64.size) (bytes : Nat) :
    ∃ d' segments w' ids', q.rollFor d w (records.length + 1) bytes =
        ⟨d', { q with segments := segments, writer := some w' }, .ok ()⟩ ∧
      Room q w ids (records.length + 1) bytes ids' ∧
      Intact d' { q with segments := segments, writer := some w' } ids' records := by
  unfold rollFor
  split
  · next full =>
    obtain ⟨d', segments, w', rolled, intact⟩ := intact_roll h (h.lt_of_size_pos hw full.1) small
    exact ⟨d', segments, w', _, rolled, .begun, intact⟩
  · exact ⟨d, q.segments, w, ids, by rw [← hw], .left (by omega), by rw [← hw]; exact h⟩

/-- **Putting adds a record.** It gets the next version. -/
theorem intact_put (h : q.Intact d ids records) {w : SegmentWriter} (hw : q.writer = some w)
    {now : Int} {obj : α} (sized : Record.Sized ⟨obj, records.length + 1, now⟩) :
    ∃ d' segments w' ids', q.put d now obj = ⟨d', { q with
        segments := segments
        writer := some w'
        lastPut := records.length + 1 }, .ok (records.length + 1)⟩ ∧
      Room q w ids (records.length + 1)
        (Frame.size (Record.payload ⟨obj, records.length + 1, now⟩)) ids' ∧
      Intact d' { q with segments := segments, writer := some w', lastPut := records.length + 1 } ids'
        (records ++ [⟨obj, records.length + 1, now⟩]) := by
  have filed := h.filed.concat rfl sized
  obtain ⟨d₁, segments, w₁, ids', rolled, room, between⟩ := intact_rollFor h hw sized.version_lt
    (Frame.size (Record.payload ⟨obj, records.length + 1, now⟩))
  obtain ⟨d₂, w₂, written, intact⟩ := intact_append between rfl filed
  refine ⟨d₂, segments, w₂, ids', ?_, room, intact⟩
  simp only [put, hw, h.lastPut, rolled, append, written]

/-- **What is too large for a frame is refused**, and the records are the same. -/
theorem intact_put_large (h : q.Intact d ids records) {w : SegmentWriter} (hw : q.writer = some w)
    (small : records.length + 1 < UInt64.size) {now : Int} {obj : α}
    (large : UInt32.size ≤ (Record.payload ⟨obj, records.length + 1, now⟩).length) :
    ∃ d' segments w' ids' length, q.put d now obj = ⟨d', { q with
        segments := segments
        writer := some w' }, .error (.badFrame (segmentName w'.id) w'.size (.tooLarge length))⟩ ∧
      Room q w ids (records.length + 1)
        (Frame.size (Record.payload ⟨obj, records.length + 1, now⟩)) ids' ∧
      Intact d' { q with segments := segments, writer := some w' } ids' records := by
  obtain ⟨d', segments, w', ids', rolled, room, intact⟩ := intact_rollFor h hw small
    (Frame.size (Record.payload ⟨obj, records.length + 1, now⟩))
  refine ⟨d', segments, w', ids', (Record.payload ⟨obj, records.length + 1, now⟩).length, ?_, room,
    intact⟩
  simp only [put, hw, h.lastPut, rolled, append, SegmentWriter.put, if_neg (Nat.not_lt_of_le large)]

/-- Closing lets the writer and the reader go. -/
theorem intact_close (h : q.Intact d ids records) : (q.close d).2.Intact (q.close d).1 ids records := by
  obtain ⟨flushed, nothing⟩ := intact_flush h
  unfold close
  split
  next d' q' eq =>
  simp only [eq] at flushed nothing
  have text (file : Nat) : ({ q' with writer := none, reader := none } : Queue).text d' file =
      q'.text d' file := by
    rw [Queue.text, Queue.text, nothing]
    rfl
  refine ⟨flushed.tidy, flushed.filed, flushed.lastPut, flushed.lastRead, flushed.lastAck,
    flushed.ackFile, flushed.acked, flushed.table, flushed.ordered, flushed.one_le, flushed.le_top,
    flushed.small, flushed.covers, flushed.only, ?_, by simp, ?_⟩
  · intro id member
    obtain ⟨file, found, stored⟩ := flushed.stored id member
    exact ⟨file, found, (text file).trans stored⟩
  · obtain ⟨m, reading, bound⟩ := flushed.reading
    have first := reading.first
    exact ⟨q'.readId - 1, reading_start d' rfl reading.listed (flushed.one_le _ reading.listed)
      (flushed.le_top _ reading.listed), bound.mono (by omega)⟩

end Outbox.Queue
