import Outbox.Proofs.Queue.Snapshots

/-!
# What a killed process leaves behind

Only the last segment is ever written to, and only at its end. So whatever part of what was on its way
reached the disk, the segments hold the records up to some version, and at most a torn end.

* `Intact.remains_of_cut` is this for one file that was written in part;
* `StoredQueue.Secures` says which records cannot be lost any more, and `StoredQueue.Keeps` that a
  process can be killed without losing them;
* `Secures.put`, `Secures.get`, `Secures.ack` and `Secures.flush` are the actions: at every moment of
  them the records are kept, and at the end they are secured again.
-/

namespace Outbox

variable {α : Type} [Storable α]

/-- A segment that begins with record `a` was written in part: it holds the records up to some version,
and a torn end. -/
theorem framed_between_cut {records : List (Record α)} (sized : ∀ r ∈ records, r.Sized) {a n : Nat}
    (one : 1 ≤ a) (top : a ≤ records.length + 1) (known : n ≤ records.length) {bytes : List UInt8}
    (least : framed (between records a (n + 1)) <+: bytes)
    (most : bytes <+: framed (between records a (records.length + 1))) :
    ∃ k torn, n ≤ k ∧ a ≤ k + 1 ∧ k ≤ records.length ∧ Frame.Torn torn ∧
      bytes = framed (between records a (k + 1)) ++ torn := by
  rw [← take_between one (by omega : n + 1 ≤ records.length + 1)] at least
  obtain ⟨j, torn, atLeast, atMost, isTorn, rfl⟩ :=
    framed_cut (fun r member => sized r (mem_of_mem_between member)) least most
  rw [length_between (Nat.le_refl _)] at atLeast atMost
  have upTo : a + j = a - 1 + j + 1 := by omega
  refine ⟨a - 1 + j, torn, by omega, by omega, by omega, isTorn, ?_⟩
  rw [← upTo, ← take_between one (by omega : a + j ≤ records.length + 1), Nat.add_sub_cancel_left]

namespace Queue

variable {d : Disk} {q : Queue} {ids : List Nat} {records : List (Record α)}

/-- **The last segment was written in part.** It held the records up to version `n` already, and some of
what was to come is there as well. Then the records up to some version are left. -/
theorem Intact.remains_of_cut (h : q.Intact d ids records) {w : SegmentWriter} (hw : q.writer = some w)
    {more : List (Record α)} (filed : Filed (records ++ more)) {n : Nat} (known : n ≤ records.length)
    (acked : q.lastAck ≤ n) {d' : Disk} (only : d.OnlyChanges d' w.file)
    (least : framed (between records w.id (n + 1)) <+: d'.read w.file)
    (most : d'.read w.file <+: q.text d w.file ++ framed more) :
    ∃ k, n ≤ k ∧ k ≤ (records ++ more).length ∧
      Remains d' q.folder ids ((records ++ more).take k) q.lastAck := by
  obtain ⟨listed, last, place, -⟩ := h.writer w hw
  have top := h.le_top w.id listed
  have length : (records ++ more).length = records.length + more.length := List.length_append
  -- all that the last segment will hold
  have text : q.text d w.file ++ framed more =
      framed (between (records ++ more) w.id ((records ++ more).length + 1)) := by
    obtain ⟨file, found, stored⟩ := h.stored w.id listed
    obtain rfl : file = w.file := by simpa [found] using place
    rw [stored, h.endOf_writer hw, length, between_top top, framed_append]
  rw [text] at most
  rw [← between_of_le (by omega) more] at least
  obtain ⟨k, torn, atLeast, begun, atMost, isTorn, content⟩ :=
    framed_between_cut filed.sized (h.one_le w.id listed) (by omega) (by omega) least most
  have whole : ((records ++ more).take k).length = k := List.length_take_of_le atMost
  have lookup (p : Place) : d'.lookup? p = d.lookup? p := only.lookup? p
  refine ⟨k, atLeast, atMost, h.tidy.onlyChanges only, filed.take k, by omega,
    ⟨q.ackFile, (lookup _).trans h.ackFile, ?_⟩, h.ordered, h.one_le, ?_, h.small, h.covers,
    fun found => h.only ((lookup _).symm.trans found), ?_⟩
  · rw [only.other (h.ackFile_ne hw), h.acked]
  · intro id member
    have := last id member
    omega
  · intro id member
    obtain ⟨file, found, stored⟩ := h.stored id member
    rw [whole]
    by_cases same : id = w.id
    · subst same
      obtain rfl : file = w.file := by simpa [found] using place
      refine ⟨w.file, torn, (lookup _).trans found, ?_, isTorn, ?_⟩
      · rw [h.endOf_writer hw, between_take (Nat.le_refl _), content]
      · intro id' member' later
        exact absurd (last id' member') (Nat.not_le_of_lt later)
    · have before : id < w.id := Nat.lt_of_le_of_ne (last id member) same
      have other : file ≠ w.file := fun eq => same (h.id_eq_of_file hw (eq ▸ found))
      have nothing : q.held file = [] := by rw [held_of_writer hw, if_neg (Ne.symm other)]
      -- a segment that has one behind it ends there
      have ends : endOf ids (k + 1) id = endOf ids (records.length + 1) id :=
        endOf_of_later listed before _
      have within : endOf ids (records.length + 1) id ≤ w.id := calc
        endOf ids (records.length + 1) id = endOf ids w.id id := endOf_of_later listed before _
        _ ≤ w.id := endOf_le last
      refine ⟨file, [], (lookup _).trans found, ?_, Frame.torn_nil, fun _ _ _ => rfl⟩
      rw [Queue.text, nothing, List.append_nil] at stored
      rw [only.other other, stored, ends, between_take (by omega), between_of_le (by omega),
        List.append_nil]

end Queue

/-! ## What is kept -/

namespace StoredQueue

/-- Whenever a process with this queue is killed, the records up to some version are left, at least
those up to version `n`. -/
def Keeps (s : StoredQueue) (folder : Place) (records : List (Record α)) (n : Nat) : Prop :=
  ∀ reached, ∃ ids k, n ≤ k ∧ k ≤ records.length ∧ s.queue.lastAck ≤ k ∧
    Remains (s.killed reached) folder ids (records.take k) s.queue.lastAck

/-- An open queue holds these records. Those up to version `n` are on the disk, among them all that were
read or acknowledged. -/
structure Secures (s : StoredQueue) (folder : Place) (ids : List Nat) (records : List (Record α))
    (n : Nat) : Prop where
  intact : s.queue.Intact s.disk ids records
  place : s.queue.folder = folder
  known : n ≤ records.length
  lastRead : s.queue.lastRead ≤ n
  lastAck : s.queue.lastAck ≤ n
  written : ∃ w, s.queue.writer = some w ∧ framed (between records w.id (n + 1)) <+: s.disk.read w.file

variable {s : StoredQueue} {folder : Place} {ids : List Nat} {records : List (Record α)} {n : Nat}

/-- Records that are put later do not matter. -/
theorem Keeps.more (h : s.Keeps folder records n) (more : List (Record α)) :
    s.Keeps folder (records ++ more) n := by
  intro reached
  obtain ⟨ids, k, least, most, acked, left⟩ := h reached
  refine ⟨ids, k, least, ?_, acked, ?_⟩
  · rw [List.length_append]
    exact Nat.le_add_right_of_le most
  · rwa [List.take_append_of_le_length most]

theorem killed_zero (s : StoredQueue) : s.killed 0 = s.disk := by
  unfold killed
  split
  · rfl
  · rw [List.take_zero, Disk.append, List.append_nil, Disk.update_read]

/-- Where nothing is held back, the disk is the same after the process was killed. -/
theorem killed_eq (nothing : ∀ file, s.queue.held file = []) (reached : Nat) :
    s.killed reached = s.disk := by
  unfold killed
  split
  · rfl
  · next w hw =>
    have empty := nothing w.file
    rw [Queue.held_of_writer hw, if_pos rfl] at empty
    rw [empty, List.take_nil, Disk.append, List.append_nil, Disk.update_read]

theorem keeps_of_remains (nothing : ∀ file, s.queue.held file = [])
    (left : Remains s.disk folder ids records s.queue.lastAck) : s.Keeps folder records records.length := by
  intro reached
  refine ⟨ids, records.length, Nat.le_refl _, Nat.le_refl _, left.known, ?_⟩
  rwa [killed_eq nothing, List.take_length]

/-- **While records are written, those that are secured are kept.** -/
theorem Secures.keeps_of_wrote (h : s.Secures folder ids records n) {w w' : SegmentWriter}
    (hw : s.queue.writer = some w) {more : List (Record α)} (filed : Filed (records ++ more))
    {d' : Disk} {bytes : List UInt8} (wrote : w.Wrote s.disk bytes d' w') (part : bytes <+: framed more) :
    Keeps ⟨d', { s.queue with writer := some w' }⟩ folder (records ++ more) n := by
  intro reached
  obtain ⟨_, same, secured⟩ := h.written
  obtain rfl := Option.some.inj (hw.symm.trans same)
  obtain rfl := h.place
  have old : w'.file < d'.contents.length := by
    rw [wrote.file, wrote.only.length]
    exact h.intact.file_lt hw
  have only : s.disk.OnlyChanges (d'.append w'.file (w'.buffer.take reached)) w.file :=
    wrote.only.trans (wrote.file ▸ .update ..)
  have content : (d'.append w'.file (w'.buffer.take reached)).read w.file =
      d'.read w.file ++ w'.buffer.take reached := by
    rw [← wrote.file, Disk.append, Disk.read_update_same old]
  have text : d'.read w.file ++ w'.buffer = w.text s.disk ++ bytes := by
    rw [← wrote.text, SegmentWriter.text, wrote.file]
  have held : s.queue.text s.disk w.file = w.text s.disk := by
    rw [Queue.text, Queue.held_of_writer hw, if_pos rfl, SegmentWriter.text]
  have atLeast : framed (between records w.id (n + 1)) <+:
      d'.read w.file ++ w'.buffer.take reached :=
    (secured.trans wrote.grows).trans (List.prefix_append _ _)
  have atMost : d'.read w.file ++ w'.buffer.take reached <+: w.text s.disk ++ framed more := by
    refine ((List.prefix_append_right_inj _).2 (List.take_prefix reached w'.buffer)).trans ?_
    rw [text]
    exact (List.prefix_append_right_inj _).2 part
  rw [← content] at atLeast atMost
  rw [← held] at atMost
  obtain ⟨k, least, most, left⟩ :=
    h.intact.remains_of_cut hw filed h.known h.lastAck only atLeast atMost
  exact ⟨ids, k, least, most, Nat.le_trans h.lastAck least, left⟩

/-- **What is secured is kept.** -/
theorem Secures.keeps (h : s.Secures folder ids records n) : s.Keeps folder records n := by
  obtain ⟨w, hw, -⟩ := h.written
  have filed : Filed (records ++ []) := by simpa using h.intact.filed
  have same : ({ s.queue with writer := some w } : Queue) = s.queue := by rw [← hw]
  have wrote : w.Wrote s.disk [] s.disk w := ⟨.refl .., List.prefix_refl _, by simp, rfl, rfl⟩
  have kept := h.keeps_of_wrote hw filed wrote (List.prefix_refl _)
  rwa [same, List.append_nil] at kept

/-- Where nothing is held back, all records are secured. -/
theorem secures_of_nothing_held (intact : s.queue.Intact s.disk ids records)
    (place : s.queue.folder = folder) (isOpen : s.queue.writer.isSome)
    (nothing : ∀ file, s.queue.held file = []) : s.Secures folder ids records records.length := by
  obtain ⟨w, hw⟩ := Option.isSome_iff_exists.1 isOpen
  refine ⟨intact, place, Nat.le_refl _, intact.lastRead, intact.lastAck, w, hw, ?_⟩
  obtain ⟨listed, -, found, -⟩ := intact.writer w hw
  obtain ⟨file, found', stored⟩ := intact.stored w.id listed
  obtain rfl : file = w.file := by simpa [found] using found'.symm
  rw [Queue.text_eq_read nothing, intact.endOf_writer hw] at stored
  exact ⟨[], by rw [List.append_nil, stored]⟩

/-! ## Flushing and reading -/

theorem Secures.flush (h : s.Secures folder ids records n) :
    Secures ⟨(s.queue.flush s.disk).1, (s.queue.flush s.disk).2⟩ folder ids records records.length := by
  obtain ⟨intact, nothing⟩ := Queue.intact_flush h.intact
  obtain ⟨w, hw, -⟩ := h.written
  have place := (Queue.folder_flush s.disk s.queue).trans h.place
  have isOpen : (s.queue.flush s.disk).2.writer.isSome := (Queue.isOpen_flush s.disk s.queue).trans (hw ▸ rfl)
  exact secures_of_nothing_held intact place isOpen nothing

/-- The reader does not touch the writer. -/
theorem writer_getThrough (d : Disk) (q : Queue) (later : List Nat) :
    (q.getThrough (α := α) d later).1.writer = q.writer := by
  induction later generalizing q with
  | nil =>
    unfold Queue.getThrough
    split
    · rfl
    · split <;> rfl
  | cons next rest ih =>
    unfold Queue.getThrough
    split
    · rfl
    · split
      · rfl
      · rfl
      · exact ih _

theorem Secures.get (h : s.Secures folder ids records n) (durable : ∀ r ∈ records, r.Durable) :
    Secures (s.call (.get : Call α)).1 folder ids records records.length := by
  have flushed := h.flush
  obtain ⟨-, nothing⟩ := Queue.intact_flush h.intact
  obtain ⟨q', result, m, got, intact, gave⟩ :=
    Queue.intact_getThrough flushed.intact durable nothing rfl
  have writer : q'.writer = (s.queue.flush s.disk).2.writer :=
    (congrArg (·.1.writer) got).symm.trans (writer_getThrough ..)
  have after : (s.call (.get : Call α)).1 = ⟨(s.queue.flush s.disk).1, q'⟩ := by
    simp only [call, after, Queue.get, got]
  obtain ⟨w, hw, -⟩ := flushed.written
  rw [after]
  refine secures_of_nothing_held intact (gave.passed.folder.trans flushed.place) ?_ ?_
  · show q'.writer.isSome
    rw [writer, hw]
    rfl
  · intro file
    show q'.held file = []
    rw [Queue.held, writer]
    exact nothing file

/-! ## Putting -/

/-- **While a new segment is begun, all records are kept.** -/
theorem Secures.roll (h : s.Secures folder ids records n)
    (later : ∀ id ∈ ids, id < records.length + 1) (small : records.length + 1 < UInt64.size) :
    (∀ s' ∈ s.queue.rolling s.disk (records.length + 1), s'.Keeps folder records records.length) ∧
      ∃ d' q' ids', s.queue.roll s.disk (records.length + 1) = ⟨d', q', .ok ()⟩ ∧
        Secures ⟨d', q'⟩ folder ids' records records.length := by
  obtain ⟨intact, nothing⟩ := Queue.intact_flush h.intact
  have flushed := h.flush
  have place := h.place
  obtain ⟨writer, same, -⟩ := Queue.flush_eq s.disk s.queue
  unfold Queue.rolling Queue.roll
  rcases hf : s.queue.flush s.disk with ⟨d₁, q₁⟩
  simp only [hf] at intact nothing flushed same
  have place₁ : q₁.folder = s.queue.folder := by rw [same]
  obtain ⟨d₂, created, opened, intact₂⟩ := Queue.intact_begin intact nothing later small
  rw [place₁] at created opened
  generalize hq : ({ q₁ with
    segments := q₁.segments.set (records.length + 1) (segmentName (records.length + 1))
    writer := some ⟨records.length + 1, d₁.contents.length, [], 0⟩ } : Queue) = q₂ at intact₂
  have nothing₂ (file : Nat) : q₂.held file = [] := by simp [← hq, Queue.held]
  have place₂ : q₂.folder = folder := by rw [← hq, ← place, ← place₁]
  have left : Remains d₂ folder (ids ++ [records.length + 1]) records q₁.lastAck := by
    have left := intact₂.remains nothing₂
    rwa [place₂, ← hq] at left
  have secured : Secures ⟨d₂, q₂⟩ folder (ids ++ [records.length + 1]) records records.length :=
    secures_of_nothing_held intact₂ place₂ (by rw [← hq]; rfl) nothing₂
  simp only [created, opened, hq]
  refine ⟨?_, d₂, q₂, _, rfl, secured⟩
  intro s' member
  simp only [List.mem_cons, List.not_mem_nil, or_false] at member
  rcases member with rfl | rfl | rfl
  · exact flushed.keeps
  · exact keeps_of_remains nothing left
  · exact secured.keeps

/-- A new segment is begun if it has to be. -/
theorem Secures.rollFor (h : s.Secures folder ids records n) {w : SegmentWriter}
    (hw : s.queue.writer = some w) (small : records.length + 1 < UInt64.size) (bytes : Nat)
    {n' : Nat} (hn : n' = if s.queue.rollsFor bytes then records.length else n) :
    (∀ s' ∈ s.queue.rollingFor s.disk w (records.length + 1) bytes, s'.Keeps folder records n') ∧
      ∃ d' q' ids', s.queue.rollFor s.disk w (records.length + 1) bytes = ⟨d', q', .ok ()⟩ ∧
        Secures ⟨d', q'⟩ folder ids' records n' := by
  have rolls : s.queue.rollsFor bytes = decide (0 < w.size ∧ s.queue.maxSize < w.size + bytes) := by
    rw [Queue.rollsFor, hw]
    rfl
  unfold Queue.rollingFor Queue.rollFor
  by_cases full : 0 < w.size ∧ s.queue.maxSize < w.size + bytes
  · rw [rolls, decide_eq_true full, if_pos rfl] at hn
    subst hn
    rw [if_pos full, if_pos full]
    exact h.roll (h.intact.lt_of_size_pos hw full.1) small
  · rw [rolls, decide_eq_false full, if_neg Bool.false_ne_true] at hn
    subst hn
    rw [if_neg full, if_neg full]
    exact ⟨fun s' member => absurd member List.not_mem_nil, s.disk, s.queue, ids, rfl, h⟩

end StoredQueue

namespace SegmentWriter

variable {d : Disk} {w : SegmentWriter}

/-- While bytes are written, a part of them is. -/
theorem wrote_writing (h : w.file < d.contents.length) (bytes : List UInt8) :
    ∀ s ∈ w.writing d bytes, ∃ part, part <+: bytes ∧ w.Wrote d part s.1 s.2 := by
  have room := wrote_makeRoom h bytes.length
  have all := wrote_write h bytes
  unfold writing
  rcases hm : w.makeRoom d bytes.length with ⟨d', w'⟩
  rw [hm] at room
  have held := room.trans (wrote_hold d' w' bytes)
  intro s member
  simp only [List.mem_cons, List.not_mem_nil, or_false] at member
  rcases member with rfl | rfl | rfl
  · exact ⟨[], List.nil_prefix, room⟩
  · exact ⟨bytes, List.prefix_refl _, held⟩
  · exact ⟨bytes, List.prefix_refl _, all⟩

theorem wrote_writingAll (h : w.file < d.contents.length) (pieces : List (List UInt8)) :
    ∀ s ∈ w.writingAll d pieces, ∃ part, part <+: pieces.flatten ∧ w.Wrote d part s.1 s.2 := by
  induction pieces generalizing d w with
  | nil => exact fun s member => absurd member List.not_mem_nil
  | cons piece rest ih =>
    have first := wrote_write h piece
    intro s member
    rw [writingAll, List.mem_append] at member
    rcases member with now | next
    · obtain ⟨part, isPart, wrote⟩ := wrote_writing h piece s now
      exact ⟨part, isPart.trans (List.prefix_append _ _), wrote⟩
    · rcases hw : w.write d piece with ⟨d', w'⟩
      rw [hw] at first next
      have h' : w'.file < d'.contents.length := by rw [first.file, first.only.length]; exact h
      obtain ⟨part, isPart, wrote⟩ := ih h' s next
      exact ⟨piece ++ part, (List.prefix_append_right_inj _).2 isPart, first.trans wrote⟩

end SegmentWriter

namespace StoredQueue

variable {s : StoredQueue} {folder : Place} {ids : List Nat} {records : List (Record α)} {n : Nat}

/-- **While a record is appended, what is secured is kept**, and afterwards it still is. -/
theorem Secures.append (h : s.Secures folder ids records n) {r : Record α}
    (filed : Filed (records ++ [r])) :
    (∀ s' ∈ s.queue.appending s.disk r.payload, s'.Keeps folder (records ++ [r]) n) ∧
      ∃ d' q', s.queue.append s.disk r.payload = ⟨d', q', .ok ()⟩ ∧
        Secures ⟨d', { q' with lastPut := records.length + 1 }⟩ folder ids (records ++ [r]) n := by
  obtain ⟨w, hw, secured⟩ := h.written
  have fits := (filed.sized r (by simp)).fits
  have old := h.intact.file_lt hw
  have text : framed [r] = (Frame.parts r.payload).flatten := List.append_nil _
  unfold Queue.appending Queue.append
  simp only [hw, if_pos fits]
  refine ⟨?_, ?_⟩
  · intro s' member
    obtain ⟨s'', member', rfl⟩ := List.mem_map.1 member
    obtain ⟨part, isPart, wrote⟩ := SegmentWriter.wrote_writingAll old _ s'' member'
    exact h.keeps_of_wrote hw filed wrote (text ▸ isPart)
  · obtain ⟨d', w', put, intact⟩ := Queue.intact_append h.intact hw filed
    obtain ⟨_, _, put', wrote, -⟩ := SegmentWriter.wrote_put old fits
    rw [put, Prod.mk.injEq, Prod.mk.injEq] at put'
    obtain ⟨rfl, rfl, -⟩ := put'
    refine ⟨d', { s.queue with writer := some w' }, by simp only [put], intact, h.place, ?_,
      h.lastRead, h.lastAck, w', rfl, ?_⟩
    · rw [List.length_append]
      exact Nat.le_add_right_of_le h.known
    · have known := h.known
      rw [wrote.id, wrote.file, between_of_le (by omega)]
      exact secured.trans wrote.grows

/-- **While a record is put, what is secured is kept**, and afterwards it still is; what there was before
is secured if a new segment is begun. -/
theorem Secures.put (h : s.Secures folder ids records n) {now : Int} {obj : α}
    (sized : Record.Sized ⟨obj, records.length + 1, now⟩) {r : Record α}
    (hr : r = ⟨obj, records.length + 1, now⟩) {n' : Nat}
    (hn : n' = if s.queue.rollsFor (Frame.size r.payload) then records.length else n) :
    (∀ s' ∈ s.queue.putting s.disk r.payload, s'.Keeps folder (records ++ [r]) n') ∧
      ∃ ids', Secures (s.call (.put now obj)).1 folder ids' (records ++ [r]) n' := by
  obtain ⟨w, hw, -⟩ := h.written
  have filed : Filed (records ++ [r]) := h.intact.filed.concat (by rw [hr]) (hr ▸ sized)
  obtain ⟨rolling, d₁, q₁, ids₁, rolled, secured₁⟩ := h.rollFor hw sized.version_lt _ hn
  obtain ⟨appending, d₂, q₂, appended, secured₂⟩ := secured₁.append filed
  have lastPut : s.queue.lastPut = records.length := h.intact.lastPut
  refine ⟨?_, ids₁, ?_⟩
  · intro s' member
    simp only [Queue.putting, hw, lastPut, rolled, List.mem_append] at member
    rcases member with first | second
    · exact (rolling s' first).more [r]
    · exact appending s' second
  · have put : s.queue.put s.disk now obj =
        ⟨d₂, { q₂ with lastPut := records.length + 1 }, .ok (records.length + 1)⟩ := by
      subst hr
      simp only [Queue.put, hw, lastPut, rolled, appended]
    rw [call, put]
    exact secured₂

/-! ## Acknowledging -/

theorem contents_removeSegment (d : Disk) (q : Queue) (id next : Nat) (file : String) :
    (q.removeSegment d id next file).disk.contents = d.contents := by
  unfold Queue.removeSegment
  simp only
  split
  · next d' gone =>
    unfold Disk.unlink? at gone
    split at gone
    · cases gone
      rfl
    · cases gone
  · rfl

/-- **While segments are removed, what is secured still is.** -/
theorem Secures.prune (h : s.Secures folder ids records n) :
    (∀ s' ∈ s.queue.pruning s.disk s.queue.segments, s'.Keeps folder records n) ∧
      ∃ d' q' ids', s.queue.prune s.disk = ⟨d', q', .ok ()⟩ ∧
        Secures ⟨d', q'⟩ folder ids' records n := by
  unfold Queue.prune
  induction ids generalizing s with
  | nil =>
    obtain ⟨id, member, -⟩ := h.intact.covers
    cases member
  | cons id ids ih =>
    have table := h.intact.table
    have done : (∀ s' ∈ ([] : List StoredQueue), s'.Keeps folder records n) :=
      fun s' member => absurd member List.not_mem_nil
    cases ids with
    | nil =>
      rw [table]
      exact ⟨done, s.disk, s.queue, [id], rfl, h⟩
    | cons next rest =>
      rw [table]
      simp only [List.map_cons, Queue.pruning, Queue.pruneAlong]
      by_cases stop : s.queue.lastAck + 1 < next
      · rw [if_pos stop, if_pos stop]
        exact ⟨done, s.disk, s.queue, _, rfl, h⟩
      · obtain ⟨d₁, q₁, removed, kept, intact⟩ := Queue.intact_removeSegment h.intact (by omega)
        have contents := contents_removeSegment s.disk s.queue id next (segmentName id)
        rw [removed] at contents
        have secured : Secures ⟨d₁, q₁⟩ folder (next :: rest) records n := by
          refine ⟨intact, kept.folder.trans h.place, h.known, ?_, ?_, ?_⟩
          · exact kept.lastRead ▸ h.lastRead
          · exact kept.lastAck ▸ h.lastAck
          · obtain ⟨w, hw, written⟩ := h.written
            refine ⟨w, kept.writer.trans hw, ?_⟩
            rwa [Disk.read, contents]
        obtain ⟨during, after⟩ := ih secured
        rw [intact.table] at during after
        rw [if_neg stop, if_neg stop]
        simp only [removed]
        refine ⟨?_, after⟩
        intro s' member
        rcases List.mem_cons.1 member with rfl | later
        · exact secured.keeps
        · exact during s' later

/-- **While records that were read are acknowledged, what is secured still is.** -/
theorem Secures.ack (h : s.Secures folder ids records n) {version : Nat}
    (read : version ≤ s.queue.lastRead) :
    (∀ s' ∈ s.queue.acking s.disk version, s'.Keeps folder records n) ∧
      ∃ ids', Secures (s.call (.ack version : Call α)).1 folder ids' records n := by
  rw [call, Queue.acking, Queue.ack]
  split
  · exact ⟨fun s' member => absurd member List.not_mem_nil, ids, h⟩
  · next new =>
    have known := h.known
    have lastRead := h.lastRead
    have noted := Queue.intact_noteAck h.intact (Nat.le_of_not_le new) (by omega)
    obtain ⟨w, hw, written⟩ := h.written
    generalize hd : s.disk.update s.queue.ackFile
      (versionBytes version ++ (s.disk.read s.queue.ackFile).drop 8) = d₁ at noted ⊢
    have secured : Secures ⟨d₁, { s.queue with lastAck := version }⟩ folder ids records n := by
      refine ⟨noted, h.place, known, lastRead, Nat.le_trans read lastRead, w, hw, ?_⟩
      rwa [← hd, Disk.read_update_other (h.intact.ackFile_ne hw)]
    obtain ⟨during, d', q', ids', pruned, after⟩ := secured.prune
    refine ⟨?_, ids', ?_⟩
    · intro s' member
      rcases List.mem_cons.1 member with rfl | later
      · exact secured.keeps
      · exact during s' later
    · simp only at pruned
      simp only [pruned]
      exact after

end StoredQueue

end Outbox
