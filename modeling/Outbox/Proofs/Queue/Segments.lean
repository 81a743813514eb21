import Outbox.Proofs.Queue.Frames

/-!
# Writing and reading a segment

A writer holds back some of what is written, and a reader has fetched more than it has used up. Both
are described by the text of the file as it will be: the writer adds to its end, and the reader is
behind some of its bytes.

* `Disk.OnlyChanges` says that two disks differ in one file;
* `SegmentWriter.Wrote` is what a writer does, and `wrote_flush` and `wrote_put` are its two ways to
  do it;
* `Window.At` and `SegmentReader.At` say where a reader is;
* `seekIn_framed` finds the first record above a version.
-/

namespace Outbox

/-! ## One file changes -/

/-- Nothing is different on two disks but what is in one file. -/
structure Disk.OnlyChanges (d d' : Disk) (file : Nat) : Prop where
  entries : d'.entries = d.entries
  length : d'.contents.length = d.contents.length
  other : ∀ {id : Nat}, id ≠ file → d'.read id = d.read id

namespace Disk.OnlyChanges

theorem refl (d : Disk) (file : Nat) : d.OnlyChanges d file :=
  ⟨rfl, rfl, fun _ => rfl⟩

theorem trans {d d' d'' : Disk} {file : Nat} (h : d.OnlyChanges d' file)
    (h' : d'.OnlyChanges d'' file) : d.OnlyChanges d'' file :=
  ⟨h'.entries.trans h.entries, h'.length.trans h.length,
    fun ne => (h'.other ne).trans (h.other ne)⟩

theorem update (d : Disk) (file : Nat) (bytes : List UInt8) :
    d.OnlyChanges (d.update file bytes) file :=
  ⟨rfl, by simp [Disk.update], fun ne => read_update_other ne.symm bytes⟩

theorem lookup? {d d' : Disk} {file : Nat} (h : d.OnlyChanges d' file) (p : Place) :
    d'.lookup? p = d.lookup? p := by
  rw [Disk.lookup?, Disk.lookup?, h.entries]

theorem children {d d' : Disk} {file : Nat} (h : d.OnlyChanges d' file) (folder : Place) :
    d'.children folder = d.children folder := by
  rw [Disk.children, Disk.children, h.entries]

end Disk.OnlyChanges

/-! ## Writing -/

namespace SegmentWriter

/-- The text of a segment as it will be on the disk. -/
def text (d : Disk) (w : SegmentWriter) : List UInt8 :=
  d.read w.file ++ w.buffer

/-- A writer has written some bytes. -/
structure Wrote (d : Disk) (w : SegmentWriter) (bytes : List UInt8) (d' : Disk)
    (w' : SegmentWriter) : Prop where
  only : d.OnlyChanges d' w.file
  grows : d.read w.file <+: d'.read w.file
  text : w'.text d' = w.text d ++ bytes
  id : w'.id = w.id
  file : w'.file = w.file

theorem Wrote.trans {d d' d'' : Disk} {w w' w'' : SegmentWriter} {bytes bytes' : List UInt8}
    (h : w.Wrote d bytes d' w') (h' : w'.Wrote d' bytes' d'' w'') :
    w.Wrote d (bytes ++ bytes') d'' w'' where
  only := h.only.trans (h.file ▸ h'.only)
  grows := h.grows.trans (h.file ▸ h'.grows)
  text := by rw [h'.text, h.text, List.append_assoc]
  id := h'.id.trans h.id
  file := h'.file.trans h.file

variable {d : Disk} {w : SegmentWriter}

theorem wrote_append (h : w.file < d.contents.length) (bytes : List UInt8) (empty : w.buffer = []) :
    w.Wrote d bytes (d.append w.file bytes) w where
  only := .update ..
  grows := by
    rw [Disk.append, Disk.read_update_same h]
    exact List.prefix_append ..
  text := by simp [SegmentWriter.text, Disk.append, Disk.read_update_same h, empty]
  id := rfl
  file := rfl

theorem buffer_flush (d : Disk) (w : SegmentWriter) : (w.flush d).2.buffer = [] := by
  unfold flush
  split
  · next empty => exact List.isEmpty_iff.1 empty
  · rfl

/-- Handing the buffer to the disk changes nothing in the text. -/
theorem wrote_flush (h : w.file < d.contents.length) : w.Wrote d [] (w.flush d).1 (w.flush d).2 := by
  unfold flush
  split
  · exact ⟨.refl .., List.prefix_refl _, by simp, rfl, rfl⟩
  · refine ⟨.update .., ?_, ?_, rfl, rfl⟩
    · rw [Disk.append, Disk.read_update_same h]
      exact List.prefix_append ..
    · simp [SegmentWriter.text, Disk.append, Disk.read_update_same h]

/-- Where there is room for many bytes, nothing is held back. -/
theorem buffer_makeRoom (d : Disk) (w : SegmentWriter) {n : Nat} (many : bufferSize ≤ n) :
    (w.makeRoom d n).2.buffer = [] := by
  unfold makeRoom
  split
  · exact buffer_flush d w
  · next fits => exact List.eq_nil_of_length_eq_zero (by simp only; omega)

theorem wrote_makeRoom (h : w.file < d.contents.length) (n : Nat) :
    w.Wrote d [] (w.makeRoom d n).1 (w.makeRoom d n).2 := by
  unfold makeRoom
  split
  · exact wrote_flush h
  · exact ⟨.refl .., List.prefix_refl _, by simp, rfl, rfl⟩

/-- Bytes are put into the buffer. -/
theorem wrote_hold (d : Disk) (w : SegmentWriter) (bytes : List UInt8) :
    w.Wrote d bytes d { w with buffer := w.buffer ++ bytes } :=
  ⟨.refl .., List.prefix_refl _, by simp [SegmentWriter.text], rfl, rfl⟩

theorem wrote_write (h : w.file < d.contents.length) (bytes : List UInt8) :
    w.Wrote d bytes (w.write d bytes).1 (w.write d bytes).2 := by
  have room := wrote_makeRoom h bytes.length
  have emptied := buffer_makeRoom d w (n := bytes.length)
  unfold write
  split
  next d' w' made =>
  rw [made] at room emptied
  have h' : w'.file < d'.contents.length := by rw [room.file, room.only.length]; exact h
  rw [← List.nil_append bytes]
  split
  · next many => exact room.trans (wrote_append h' bytes (emptied many))
  · exact room.trans (wrote_hold d' w' bytes)

theorem wrote_writeAll (h : w.file < d.contents.length) (pieces : List (List UInt8)) :
    w.Wrote d pieces.flatten (w.writeAll d pieces).1 (w.writeAll d pieces).2 := by
  induction pieces generalizing d w with
  | nil => exact ⟨.refl .., List.prefix_refl _, by simp [writeAll], rfl, rfl⟩
  | cons piece rest ih =>
    have first := wrote_write h piece
    unfold writeAll
    split
    next d' w' written =>
    rw [written] at first
    have h' : w'.file < d'.contents.length := by rw [first.file, first.only.length]; exact h
    exact first.trans (ih h')

/-- A payload is written in its frame. -/
theorem wrote_put (h : w.file < d.contents.length) {payload : List UInt8}
    (fits : payload.length < UInt32.size) :
    ∃ d' w', w.put d payload = (d', w', .ok ()) ∧ w.Wrote d (Frame.write payload) d' w' ∧
      w'.size = w.size + Frame.size payload := by
  have all := wrote_writeAll h (Frame.parts payload)
  refine ⟨_, _, by rw [put, if_pos fits], ?_, rfl⟩
  exact ⟨all.only, all.grows, all.text, all.id, all.file⟩

end SegmentWriter

/-! ## Reading -/

/-- A window lies in a file behind the first `k` bytes. -/
structure Window.At (w : Window) (content : List UInt8) (k : Nat) : Prop where
  fetched : w.fetched = (content.take w.position).drop k
  beyond : w.beyond = content.drop w.position
  used : k ≤ w.position
  within : w.position ≤ content.length

namespace Window.At

variable {w : Window} {content : List UInt8} {k : Nat}

theorem bytes (h : w.At content k) : w.bytes = content.drop k := by
  conv => rhs; rw [← List.take_append_drop w.position content]
  rw [Window.bytes, h.fetched, h.beyond, List.drop_append_of_le_length]
  rw [List.length_take]
  have := h.used
  have := h.within
  omega

/-- Where a window lies after a chunk was fetched: its own bytes are gone, and some of the chunk. -/
theorem fetch (h : w.At content k) {n used : Nat} (le : used ≤ n) :
    (w.fetch n used).At content (min (w.position + used) content.length) := by
  have within := h.within
  have chunk : (w.beyond.take n).length = min n (content.length - w.position) := by
    rw [h.beyond, List.length_take, List.length_drop]
  refine ⟨?_, ?_, ?_, ?_⟩
  · show (w.beyond.take n).drop used = _
    have all : content.take (w.position + (w.beyond.take n).length) =
        content.take w.position ++ w.beyond.take n := by
      rw [List.take_add, ← h.beyond, List.length_take, ← List.take_eq_take_min]
    show _ = (content.take (w.position + (w.beyond.take n).length)).drop _
    have front : (content.take w.position).length = w.position := by
      rw [List.length_take]
      omega
    have gone : (content.take w.position).drop (min (w.position + used) content.length) = [] :=
      List.drop_eq_nil_of_le (by omega)
    rw [all, List.drop_append, gone, List.nil_append, front]
    by_cases beyond : used ≤ content.length - w.position
    · congr 1
      omega
    · rw [List.drop_eq_nil_of_le, List.drop_eq_nil_of_le] <;> omega
  · show w.beyond.drop n = content.drop (w.position + (w.beyond.take n).length)
    rw [chunk, h.beyond, List.drop_drop]
    by_cases beyond : n ≤ content.length - w.position
    · rw [Nat.min_eq_left beyond]
    · rw [List.drop_eq_nil_of_le, List.drop_eq_nil_of_le] <;> omega
  · show _ ≤ w.position + (w.beyond.take n).length
    omega
  · show w.position + (w.beyond.take n).length ≤ _
    omega

/-- Where a window lies after some bytes were used up. -/
theorem skip (h : w.At content k) (n : Nat) : (w.skip n).At content (min (k + n) content.length) := by
  have used := h.used
  have within := h.within
  have fetched : w.fetched.length = w.position - k := by
    rw [h.fetched, List.length_drop, List.length_take]
    omega
  unfold Window.skip
  split
  · refine ⟨?_, h.beyond, ?_, within⟩
    · simp only [h.fetched, List.drop_drop]
      congr 1
      omega
    · simp only
      omega
  · next short =>
    have place : k + n = w.position + (n - w.fetched.length) := by omega
    rw [place]
    apply h.fetch
    split <;> omega

/-- Where a window lies after a frame. -/
theorem skipFrame (h : w.At content k) :
    ∃ k', w.skipFrame.At content k' ∧ content.drop k' = (Frame.next (content.drop k)).2 := by
  refine ⟨_, (((h.skip 4).skip 4).skip _).skip 1, ?_⟩
  rw [← h.bytes, ← Window.bytes_skipFrame]
  exact ((((h.skip 4).skip 4).skip _).skip 1).bytes.symm

end Window.At

namespace SegmentReader

/-- A reader is in a file behind the first `k` bytes. -/
def At (r : SegmentReader) (content : List UInt8) (k : Nat) : Prop :=
  (⟨r.fetched, content.drop r.position, r.position⟩ : Window).At content k

/-- A reader that has read nothing is at the beginning. -/
theorem at_start (id : Nat) (file : Option Nat) (content : List UInt8) :
    (⟨id, file, 0, [], 0⟩ : SegmentReader).At content 0 :=
  ⟨by simp, rfl, Nat.le_refl _, Nat.zero_le _⟩

/-- A file may grow while it is read. -/
theorem At.grows {r : SegmentReader} {content content' : List UInt8} {k : Nat}
    (h : r.At content k) (grows : content <+: content') : r.At content' k := by
  obtain ⟨more, rfl⟩ := grows
  have within := h.within
  refine ⟨?_, rfl, h.used, ?_⟩
  · rw [h.fetched]
    simp only
    rw [List.take_append_of_le_length within]
  · rw [List.length_append]
    exact Nat.le_add_right_of_le within

theorem at_advance {w : Window} {content : List UInt8} {k : Nat} (h : w.At content k)
    (r : SegmentReader) (size : Nat) : (r.advance w size).At content k :=
  ⟨h.fetched, rfl, h.used, h.within⟩

variable {α : Type} [Storable α]

theorem seekIn_finished {r : SegmentReader} {w : Window} {rest : List UInt8}
    (h : Frame.next w.bytes = (.finished, rest)) (above : Nat) :
    r.seekIn (α := α) above w = (r.advance w.skipFrame 0, .finished) := by
  rw [seekIn]
  split
  · rfl
  · next found =>
    rw [h] at found
    cases found
  · next found =>
    rw [h] at found
    cases found

theorem seekIn_broken {r : SegmentReader} {w : Window} {e : FrameError} {rest : List UInt8}
    (h : Frame.next w.bytes = (.broken e, rest)) (above : Nat) :
    r.seekIn (α := α) above w =
      (r.advance w.skipFrame 0, .failed (.badFrame (segmentName r.id) r.offset e)) := by
  rw [seekIn]
  split
  · next found =>
    rw [h] at found
    cases found
  · next found =>
    rw [h] at found
    cases found
    rfl
  · next found =>
    rw [h] at found
    cases found

theorem seekIn_payload {r : SegmentReader} {w : Window} {payload rest : List UInt8}
    (h : Frame.next w.bytes = (.payload payload, rest)) {record : Record α}
    (parsed : Record.parse? payload = some record) (above : Nat) :
    r.seekIn above w = if record.version ≤ above then
        (r.advance w.skipFrame (Frame.size payload)).seekIn above w.skipFrame
      else (r.advance w.skipFrame (Frame.size payload), .record record (Frame.size payload)) := by
  rw [seekIn]
  split
  · next found =>
    rw [h] at found
    cases found
  · next found =>
    rw [h] at found
    cases found
  · next found =>
    rw [h] at found
    cases found
    simp only [parsed]

/-- **A reader finds the first record above a version**, and is behind it afterwards. -/
theorem seekIn_framed {rs : List (Record α)} (durable : ∀ r ∈ rs, r.Durable) {w : Window}
    {content : List UInt8} {k : Nat} (h : w.At content k) (ahead : content.drop k = framed rs)
    (r : SegmentReader) (above : Nat) :
    ∃ r' k', r'.id = r.id ∧ r'.file = r.file ∧ r'.At content k' ∧
      match rs.dropWhile (·.version ≤ above) with
      | [] => r.seekIn (α := α) above w = (r', .finished) ∧ content.drop k' = []
      | record :: rest => r.seekIn above w = (r', .record record (Frame.size record.payload)) ∧
          content.drop k' = framed rest := by
  induction rs generalizing r w k with
  | nil =>
    obtain ⟨k', h', behind⟩ := h.skipFrame
    have ended : Frame.next w.bytes = (.finished, []) := by rw [h.bytes, ahead]; rfl
    refine ⟨r.advance w.skipFrame 0, k', rfl, rfl, at_advance h' r 0, seekIn_finished ended above, ?_⟩
    rw [behind, ahead]
    rfl
  | cons record rest ih =>
    obtain ⟨k', h', behind⟩ := h.skipFrame
    have head := durable record List.mem_cons_self
    have frame : Frame.next w.bytes = (.payload record.payload, framed rest) := by
      have := next_framed head.fits rest []
      rw [List.append_nil, List.append_nil] at this
      rw [h.bytes, ahead, this]
    have ahead' : content.drop k' = framed rest := by rw [behind, ← h.bytes, frame]
    rw [seekIn_payload frame head.reads]
    by_cases old : record.version ≤ above
    · rw [List.dropWhile_cons_of_pos (by simpa using old), if_pos old]
      exact ih (fun r hr => durable r (List.mem_cons_of_mem _ hr)) h' ahead'
        (r.advance w.skipFrame (Frame.size record.payload))
    · rw [List.dropWhile_cons_of_neg (by simpa using old), if_neg old]
      exact ⟨r.advance w.skipFrame (Frame.size record.payload), k', rfl, rfl, at_advance h' r _, rfl,
        ahead'⟩

end SegmentReader

end Outbox
