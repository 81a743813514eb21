import Outbox.Proofs.Queue.Refinement

/-!
# Damaged frames

A get that comes to a damaged frame fails, and names the frame. It has used the frame up all the same:
the reader stands right behind it, and the next get goes on from there. So a damaged frame is reported
once and then left out, and what was stored behind it is delivered.

* `Window.Of` says that what is beyond a window is the rest of its file;
* `SegmentReader.seekIn_badFrame` is where a reader is that has failed, and `Queue.ahead` what a queue has
  before it; `Queue.get_ahead` reads the first record of that;
* `Queue.get_behind_badFrame` is the result: after the failure comes the next record behind the frame.
-/

namespace Outbox

/-- Where nothing is held back, nothing is handed to the disk. -/
theorem SegmentWriter.flush_of_empty {d : Disk} {w : SegmentWriter} (empty : w.buffer = []) :
    w.flush d = (d, w) :=
  if_pos (List.isEmpty_iff.2 empty)

/-! ## Windows of a file -/

/-- What is beyond a window is what its file has behind the fetched bytes, if it has any. -/
def Window.Of (w : Window) (content : List UInt8) : Prop :=
  w.beyond = content.drop w.position

namespace Window.Of

variable {w : Window} {content : List UInt8}

theorem fetch (h : w.Of content) (n used : Nat) : (w.fetch n used).Of content := by
  show w.beyond.drop n = content.drop (w.position + (w.beyond.take n).length)
  rw [h, List.drop_drop, List.length_take, List.length_drop]
  rcases Nat.le_total n (content.length - w.position) with enough | short
  · rw [Nat.min_eq_left enough]
  · rw [Nat.min_eq_right short, List.drop_eq_nil_of_le (by omega), List.drop_eq_nil_of_le (by omega)]

theorem skip (h : w.Of content) (n : Nat) : (w.skip n).Of content := by
  unfold Window.skip
  split
  · exact h
  · exact h.fetch _ _

theorem skipFrame (h : w.Of content) : w.skipFrame.Of content :=
  (((h.skip 4).skip 4).skip _).skip 1

end Window.Of

namespace SegmentReader

/-- What is ahead of a reader that has gone on to a window of its file. -/
theorem window_advance {d : Disk} {file : Nat} {w : Window} (h : w.Of (d.read file))
    (r : SegmentReader) (size : Nat) : (r.advance w size).window d file = w := by
  rw [window, advance, ← h]

variable {α : Type} [Storable α]

/-- **Where a reader is that has failed on a damaged frame**: behind that frame. -/
theorem seekIn_badFrame {d : Disk} {file : Nat} {w : Window} (of : w.Of (d.read file))
    {r r' : SegmentReader} {above : Nat} {name : String} {offset : Nat} {reason : FrameError}
    (failed : r.seekIn (α := α) above w = (r', .failed (.badFrame name offset reason))) :
    r'.file = r.file ∧ ∃ frame, (Frame.next frame).1 = .broken reason ∧
      (r'.window d file).bytes = (Frame.next frame).2 := by
  fun_induction seekIn (α := α) r above w with
  | case1 => simp at failed
  | case2 r w w' e rest found =>
    simp only [Prod.mk.injEq, Reached.failed.injEq, QueueError.badFrame.injEq] at failed
    obtain ⟨rfl, -, -, rfl⟩ := failed
    refine ⟨rfl, w.bytes, by rw [found], ?_⟩
    rw [window_advance of.skipFrame, Window.bytes_skipFrame]
  | case3 => simp at failed
  | case4 r w w' payload rest found size r₁ record parsed old ih => exact ih of.skipFrame failed
  | case5 => simp at failed

/-- A reader that has failed on a damaged frame of its segment is behind that frame. -/
theorem seek_badFrame {d : Disk} {r r' : SegmentReader} {above : Nat} {name : String} {offset : Nat}
    {reason : FrameError}
    (failed : r.seek (α := α) d above = (r', .failed (.badFrame name offset reason))) :
    ∃ file frame, r'.file = some file ∧ (Frame.next frame).1 = .broken reason ∧
      (r'.window d file).bytes = (Frame.next frame).2 := by
  unfold seek at failed
  split at failed
  · next file isFile =>
    obtain ⟨same, frame, broken, behind⟩ := seekIn_badFrame (w := r.window d file) rfl failed
    exact ⟨file, frame, same.trans isFile, broken, behind⟩
  · simp at failed

/-- A reader goes over records that are too old, whatever comes after them. -/
theorem seekIn_passed {passed : List (Record α)} {above : Nat}
    (old : ∀ p ∈ passed, p.Durable ∧ p.version ≤ above) {more : List UInt8} {w : Window}
    (ahead : w.bytes = framed passed ++ more) (r : SegmentReader) :
    ∃ (r' : SegmentReader) (w' : Window), r.seekIn (α := α) above w = r'.seekIn above w' ∧ w'.bytes = more ∧
      (∀ content, w.Of content → w'.Of content) ∧ r'.id = r.id ∧ r'.file = r.file ∧
      r'.offset = r.offset + (framed passed).length := by
  induction passed generalizing r w with
  | nil => exact ⟨r, w, rfl, ahead, fun _ of => of, rfl, rfl, rfl⟩
  | cons p passed ih =>
    obtain ⟨sound, early⟩ := old p List.mem_cons_self
    have frame : Frame.next w.bytes = (.payload p.payload, framed passed ++ more) := by
      rw [ahead]
      exact next_framed sound.fits _ more
    obtain ⟨r', w', same, bytes, of', id, file, offset⟩ :=
      ih (fun p' member => old p' (List.mem_cons_of_mem p member))
        (by rw [Window.bytes_skipFrame, frame]) (r.advance w.skipFrame (Frame.size p.payload))
    refine ⟨r', w', ?_, bytes, fun content of => of' content of.skipFrame, id, file, ?_⟩
    · rw [seekIn_payload frame sound.reads, if_pos early, same]
    · rw [offset, framed_cons, List.length_append, Frame.length_write, ← Nat.add_assoc]
      rfl

/-- A reader finds a record behind such that are too old, whatever comes after it. -/
theorem seekIn_record {passed : List (Record α)} {record : Record α} {above : Nat}
    (old : ∀ p ∈ passed, p.Durable ∧ p.version ≤ above) (durable : record.Durable)
    (fresh : above < record.version) {rest : List UInt8} {w : Window}
    (ahead : w.bytes = framed (passed ++ [record]) ++ rest) (r : SegmentReader) :
    ∃ r', r.seekIn above w = (r', .record record (Frame.size record.payload)) := by
  rw [framed_append, List.append_assoc] at ahead
  obtain ⟨r', w', same, bytes, -⟩ := seekIn_passed old ahead r
  have frame : Frame.next w'.bytes = (.payload record.payload, framed ([] : List (Record α)) ++ rest) := by
    rw [bytes]
    exact next_framed durable.fits [] rest
  rw [same, seekIn_payload frame durable.reads, if_neg (Nat.not_le_of_lt fresh)]
  exact ⟨_, rfl⟩

end SegmentReader

namespace Queue

/-- The bytes ahead of the reader of a queue, in the segment that is being read. -/
def ahead (d : Disk) (q : Queue) : List UInt8 :=
  match q.reader with
  | none => []
  | some r =>
    match r.file with
    | none => []
    | some file => (r.window d file).bytes

/-- What was handed to the disk is not handed to it again. -/
theorem flush_of_writer {d : Disk} {q q' : Queue} (same : q'.writer = (q.flush d).2.writer) :
    q'.flush (q.flush d).1 = ((q.flush d).1, q') := by
  cases hw : q.writer with
  | none =>
    have handed : q.flush d = (d, q) := by rw [flush, hw]
    rw [handed] at same ⊢
    rw [flush, same, hw]
  | some w =>
    have handed : q.flush d = ((w.flush d).1, { q with writer := some (w.flush d).2 }) := by
      rw [flush, hw]
    rw [handed] at same ⊢
    have open_ : q'.writer = some (w.flush d).2 := same
    have empty := SegmentWriter.flush_of_empty (d := (w.flush d).1) (SegmentWriter.buffer_flush d w)
    simp only [flush, open_, empty]
    rw [← open_]

variable {α : Type} [Storable α]

/-- A segment that cannot be opened is no damaged frame. -/
theorem currentReader_ne_badFrame {d : Disk} {q : Queue} {name : String} {offset : Nat}
    {reason : FrameError} : q.currentReader d ≠ .error (.badFrame name offset reason) := by
  unfold currentReader SegmentReader.openAt
  cases q.reader with
  | some r => simp
  | none =>
    simp only
    split <;> simp

/-- A queue that has failed on a damaged frame has read nothing, and is behind that frame. -/
theorem getThrough_badFrame {d : Disk} {q q' : Queue} {later : List Nat} {name : String} {offset : Nat}
    {reason : FrameError}
    (failed : q.getThrough (α := α) d later = (q', .error (.badFrame name offset reason))) :
    q'.writer = q.writer ∧ q'.lastRead = q.lastRead ∧
      ∃ frame, (Frame.next frame).1 = .broken reason ∧ q'.ahead d = (Frame.next frame).2 := by
  fun_induction getThrough (α := α) d q later with
  | case1 q later e unopened =>
    simp only [Prod.mk.injEq, Except.error.injEq] at failed
    exact absurd (failed.2 ▸ unopened) currentReader_ne_badFrame
  | case2 q later r current r' e seek =>
    simp only [Prod.mk.injEq, Except.error.injEq] at failed
    obtain ⟨rfl, rfl⟩ := failed
    obtain ⟨file, frame, isFile, broken, behind⟩ := SegmentReader.seek_badFrame seek
    exact ⟨rfl, rfl, frame, broken, by simpa only [ahead, isFile] using behind⟩
  | case3 => simp at failed
  | case4 => simp at failed
  | case5 q r current r' seek next rest ih => exact ih failed

/-- A record that is ahead of the reader is the next one that it gives. -/
theorem get_ahead {d : Disk} {q : Queue} (handed : q.flush d = (d, q)) {passed : List (Record α)}
    {record : Record α} {rest : List UInt8} (old : ∀ p ∈ passed, p.Durable ∧ p.version ≤ q.lastRead)
    (durable : record.Durable) (fresh : q.lastRead < record.version)
    (bytes : q.ahead d = framed (passed ++ [record]) ++ rest) :
    ∃ q', q.get d = ⟨d, q', .ok (some ⟨record, Frame.size record.payload⟩)⟩ := by
  have some_bytes : q.ahead d ≠ [] := by
    have pos := Frame.length_write_pos record.payload
    refine List.ne_nil_of_length_pos ?_
    simp only [bytes, framed_append, framed_cons, List.length_append]
    omega
  unfold ahead at bytes some_bytes
  cases reader : q.reader with
  | none => simp [reader] at some_bytes
  | some r =>
    cases isFile : r.file with
    | none => simp [reader, isFile] at some_bytes
    | some file =>
      simp only [reader, isFile] at bytes
      obtain ⟨r', found⟩ := SegmentReader.seekIn_record old durable fresh bytes r
      have current : q.currentReader d = .ok r := by rw [currentReader, reader]
      have seek : r.seek d q.lastRead = (r', .record record (Frame.size record.payload)) := by
        rw [SegmentReader.seek, isFile]
        exact found
      refine ⟨{ q with reader := some r', lastRead := record.version }, ?_⟩
      rw [Queue.get, handed]
      simp only [getThrough.eq_def, current, seek]

/-- **Behind a damaged frame the reader goes on.** A get that fails on a damaged frame reads no record
and uses up the frame, and the next get gives the first record behind it that was not read yet. -/
theorem get_behind_badFrame {d d' : Disk} {q q' : Queue} {name : String} {offset : Nat}
    {reason : FrameError}
    (failed : q.get (α := α) d = ⟨d', q', .error (.badFrame name offset reason)⟩) :
    q'.lastRead = q.lastRead ∧
      (∃ frame, (Frame.next frame).1 = .broken reason ∧ q'.ahead d' = (Frame.next frame).2) ∧
      ∀ (passed : List (Record α)) (record : Record α) (rest : List UInt8),
        (∀ p ∈ passed, p.Durable ∧ p.version ≤ q.lastRead) → record.Durable →
        q.lastRead < record.version → q'.ahead d' = framed (passed ++ [record]) ++ rest →
        ∃ q'', q'.get d' = ⟨d', q'', .ok (some ⟨record, Frame.size record.payload⟩)⟩ := by
  rw [get] at failed
  rcases through : (q.flush d).2.getThrough (α := α) (q.flush d).1 (q.flush d).2.laterIds with ⟨q₁, result⟩
  simp only [through, Outcome.mk.injEq] at failed
  obtain ⟨rfl, rfl, rfl⟩ := failed
  obtain ⟨writer, read, behind⟩ := getThrough_badFrame through
  have lastRead : q₁.lastRead = q.lastRead := by rw [read, lastRead_flush]
  refine ⟨lastRead, behind, fun passed record rest old durable fresh bytes => ?_⟩
  exact get_ahead (flush_of_writer writer) (lastRead.symm ▸ old) durable (lastRead.symm ▸ fresh) bytes

/-- The records of a sealed segment, where the frame of the second one ends with another byte, and one
more record in the next segment. -/
def damagedFolder : Disk where
  entries := [(["queue"], .folder), (["queue", ackName], .file 0),
    (["queue", segmentName 1], .file 1), (["queue", segmentName 4], .file 2)]
  contents := [[], framed [(⟨"a", 1, 5⟩ : Record String)] ++
      (framed [(⟨"b", 2, 5⟩ : Record String)]).dropLast ++ [11] ++
        framed [(⟨"c", 3, 5⟩ : Record String)],
    framed [(⟨"d", 4, 5⟩ : Record String)]]

/-- Once a get has failed on the second record, the next one gives the third. -/
theorem get_behind_badFrame_second : ∃ d q d₁ q₁ d₂ q₂ q₃,
    openIn damagedFolder ["queue"] 1 = (d, .ok q) ∧
      q.get (α := String) d = ⟨d₁, q₁, .ok (some (ListQueue.element ⟨"a", 1, 5⟩))⟩ ∧
      q₁.get (α := String) d₁ = ⟨d₂, q₂, .error (.badFrame "data-1.log" 39 .noTerminator)⟩ ∧
      q₂.get d₂ = ⟨d₂, q₃, .ok (some (ListQueue.element ⟨"c", 3, 5⟩))⟩ := by
  have facts : (openIn damagedFolder ["queue"] 1).2.toOption.map (fun q =>
      let first := q.get (α := String) (openIn damagedFolder ["queue"] 1).1
      let second := first.queue.get (α := String) first.disk
      (Answer.of .element first.result, first.queue.lastRead, Answer.of .element second.result,
        second.queue.ahead second.disk)) =
      some (.element (some (ListQueue.element ⟨"a", 1, 5⟩)), 1,
        .failed (.badFrame "data-1.log" 39 .noTerminator),
        framed ([] ++ [(⟨"c", 3, 5⟩ : Record String)]) ++ []) := by decide +kernel
  have durable : Record.Durable (⟨"c", 3, 5⟩ : Record String) := ⟨by decide +kernel, by decide +kernel⟩
  rcases opens : openIn damagedFolder ["queue"] 1 with ⟨d, e | q⟩
  · rw [opens] at facts
    cases facts
  rcases first : q.get (α := String) d with ⟨d₁, q₁, e | x⟩
  · simp [opens, first, Except.toOption, Answer.of] at facts
  rcases second : q₁.get (α := String) d₁ with ⟨d₂, q₂, e | y⟩
  · simp only [opens, first, second, Except.toOption, Answer.of, Option.map_some, Option.some.injEq,
      Prod.mk.injEq, Answer.element.injEq, Answer.failed.injEq] at facts
    obtain ⟨rfl, lastRead, rfl, ahead⟩ := facts
    have fresh : q₁.lastRead < 3 := by omega
    obtain ⟨q₃, third⟩ := (get_behind_badFrame second).2.2 [] ⟨"c", 3, 5⟩ [] (by simp) durable fresh ahead
    exact ⟨d, q, d₁, q₁, d₂, q₂, q₃, rfl, first, second, third⟩
  · simp [opens, first, second, Except.toOption, Answer.of] at facts

/-- The rest of both segments is given out after the failure. -/
theorem answers_damagedFolder : ∃ d q, openIn damagedFolder ["queue"] 1 = (d, .ok q) ∧
    StoredQueue.answers ⟨d, q⟩ [.get, .get, .getUpTo 5] =
      [.element (some (ListQueue.element ⟨"a", 1, 5⟩)),
        .failed (.badFrame "data-1.log" 39 .noTerminator),
        .elements [ListQueue.element ⟨"c", 3, 5⟩, ListQueue.element (⟨"d", 4, 5⟩ : Record String)]] := by
  have facts : (openIn damagedFolder ["queue"] 1).2.toOption.map (fun q =>
      StoredQueue.answers ⟨(openIn damagedFolder ["queue"] 1).1, q⟩ [.get, .get, .getUpTo 5]) =
      some [.element (some (ListQueue.element ⟨"a", 1, 5⟩)),
        .failed (.badFrame "data-1.log" 39 .noTerminator),
        .elements [ListQueue.element ⟨"c", 3, 5⟩, ListQueue.element (⟨"d", 4, 5⟩ : Record String)]] := by
    decide +kernel
  rcases opens : openIn damagedFolder ["queue"] 1 with ⟨d, e | q⟩
  · rw [opens] at facts
    cases facts
  · rw [opens] at facts
    exact ⟨d, q, rfl, Option.some.inj facts⟩

end Queue

end Outbox
