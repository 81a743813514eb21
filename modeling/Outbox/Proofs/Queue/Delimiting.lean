import Outbox.Proofs.Queue.Scanning
import Outbox.Proofs.Queue.Segments

/-!
# Frames that delimit themselves

Nothing stands between the frames of a segment: where one ends is told by the frame itself, whatever bytes its
payload has. So a reader that takes frame after frame gives the payloads that were written, and of bytes that are
cut off somewhere those of the frames that are whole.

* `SegmentWriter.putAll` writes payloads in turn, and `SegmentWriter.wrote_putAll` says what is written;
* `Window.readings` is what several calls in turn read, however much of the bytes was fetched;
* `readings_append` reads whole frames at the head of some bytes, and `exists_cut` finds where bytes were cut;
* `Frame.delimited` is the result.
-/

namespace Outbox

/-! ## Writing -/

/-- The frames of payloads are as long as the lengths of all of them together. -/
theorem length_frames (payloads : List (List UInt8)) :
    (payloads.map Frame.size).foldr (· + ·) 0 = (frames payloads).length := by
  induction payloads with
  | nil => rfl
  | cons payload payloads ih =>
    rw [List.map_cons, List.foldr_cons, ih, frames_cons, List.length_append, Frame.length_write]

namespace SegmentWriter

/-- Appends the frames of payloads in turn, up to the first that cannot be written. -/
def putAll (d : Disk) (w : SegmentWriter) :
    List (List UInt8) → Disk × SegmentWriter × Except QueueError Unit
  | [] => (d, w, .ok ())
  | payload :: payloads =>
    match w.put d payload with
    | (d', w', .error e) => (d', w', .error e)
    | (d', w', .ok ()) => w'.putAll d' payloads

/-- Payloads are written as their frames, and the writer counts the bytes of all of them. -/
theorem wrote_putAll {d : Disk} {w : SegmentWriter} (h : w.file < d.contents.length)
    {payloads : List (List UInt8)} (fits : ∀ payload ∈ payloads, payload.length < UInt32.size) :
    ∃ d' w', w.putAll d payloads = (d', w', .ok ()) ∧ w.Wrote d (frames payloads) d' w' ∧
      w'.size = w.size + (frames payloads).length := by
  induction payloads generalizing d w with
  | nil => exact ⟨d, w, rfl, ⟨.refl .., List.prefix_refl _, by simp, rfl, rfl⟩, rfl⟩
  | cons payload payloads ih =>
    obtain ⟨d₁, w₁, first, wrote₁, size₁⟩ := wrote_put h (fits payload List.mem_cons_self)
    have h₁ : w₁.file < d₁.contents.length := by
      rw [wrote₁.file, wrote₁.only.length]
      exact h
    obtain ⟨d₂, w₂, rest, wrote₂, size₂⟩ :=
      ih h₁ fun p member => fits p (List.mem_cons_of_mem _ member)
    refine ⟨d₂, w₂, by rw [putAll, first, ← rest], wrote₁.trans wrote₂, ?_⟩
    rw [size₂, size₁, frames_cons, List.length_append, Frame.length_write, Nat.add_assoc]

end SegmentWriter

/-! ## Reading -/

namespace Window

/-- What `n` calls in turn read. -/
def readings : Nat → Window → List Frame.Reading
  | 0, _ => []
  | n + 1, w => (Frame.next w.bytes).1 :: readings n w.skipFrame

variable {w : Window}

/-- At the end of the bytes, every call comes to the end again. -/
theorem readings_ended (ended : w.bytes = []) (n : Nat) :
    w.readings n = List.replicate n .finished := by
  induction n generalizing w with
  | zero => rfl
  | succ n ih =>
    have still : w.skipFrame.bytes = [] := by rw [bytes_skipFrame, ended, Frame.next_nil]
    rw [readings, ih still, ended, Frame.next_nil, List.replicate_succ]

/-- **Whole frames** are read as their payloads, whatever is behind them. -/
theorem readings_append {payloads : List (List UInt8)}
    (fits : ∀ payload ∈ payloads, payload.length < UInt32.size) {rest : List UInt8}
    (here : w.bytes = frames payloads ++ rest) :
    ∃ w' : Window, w'.bytes = rest ∧
      ∀ n, w.readings (payloads.length + n) = payloads.map .payload ++ w'.readings n := by
  induction payloads generalizing w with
  | nil => exact ⟨w, here, fun n => by simp⟩
  | cons payload payloads ih =>
    rw [frames_cons, List.append_assoc] at here
    have first : Frame.next w.bytes = (.payload payload, frames payloads ++ rest) := by
      rw [here, Frame.next_write (fits payload List.mem_cons_self)]
    have behind : w.skipFrame.bytes = frames payloads ++ rest := by rw [bytes_skipFrame, first]
    obtain ⟨w', ended, all⟩ := ih (fun p member => fits p (List.mem_cons_of_mem _ member)) behind
    refine ⟨w', ended, fun n => ?_⟩
    rw [List.length_cons, Nat.add_right_comm, readings, all n, first, List.map_cons, List.cons_append]

/-- A frame that is cut is read as the end, if not even its length is whole, or else as broken, and nothing is
left. -/
theorem readings_cut {payload : List UInt8} (fits : payload.length < UInt32.size)
    (head : w.bytes <+: Frame.write payload) (short : w.bytes.length < Frame.size payload) (n : Nat) :
    w.readings (n + 1) =
      (if w.bytes.length < 4 then .finished else .broken .truncated) :: List.replicate n .finished := by
  have read := Frame.next_cut fits head short
  have ended : w.skipFrame.bytes = [] := by rw [bytes_skipFrame, read]
  rw [readings, readings_ended ended, read]

end Window

/-! ## Cuts -/

/-- Some of the bytes of frames are those of the whole frames in front, and some of the frame behind them. -/
theorem exists_cut {payloads : List (List UInt8)} {bytes : List UInt8} (head : bytes <+: frames payloads)
    (cut : bytes ≠ frames payloads) :
    ∃ front payload behind rest, payloads = front ++ payload :: behind ∧ bytes = frames front ++ rest ∧
      rest <+: Frame.write payload ∧ rest.length < Frame.size payload := by
  induction payloads generalizing bytes with
  | nil => exact absurd (List.prefix_nil.1 head) cut
  | cons payload payloads ih =>
    rw [frames_cons] at head cut
    by_cases short : bytes.length < Frame.size payload
    · have inside : bytes <+: Frame.write payload := by
        refine List.prefix_of_prefix_length_le head (List.prefix_append _ _) ?_
        rw [Frame.length_write]
        exact Nat.le_of_lt short
      exact ⟨[], payload, payloads, bytes, rfl, rfl, inside, short⟩
    · have whole : Frame.write payload <+: bytes := by
        refine List.prefix_of_prefix_length_le (List.prefix_append _ _) head ?_
        rw [Frame.length_write]
        exact Nat.le_of_not_lt short
      obtain ⟨later, rfl⟩ := whole
      rw [List.prefix_append_right_inj] at head
      obtain ⟨front, payload', behind, rest, rfl, rfl, inside, short'⟩ :=
        ih head fun same => cut (by rw [same])
      exact ⟨payload :: front, payload', behind, rest, rfl, by simp, inside, short'⟩

/-- The frames of more payloads take at least as many bytes. -/
theorem length_frames_take_mono (payloads : List (List UInt8)) {i j : Nat} (le : i ≤ j) :
    (frames (payloads.take i)).length ≤ (frames (payloads.take j)).length := by
  have all : payloads.take j = payloads.take i ++ (payloads.drop i).take (j - i) := by
    rw [← List.take_add, Nat.add_sub_cancel' le]
  rw [all, frames, frames, List.flatMap_append, List.length_append]
  exact Nat.le_add_right _ _

/-- Of payloads in turn, those in front of one whose frame is cut are those whose frames end within the bytes. -/
theorem lt_length_iff_ends {front behind : List (List UInt8)} {payload rest : List UInt8}
    (short : rest.length < Frame.size payload) (i : Nat) :
    i < front.length ↔ (frames ((front ++ payload :: behind).take (i + 1))).length ≤
      (frames front ++ rest).length := by
  have upTo : (front ++ payload :: behind).take front.length = front := List.take_left
  have next : (front ++ payload :: behind).take (front.length + 1) = front ++ [payload] := by
    rw [List.append_cons, List.take_left' (by simp)]
  rw [List.length_append]
  constructor
  · intro before
    have le := length_frames_take_mono (front ++ payload :: behind) (show i + 1 ≤ front.length from before)
    rw [upTo] at le
    omega
  · intro ends
    refine Classical.byContradiction fun notBefore => ?_
    have le := length_frames_take_mono (front ++ payload :: behind)
      (show front.length + 1 ≤ i + 1 by omega)
    rw [next, frames, List.flatMap_append, List.length_append, ← frames, List.flatMap_singleton,
      Frame.length_write] at le
    omega

/-! ## The result -/

namespace Frame

/-- What is promised of payloads: they are written and read back as they are, and of bytes that are cut off
those are read whose frames lie completely inside. -/
structure Delimited (payloads : List (List UInt8)) : Prop where
  /-- The lengths of the frames add up to the bytes. -/
  sizes : (payloads.map size).foldr (· + ·) 0 = (frames payloads).length
  /-- A writer adds the frames, and their lengths to its own count. -/
  written : ∀ {d : Disk} {w : SegmentWriter}, w.file < d.contents.length →
    ∃ d' w', w.putAll d payloads = (d', w', .ok ()) ∧ w'.text d' = w.text d ++ frames payloads ∧
      w'.size = w.size + (frames payloads).length
  /-- All calls behind the last payload come to a clean end. -/
  whole : ∀ {w : Window}, w.bytes = frames payloads →
    ∀ n, w.readings (payloads.length + n) = payloads.map .payload ++ List.replicate n .finished
  /-- Of the first bytes, the payloads are read whose frames end there, and then something else. -/
  cut : ∀ {w : Window}, w.bytes <+: frames payloads → w.bytes ≠ frames payloads →
    ∃ k stop, k < payloads.length ∧
      (∀ i, i < k ↔ (frames (payloads.take (i + 1))).length ≤ w.bytes.length) ∧
      (∀ payload, stop ≠ .payload payload) ∧
      ∀ n, w.readings (k + (n + 1)) =
        (payloads.take k).map .payload ++ stop :: List.replicate n .finished

/-- **Frames delimit themselves.** Whatever the payloads are, if each fits into a frame, they are read back one by
one, and of bytes that are cut off anywhere exactly those are read whose frames are whole. -/
theorem delimited {payloads : List (List UInt8)}
    (fits : ∀ payload ∈ payloads, payload.length < UInt32.size) : Delimited payloads where
  sizes := length_frames payloads
  written inside := by
    obtain ⟨d', w', put, wrote, size⟩ := SegmentWriter.wrote_putAll inside fits
    exact ⟨d', w', put, wrote.text, size⟩
  whole {w} here n := by
    have here : w.bytes = frames payloads ++ [] := by rw [here, List.append_nil]
    obtain ⟨w', ended, all⟩ := Window.readings_append fits here
    rw [all, Window.readings_ended ended]
  cut {w} head cut := by
    obtain ⟨front, payload, behind, rest, rfl, here, inside, short⟩ := exists_cut head cut
    obtain ⟨w', ended, all⟩ :=
      Window.readings_append (fun p member => fits p (List.mem_append_left _ member)) here
    have last := Window.readings_cut (w := w') (fits payload (by simp)) (ended ▸ inside) (ended ▸ short)
    refine ⟨front.length, if w'.bytes.length < 4 then .finished else .broken .truncated, by simp, ?_, ?_, ?_⟩
    · rw [here]
      exact lt_length_iff_ends short
    · intro payload'
      split <;> exact nofun
    · intro n
      rw [all, last, List.take_left]

/-- A payload that looks like the beginning of a frame, an empty one, and one of line feeds. -/
def lookalikes : List (List UInt8) :=
  [[0, 0, 0, 1, 0, 0], [], [10, 10]]

/-- Of three frames, the bytes of two and some of the third are left. -/
theorem delimited_lookalikes :
    (∀ payload ∈ lookalikes, payload.length < UInt32.size) ∧ Delimited lookalikes ∧
      (Window.mk [] ((frames lookalikes).take 29) 0).readings 4 =
        [.payload [0, 0, 0, 1, 0, 0], .payload [], .broken .truncated, .finished] :=
  ⟨by decide, delimited (by decide), by decide +kernel⟩

end Frame

end Outbox
