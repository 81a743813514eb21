import Outbox.Queue.Frame

/-!
# Reading ahead

A reader fetches a file in chunks. What it has fetched and not used up yet it sees as it was when it
was fetched, whatever happens to the file in between; what lies beyond, it sees as it is now.

* `Window` are the bytes ahead of a reader in these two parts, and `Window.bytes` is both together;
* `Window.skip` uses up some bytes, fetching more if need be, and `Window.skipFrame` uses up those of
  a frame;
* `bytes_skip` and `bytes_skipFrame` say that the parts do not matter to what is used up.
-/

namespace Outbox

/-- The number of bytes that a reader fetches at once. -/
def chunkSize : Nat := 8192

/-- The bytes ahead of a reader. -/
structure Window where
  fetched : List UInt8
  beyond : List UInt8
  /-- How many bytes were fetched from the file so far. -/
  position : Nat
deriving DecidableEq

namespace Window

/-- All bytes ahead. -/
def bytes (w : Window) : List UInt8 :=
  w.fetched ++ w.beyond

/-- Fetches `n` bytes, or all there are beyond, and uses up `used` of them. -/
def fetch (w : Window) (n used : Nat) : Window :=
  let chunk := w.beyond.take n
  ⟨chunk.drop used, w.beyond.drop n, w.position + chunk.length⟩

/-- Uses up `n` bytes, or all there are. Where the fetched ones do not suffice, a chunk is fetched;
if a chunk does not suffice either, just what is missing. -/
def skip (w : Window) (n : Nat) : Window :=
  if n ≤ w.fetched.length then { w with fetched := w.fetched.drop n }
  else
    let missing := n - w.fetched.length
    w.fetch (if chunkSize ≤ missing then missing else chunkSize) missing

/-- Fetching takes nothing away but what is used up. -/
theorem bytes_fetch (w : Window) {n used : Nat} (h : used ≤ n) :
    (w.fetch n used).bytes = w.beyond.drop used := by
  conv => rhs; rw [← List.take_append_drop n w.beyond]
  simp only [fetch, bytes, List.drop_append, List.length_take]
  by_cases reach : used ≤ w.beyond.length
  · rw [Nat.sub_eq_zero_of_le (by omega), List.drop_zero]
  · have ended : w.beyond.drop n = [] := List.drop_eq_nil_of_le (by omega)
    rw [ended, List.drop_nil]

theorem bytes_skip (w : Window) (n : Nat) : (w.skip n).bytes = w.bytes.drop n := by
  unfold skip
  split
  · next enough => simp [bytes, List.drop_append_of_le_length enough]
  · next short =>
    have past : w.bytes.drop n = w.beyond.drop (n - w.fetched.length) := by
      simp [bytes, List.drop_append, List.drop_eq_nil_of_le (Nat.le_of_not_le short)]
    rw [past]
    exact w.bytes_fetch (by split <;> omega)

/-- Uses up a frame: the length, the checksum, the payload and the terminator one after the other. -/
def skipFrame (w : Window) : Window :=
  (((w.skip 4).skip 4).skip (Frame.announced w.bytes)).skip 1

/-- What is behind a frame. -/
theorem bytes_skipFrame (w : Window) : w.skipFrame.bytes = (Frame.next w.bytes).2 := by
  simp only [skipFrame, bytes_skip, List.drop_drop, Frame.snd_next, Frame.overhead]
  congr 1
  omega

end Window

end Outbox
