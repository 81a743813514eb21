import Outbox.Queue.Checksum

/-!
# Frames

A record is stored in a frame: the length of its payload and the checksum of the payload, each as
four bytes with the most significant first, then the payload, then a line feed.

* `Frame.write?` is the frame of a payload, and `Frame.size` its length;
* `Frame.next` reads the frame at the head of some bytes and gives what is left. Bytes that are too
  few are used up; a frame that is damaged is used up as well (`Frame.snd_next`).
-/

namespace Outbox

/-- A natural number in four bytes, the most significant first. -/
def wordBytes (n : Nat) : List UInt8 :=
  [UInt8.ofNat (n >>> 24), UInt8.ofNat (n >>> 16), UInt8.ofNat (n >>> 8), UInt8.ofNat n]

/-- The number in the first four bytes, and the bytes after it. -/
def word? : List UInt8 → Option (Nat × List UInt8)
  | a :: b :: c :: d :: rest =>
    some (((a.toNat * 256 + b.toNat) * 256 + c.toNat) * 256 + d.toNat, rest)
  | _ => none

/-- Eight digits in base 16. -/
def hexWord (n : Nat) : String :=
  let digits := Nat.toDigits 16 n
  "0x" ++ String.ofList (List.replicate (8 - digits.length) '0' ++ digits)

/-- Why bytes are not a frame, or a payload does not fit into one. -/
inductive FrameError where
  | truncated
  | badChecksum (expected actual : Nat)
  | noTerminator
  | tooLarge (length : Nat)
deriving DecidableEq, Repr

/-- The text of an error. -/
def FrameError.message : FrameError → String
  | .truncated => "record is truncated"
  | .badChecksum expected actual =>
    "checksum mismatch: expected " ++ hexWord expected ++ ", actual " ++ hexWord actual
  | .noTerminator => "record is not terminated by a newline"
  | .tooLarge length => "record of " ++ toString length ++ " bytes is too large to frame"

namespace Frame

/-- The byte that ends a frame. -/
def terminator : UInt8 := 10

/-- The number of bytes around the payload. -/
def overhead : Nat := 9

/-- The length of the frame of a payload. -/
def size (payload : List UInt8) : Nat :=
  payload.length + overhead

/-- The four parts of the frame of a payload. -/
def parts (payload : List UInt8) : List (List UInt8) :=
  [wordBytes payload.length, wordBytes (Checksum.ofBytes payload).toNat, payload, [terminator]]

/-- The frame of a payload. -/
def write (payload : List UInt8) : List UInt8 :=
  (parts payload).flatten

/-- What is at the head of some bytes. -/
inductive Reading where
  | payload (bytes : List UInt8)
  /-- Too few bytes are left for another frame to begin. -/
  | finished
  | broken (e : FrameError)
deriving DecidableEq

/-- Reads a frame, and gives the bytes after what was used up. -/
def next (bytes : List UInt8) : Reading × List UInt8 :=
  match word? bytes with
  | none => (.finished, [])
  | some (length, afterLength) =>
    match word? afterLength with
    | none => (.broken .truncated, [])
    | some (expected, body) =>
      match body.drop length with
      | [] => (.broken .truncated, [])
      | last :: rest =>
        let payload := body.take length
        let actual := (Checksum.ofBytes payload).toNat
        if last ≠ terminator then (.broken .noTerminator, rest)
        else if expected ≠ actual then (.broken (.badChecksum expected actual), rest)
        else (.payload payload, rest)

/-- The length of the payload that the head of some bytes announces. -/
def announced (bytes : List UInt8) : Nat :=
  ((word? bytes).map Prod.fst).getD 0

/-! ### Lengths -/

theorem length_of_word? {bytes rest : List UInt8} {n : Nat} (h : word? bytes = some (n, rest)) :
    rest.length + 4 = bytes.length := by
  unfold word? at h
  split at h
  · simp only [Option.some.injEq, Prod.mk.injEq] at h
    simp [← h.2]
  · cases h

theorem length_write (payload : List UInt8) : (write payload).length = size payload := by
  simp only [write, parts, wordBytes, size, overhead, List.flatten_cons, List.flatten_nil,
    List.length_append, List.length_cons, List.length_nil]
  omega

theorem drop_of_word? {bytes rest : List UInt8} {n : Nat} (h : word? bytes = some (n, rest)) :
    bytes.drop 4 = rest := by
  unfold word? at h
  split at h
  · simp only [Option.some.injEq, Prod.mk.injEq] at h
    simp [← h.2]
  · cases h

theorem length_of_word?_eq_none {bytes : List UInt8} (h : word? bytes = none) :
    bytes.length < 4 := by
  unfold word? at h
  split at h
  · cases h
  · next short =>
    match bytes, short with
    | [], _ | [_], _ | [_, _], _ | [_, _, _], _ => simp
    | a :: b :: c :: d :: rest, short => exact absurd rfl (short a b c d rest)

/-- Whatever is found, the bytes of the announced frame are used up. -/
theorem snd_next (bytes : List UInt8) :
    (next bytes).2 = bytes.drop (overhead + announced bytes) := by
  unfold next announced overhead
  split
  · next few =>
    have := length_of_word?_eq_none few
    exact (List.drop_eq_nil_of_le (by omega)).symm
  · next length afterLength head =>
    simp only [head, Option.map_some, Option.getD_some]
    have behind (k : Nat) : bytes.drop (4 + k) = afterLength.drop k := by
      rw [← drop_of_word? head, List.drop_drop]
    rw [show 9 + length = 4 + (5 + length) by omega, behind]
    split
    · next few =>
      have := length_of_word?_eq_none few
      exact (List.drop_eq_nil_of_le (by omega)).symm
    · next expected body second =>
      have behind' (k : Nat) : afterLength.drop (4 + k) = body.drop k := by
        rw [← drop_of_word? second, List.drop_drop]
      rw [show 5 + length = 4 + (length + 1) by omega, behind', ← List.drop_drop]
      split
      · next ended => simp [ended]
      · next last rest rest_eq =>
        simp only [rest_eq, List.drop_succ_cons, List.drop_zero]
        split
        · rfl
        · split <;> rfl

/-- A payload leaves fewer bytes, by the length of its frame. -/
theorem length_of_next {bytes rest payload : List UInt8}
    (h : next bytes = (.payload payload, rest)) : rest.length + size payload = bytes.length := by
  unfold next at h
  split at h
  · cases h
  · rename_i length afterLength hl
    split at h
    · cases h
    · rename_i expected body he
      split at h
      · cases h
      · rename_i last rest' hd
        simp only at h
        split at h
        · cases h
        · split at h
          · cases h
          · simp only [Prod.mk.injEq, Reading.payload.injEq] at h
            obtain ⟨hp, hr⟩ := h
            subst hp hr
            have h₁ := length_of_word? hl
            have h₂ := length_of_word? he
            have h₃ := congrArg List.length hd
            simp only [List.length_drop, List.length_cons] at h₃
            simp only [size, overhead, List.length_take]
            omega

theorem length_lt_of_next {bytes rest payload : List UInt8}
    (h : next bytes = (.payload payload, rest)) : rest.length < bytes.length := by
  have := length_of_next h
  simp only [size, overhead] at this
  omega

end Frame

end Outbox
