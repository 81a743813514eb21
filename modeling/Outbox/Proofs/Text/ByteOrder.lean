import Outbox.Text.Utf8

/-!
# The order of bytes

Texts are in the order of their bytes just if they are in the order of their characters: UTF-8 writes a
character that comes before another one with bytes that come before those of the other, whatever follows.

* `encodeChar_append_lt` is about the first character that differs;
* `encode_lt_iff` is the result.
-/

namespace Outbox.Utf8

/-- Of two numbers the less has the less digit in base 64 where they differ first. -/
theorem digits_lt {v w : Nat} (less : v < w) (small : w < 0x110000) :
    v / 262144 % 8 < w / 262144 % 8 ∨ v / 262144 % 8 = w / 262144 % 8 ∧
      (v / 4096 % 64 < w / 4096 % 64 ∨ v / 4096 % 64 = w / 4096 % 64 ∧
        (v / 64 % 64 < w / 64 % 64 ∨ v / 64 % 64 = w / 64 % 64 ∧ v % 64 < w % 64)) := by
  have last {v w : Nat} (less : v < w) : v / 64 < w / 64 ∨ v / 64 = w / 64 ∧ v % 64 < w % 64 := by
    omega
  have third (n : Nat) : n / 262144 = n / 64 / 64 / 64 := by omega
  have second (n : Nat) : n / 4096 = n / 64 / 64 := by omega
  have first : w / 64 / 64 / 64 < 8 := by omega
  rw [third, third, second, second]
  rcases last less with less | same
  · rcases last less with less | same
    · rcases last less with less | same <;> omega
    · omega
  · omega

/-- The bytes of a character that comes before another one come before those of the other. -/
theorem encodeChar_append_lt {c d : Char} (less : c < d) (front back : List UInt8) :
    String.utf8EncodeChar c ++ front < String.utf8EncodeChar d ++ back := by
  have small : d.val.toNat < 0x110000 := by
    rcases d.valid with low | high
    · exact Nat.lt_trans low (by decide)
    · exact high.2
  have values : c.val.toNat < d.val.toNat := UInt32.lt_iff_toNat_lt.1 (Char.lt_def.1 less)
  have byte {n : Nat} (fits : n < 256) : (UInt8.ofNat n).toNat = n :=
    UInt8.toNat_ofNat_of_lt' fits
  unfold String.utf8EncodeChar
  generalize c.val.toNat = v at values
  generalize d.val.toNat = w at values small
  have digits := digits_lt values small
  -- the forms of different length differ in their first bytes, forms of one length in some digit
  simp only
  repeat' split
  all_goals
    simp (disch := omega) only [List.cons_append, List.nil_append, List.cons_lt_cons_iff,
      UInt8.lt_iff_toNat_lt, ← UInt8.toNat_inj, byte]
    omega

/-- A text that comes before another one has bytes that come before those of the other. -/
theorem encode_lt {cs ds : List Char} (less : cs < ds) : encode cs < encode ds := by
  induction cs generalizing ds with
  | nil =>
    cases ds with
    | nil => exact absurd less (List.lt_irrefl _)
    | cons d ds =>
      rw [encode_nil, encode_cons]
      cases written : String.utf8EncodeChar d with
      | nil => exact absurd written String.utf8EncodeChar_ne_nil
      | cons b bytes => exact List.nil_lt_cons _ _
  | cons c cs ih =>
    cases ds with
    | nil => exact absurd less (List.not_lt_nil _)
    | cons d ds =>
      rw [encode_cons, encode_cons]
      rcases List.cons_lt_cons_iff.1 less with first | ⟨rfl, later⟩
      · exact encodeChar_append_lt first _ _
      · exact List.append_left_lt (ih later)

/-- **The order of bytes is the order of characters.** -/
theorem encode_lt_iff {cs ds : List Char} : encode cs < encode ds ↔ cs < ds := by
  refine ⟨fun less => ?_, encode_lt⟩
  rcases Std.lt_trichotomy cs ds with before | rfl | behind
  · exact before
  · exact absurd less (List.lt_irrefl _)
  · exact absurd less (List.lt_asymm (encode_lt behind))

end Outbox.Utf8
