import Outbox.Text.Utf8

/-!
# Characters read back from UTF-8

What `encode` writes is read by `decode` character by character, with no stray bytes. The shape of a
character's bytes tells how long it is, whatever follows it.

* `lead_single`, `lead_pair`, `lead_triple` and `lead_quad` read the four shapes;
* `decode_encode` is the result.
-/

namespace Outbox.Utf8

/-! ## The four shapes -/

theorem within_iff {lo hi b : UInt8} :
    within lo hi b = true ↔ lo.toNat ≤ b.toNat ∧ b.toNat ≤ hi.toNat := by
  simp [within, UInt8.le_iff_toNat_le]

theorem lead_single {b : UInt8} (h : b.toNat < 0x80) (rest : List UInt8) :
    lead b rest = (.char (Char.ofNat b.toNat), 0) := by
  have none_longer (lo hi : UInt8) (above : 0x80 ≤ lo.toNat) : within lo hi b = false := by
    rw [← Bool.not_eq_true, within_iff]
    omega
  have differs (first : UInt8) (above : 0x80 ≤ first.toNat) : (b == first) = false := by
    rw [beq_eq_false_iff_ne]
    rintro rfl
    omega
  simp [lead, isPair, isTriple, isQuad, none_longer, differs, single, UInt8.lt_iff_toNat_lt, h]

theorem lead_pair {b₀ b₁ : UInt8} (h : isPair b₀ b₁ = true) (rest : List UInt8) :
    lead b₀ (b₁ :: rest) = (.char (pairChar b₀ b₁), 1) := by
  simp [lead, h]

theorem lead_triple {b₀ b₁ b₂ : UInt8} (h : isTriple b₀ b₁ b₂ = true) (rest : List UInt8) :
    lead b₀ (b₁ :: b₂ :: rest) = (.char (tripleChar b₀ b₁ b₂), 2) := by
  have no_pair : isPair b₀ b₁ = false := by
    rw [← Bool.not_eq_true]
    intro pair
    simp only [isPair, isTriple, isTail, Bool.and_eq_true, Bool.or_eq_true, beq_iff_eq, within_iff,
      ← UInt8.toNat_inj, UInt8.reduceToNat] at pair h
    omega
  simp [lead, no_pair, h]

theorem lead_quad {b₀ b₁ b₂ b₃ : UInt8} (h : isQuad b₀ b₁ b₂ b₃ = true) (rest : List UInt8) :
    lead b₀ (b₁ :: b₂ :: b₃ :: rest) = (.char (quadChar b₀ b₁ b₂ b₃), 3) := by
  simp only [isQuad, isTail, Bool.and_eq_true, Bool.or_eq_true, beq_iff_eq, within_iff,
    ← UInt8.toNat_inj, UInt8.reduceToNat] at h
  have no_pair : isPair b₀ b₁ = false := by
    rw [← Bool.not_eq_true]
    intro pair
    simp only [isPair, Bool.and_eq_true, within_iff, UInt8.reduceToNat] at pair
    omega
  have no_triple : isTriple b₀ b₁ b₂ = false := by
    rw [← Bool.not_eq_true]
    intro triple
    simp only [isTriple, isTail, Bool.and_eq_true, Bool.or_eq_true, beq_iff_eq, within_iff,
      ← UInt8.toNat_inj, UInt8.reduceToNat] at triple
    omega
  have quad : isQuad b₀ b₁ b₂ b₃ = true := by
    simp only [isQuad, isTail, Bool.and_eq_true, Bool.or_eq_true, beq_iff_eq, within_iff,
      ← UInt8.toNat_inj, UInt8.reduceToNat]
    exact h
  simp [lead, no_pair, no_triple, quad]

/-! ## Texts -/

/-- A character is read back in front of anything. -/
theorem decode_encodeChar (c : Char) (rest : List UInt8) :
    decode (String.utf8EncodeChar c ++ rest) = .char c :: decode rest := by
  have valid : c.val.toNat < 0xD800 ∨ 0xDFFF < c.val.toNat ∧ c.val.toNat < 0x110000 := c.valid
  have same : Char.ofNat c.val.toNat = c := Char.ofNat_toNat c
  unfold String.utf8EncodeChar
  generalize c.val.toNat = v at valid same
  simp only
  split
  · next ascii =>
    have number : (UInt8.ofNat v).toNat = v := by
      rw [UInt8.toNat_ofNat']
      omega
    rw [List.singleton_append, decode_cons, lead_single (by omega), number, same]
    rfl
  split
  · next above below =>
    have pair : isPair (UInt8.ofNat (v / 64 % 32 + 192)) (UInt8.ofNat (v % 64 + 128)) = true := by
      simp only [isPair, isTail, Bool.and_eq_true, within_iff, UInt8.toNat_ofNat', UInt8.reduceToNat]
      omega
    have value : pairChar (UInt8.ofNat (v / 64 % 32 + 192)) (UInt8.ofNat (v % 64 + 128)) = c := by
      rw [pairChar, tailBits, ← same]
      simp only [UInt8.toNat_ofNat']
      congr 1
      omega
    rw [List.cons_append, List.singleton_append, decode_cons, lead_pair pair, value]
    rfl
  split
  · next above below =>
    have triple : isTriple (UInt8.ofNat (v / 4096 % 16 + 224)) (UInt8.ofNat (v / 64 % 64 + 128))
        (UInt8.ofNat (v % 64 + 128)) = true := by
      simp only [isTriple, isTail, Bool.and_eq_true, Bool.or_eq_true, beq_iff_eq, within_iff,
        ← UInt8.toNat_inj, UInt8.toNat_ofNat', UInt8.reduceToNat]
      omega
    have value : tripleChar (UInt8.ofNat (v / 4096 % 16 + 224)) (UInt8.ofNat (v / 64 % 64 + 128))
        (UInt8.ofNat (v % 64 + 128)) = c := by
      rw [tripleChar, tailBits, tailBits, ← same]
      simp only [UInt8.toNat_ofNat']
      congr 1
      omega
    rw [List.cons_append, List.cons_append, List.singleton_append, decode_cons, lead_triple triple,
      value]
    rfl
  · next above =>
    have quad : isQuad (UInt8.ofNat (v / 262144 % 8 + 240)) (UInt8.ofNat (v / 4096 % 64 + 128))
        (UInt8.ofNat (v / 64 % 64 + 128)) (UInt8.ofNat (v % 64 + 128)) = true := by
      simp only [isQuad, isTail, Bool.and_eq_true, Bool.or_eq_true, beq_iff_eq, within_iff,
        ← UInt8.toNat_inj, UInt8.toNat_ofNat', UInt8.reduceToNat]
      omega
    have value : quadChar (UInt8.ofNat (v / 262144 % 8 + 240)) (UInt8.ofNat (v / 4096 % 64 + 128))
        (UInt8.ofNat (v / 64 % 64 + 128)) (UInt8.ofNat (v % 64 + 128)) = c := by
      rw [quadChar, tailBits, tailBits, tailBits, ← same]
      simp only [UInt8.toNat_ofNat']
      congr 1
      omega
    rw [List.cons_append, List.cons_append, List.cons_append, List.singleton_append, decode_cons,
      lead_quad quad, value]
    rfl

/-- **What is written is read character by character.** -/
@[simp] theorem decode_encode (cs : List Char) : decode (encode cs) = cs.map .char := by
  induction cs with
  | nil => rfl
  | cons c cs ih => rw [encode_cons, decode_encodeChar, ih, List.map_cons]

end Outbox.Utf8
