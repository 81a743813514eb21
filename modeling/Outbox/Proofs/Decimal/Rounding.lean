import Outbox.Decimal.Shortest

/-!
# Reading decimals

Every finite number has an interval of reals that round to it, and a decimal is read as a number if it
lies in that interval. The interval is given by its ends (`Finite.covers`), reading by a division that
rounds (`Finite.ofUnits?`). Here is that the two agree.

Just above a power of two the numbers below lie twice as close, so the interval is no longer
symmetric there: a decimal in its lower part has a significand that rounds up to `2 ^ 53`.

* `Decimal.tens` is the power of ten with a given exponent, one where that is negative;
* `Finite.coversDecimal` says that a decimal lies in the interval of a number; shifting the point and
  the exponent together does not matter to it (`coversDecimal_mul_pow`);
* `Finite.ofDecimal?_of_covers` is the result.
-/

namespace Outbox

/-! ## Powers of ten -/

namespace Decimal

theorem pow_le_pow {b m n : Nat} (pos : 0 < b) (h : m ≤ n) : Nat.pow b m ≤ Nat.pow b n :=
  Nat.pow_le_pow_right pos h

theorem pow_add (b m n : Nat) : Nat.pow b m * Nat.pow b n = Nat.pow b (m + n) :=
  (Nat.pow_add b m n).symm

/-- Powers of one base around a number, put together in another way. -/
theorem pow_mul_pow {b i j m n : Nat} (h : i + j = m + n) (t : Nat) :
    Nat.pow b i * t * Nat.pow b j = Nat.pow b m * t * Nat.pow b n := by
  rw [Nat.mul_right_comm, pow_add, Nat.mul_right_comm, pow_add, h]

/-- The power of ten with this exponent, if that is not negative; else one. -/
def tens (e : Int) : Nat :=
  Nat.pow 10 e.toNat

theorem tens_pos (e : Int) : 0 < tens e :=
  Nat.pow_pos (by decide)

theorem tens_of_nonpos {e : Int} (h : e ≤ 0) : tens e = 1 := by
  rw [tens, Int.toNat_of_nonpos h]

/-- A shift of the exponent, with the negative part of either exponent on the other side. -/
theorem tens_add (e : Int) (j : Nat) :
    tens (e + j) * tens (-e) = Nat.pow 10 j * tens e * tens (-(e + j)) := by
  simp only [tens, Nat.pow_eq, ← Nat.pow_add]
  congr 1
  omega

theorem lt_pow_length_write (n : Nat) : n < Nat.pow 10 (write n).length :=
  (Nat.length_toDigits_le_iff (by decide) Nat.length_toDigits_pos).1 (Nat.le_refl _)

theorem pow_length_write_le {n : Nat} (h : n ≠ 0) : Nat.pow 10 ((write n).length - 1) ≤ n := by
  by_cases one : (write n).length ≤ 1
  · rw [Nat.sub_eq_zero_of_le one]
    exact Nat.pos_of_ne_zero h
  · apply Nat.le_of_not_lt
    intro less
    have := (Nat.length_toDigits_le_iff (b := 10) (by decide) (by omega)).2 less
    rw [← write] at this
    omega

end Decimal

open Decimal (tens tens_pos tens_add pow_add pow_le_pow pow_mul_pow)

namespace Binary64

/-! ## Division that rounds -/

/-- The nearest natural is the one within a half, an even one if it is just a half. -/
theorem roundDiv_eq {num den m : Nat} (pos : 0 < den) (lower : 2 * (m * den) ≤ 2 * num + den)
    (upper : 2 * num ≤ 2 * (m * den) + den)
    (tie : m % 2 = 1 → 2 * (m * den) < 2 * num + den ∧ 2 * num < 2 * (m * den) + den) :
    roundDiv num den = m := by
  have division : num = num / den * den + num % den := (Nat.div_add_mod' num den).symm
  have rest : num % den < den := Nat.mod_lt _ pos
  have near : m = num / den ∨ m = num / den + 1 := by
    have above : num / den < m + 1 := by
      apply Nat.lt_of_mul_lt_mul_right (a := den)
      rw [Nat.add_mul]
      omega
    have below : m < num / den + 2 := by
      apply Nat.lt_of_mul_lt_mul_right (a := den)
      rw [Nat.add_mul]
      omega
    omega
  simp only [roundDiv]
  rcases near with same | next
  · rw [← same] at division ⊢
    split
    · rfl
    · split <;> omega
  · have shift : m * den = num / den * den + den := by rw [next, Nat.add_mul, Nat.one_mul]
    split
    · omega
    · split <;> omega

namespace Finite

variable {x : Finite} {num den : Nat}

/-! ## The interval of a number -/

theorem quarters_mul (x : Finite) (den : Nat) :
    x.quarters * den = 4 * (x.significand * (den * Nat.pow 2 x.scale)) := by
  rw [quarters]
  simp only [Nat.mul_assoc, Nat.mul_comm den]

/-- What lies in the interval of a number is at most half a step above it, and less if the
significand is odd. -/
theorem le_of_covers (h : x.covers (4 * num) den = true) :
    2 * num ≤ 2 * (x.significand * (den * Nat.pow 2 x.scale)) + den * Nat.pow 2 x.scale ∧
      (x.significand % 2 = 1 →
        2 * num < 2 * (x.significand * (den * Nat.pow 2 x.scale)) + den * Nat.pow 2 x.scale) := by
  have upper : x.upperEnd * den =
      4 * (x.significand * (den * Nat.pow 2 x.scale)) + 2 * (den * Nat.pow 2 x.scale) := by
    rw [upperEnd, Nat.add_mul, quarters_mul, Nat.mul_assoc, Nat.mul_comm den]
  unfold covers at h
  split at h <;> simp only [Bool.and_eq_true, decide_eq_true_eq] at h <;> omega

/-- What lies in the interval of a number is at most half a step below it, and less if the
significand is odd. -/
theorem ge_of_covers (h : x.covers (4 * num) den = true) :
    2 * (x.significand * (den * Nat.pow 2 x.scale)) ≤ 2 * num + den * Nat.pow 2 x.scale ∧
      (x.significand % 2 = 1 →
        2 * (x.significand * (den * Nat.pow 2 x.scale)) < 2 * num + den * Nat.pow 2 x.scale) := by
  have lower : 4 * (x.significand * (den * Nat.pow 2 x.scale)) ≤
      x.lowerEnd * den + 2 * (den * Nat.pow 2 x.scale) := by
    rw [← quarters_mul, Nat.mul_comm den, ← Nat.mul_assoc, ← Nat.add_mul]
    apply Nat.mul_le_mul_right
    unfold lowerEnd
    split <;> omega
  unfold covers at h
  split at h <;> simp only [Bool.and_eq_true, decide_eq_true_eq] at h <;> omega

/-- Below a power of two the interval is half as wide. -/
theorem ge_of_covers_power (power : x.significand = Nat.pow 2 52) (scaled : 0 < x.scale)
    (h : x.covers (4 * num) den = true) :
    4 * (x.significand * (den * Nat.pow 2 x.scale)) ≤ 4 * num + den * Nat.pow 2 x.scale := by
  have lower : 4 * (x.significand * (den * Nat.pow 2 x.scale)) ≤
      x.lowerEnd * den + den * Nat.pow 2 x.scale := by
    rw [← quarters_mul, lowerEnd, if_pos ⟨power, scaled⟩, Nat.mul_comm den, ← Nat.add_mul]
    apply Nat.mul_le_mul_right
    omega
  unfold covers at h
  split at h <;> simp only [Bool.and_eq_true, decide_eq_true_eq] at h <;> omega

/-! ## Reading a fraction -/

/-- The scale that leaves 53 bits in front of the point. -/
theorem log2_sub {n k : Nat} (below : n < Nat.pow 2 (53 + k)) (above : Nat.pow 2 (52 + k) ≤ n ∨ k = 0) :
    Nat.log2 n - 52 = k := by
  by_cases zero : n = 0
  · subst zero
    have : 0 < Nat.pow 2 (52 + k) := Nat.pow_pos (by decide)
    simp only [Nat.log2_zero]
    omega
  · have : n.log2 < 53 + k := (Nat.log2_lt zero).2 below
    rcases above with large | rfl
    · have : 52 + k ≤ n.log2 := (Nat.le_log2 zero).2 large
      omega
    · omega

theorem ofParts?_self (x : Finite) : ofParts? x.negative x.significand x.scale = some x := by
  simp [ofParts?, x.canonical]

/-- What rounds to a number is read as that number. -/
theorem ofUnits?_of_covers (pos : 0 < den) (h : x.covers (4 * num) den = true) :
    ofUnits? x.negative num den = some x := by
  have bounded : x.significand < Nat.pow 2 53 := x.canonical.1
  obtain ⟨upper, upper_odd⟩ := le_of_covers h
  obtain ⟨lower, lower_odd⟩ := ge_of_covers h
  have step : 0 < den * Nat.pow 2 x.scale := Nat.mul_pos pos (Nat.pow_pos (by decide))
  -- the division by the denominator, bounded from both sides
  have below {k : Nat} (less : num < Nat.pow 2 53 * (den * Nat.pow 2 k)) :
      num / den < Nat.pow 2 (53 + k) := by
    rw [Nat.div_lt_iff_lt_mul pos, Nat.pow_eq, Nat.pow_add]
    simpa only [Nat.pow_eq, Nat.mul_assoc, Nat.mul_comm den] using less
  have above {k : Nat} (more : Nat.pow 2 52 * (den * Nat.pow 2 k) ≤ num) :
      Nat.pow 2 (52 + k) ≤ num / den := by
    rw [Nat.le_div_iff_mul_le pos, Nat.pow_eq, Nat.pow_add]
    simpa only [Nat.pow_eq, Nat.mul_assoc, Nat.mul_comm den] using more
  have fits : (x.significand + 1) * (den * Nat.pow 2 x.scale) ≤
      Nat.pow 2 53 * (den * Nat.pow 2 x.scale) := Nat.mul_le_mul_right _ bounded
  rw [Nat.add_mul, Nat.one_mul] at fits
  by_cases regular : Nat.pow 2 52 * (den * Nat.pow 2 x.scale) ≤ num ∨ x.scale = 0
  · have scale : Nat.log2 (num / den) - 52 = x.scale :=
      log2_sub (below (by omega)) (regular.imp_left above)
    have rounded : roundDiv num (den * Nat.pow 2 x.scale) = x.significand :=
      roundDiv_eq step lower upper fun odd => ⟨lower_odd odd, upper_odd odd⟩
    simp only [ofUnits?, scale, rounded]
    rw [if_neg (Nat.ne_of_lt bounded), ofParts?_self]
  · -- below a power of two the step is half as large, and the significand rounds up
    obtain ⟨small, scaled⟩ := not_or.1 regular
    have power : x.significand = Nat.pow 2 52 := by
      have large : Nat.pow 2 52 ≤ x.significand := x.canonical.2.2.resolve_right scaled
      by_cases more : Nat.pow 2 52 + 1 ≤ x.significand
      · have : (Nat.pow 2 52 + 1) * (den * Nat.pow 2 x.scale) ≤
            x.significand * (den * Nat.pow 2 x.scale) := Nat.mul_le_mul_right _ more
        rw [Nat.add_mul] at this
        omega
      · omega
    have lower := ge_of_covers_power power (Nat.pos_of_ne_zero scaled) h
    obtain ⟨k, next⟩ : ∃ k, x.scale = k + 1 := ⟨x.scale - 1, by omega⟩
    have double : den * Nat.pow 2 x.scale = 2 * (den * Nat.pow 2 k) := by
      rw [next, Nat.pow_eq, Nat.pow_succ, Nat.mul_comm _ 2, Nat.mul_left_comm]
      rfl
    have halves : Nat.pow 2 52 * (2 * (den * Nat.pow 2 k)) = 2 * (Nat.pow 2 52 * (den * Nat.pow 2 k)) :=
      Nat.mul_left_comm ..
    have carried : Nat.pow 2 52 * (2 * (den * Nat.pow 2 k)) = Nat.pow 2 53 * (den * Nat.pow 2 k) :=
      (Nat.mul_assoc (Nat.pow 2 52) 2 _).symm
    have large : den * Nat.pow 2 k ≤ Nat.pow 2 52 * (den * Nat.pow 2 k) :=
      Nat.le_mul_of_pos_left _ (by decide)
    rw [double] at small lower step
    rw [power] at lower
    have scale : Nat.log2 (num / den) - 52 = k :=
      log2_sub (below (by omega)) (.inl (above (by omega)))
    have rounded : roundDiv num (den * Nat.pow 2 k) = Nat.pow 2 53 :=
      roundDiv_eq (by omega) (by omega) (by omega) fun odd => absurd odd (by decide)
    simp only [ofUnits?, scale, rounded, ↓reduceIte]
    rw [← next, ← power, ofParts?_self]

/-! ## Reading a decimal -/

/-- Whether the decimal `d * 10 ^ e` rounds to `x`. -/
def coversDecimal (x : Finite) (d : Nat) (e : Int) : Bool :=
  x.covers (d * (Nat.pow 2 1076 * tens e)) (tens (-e))

theorem covers_congr {num' den' : Nat} (pos : 0 < den) (pos' : 0 < den')
    (same : num * den' = num' * den) : x.covers num den = x.covers num' den' := by
  have below (lo : Nat) : lo * den ≤ num ↔ lo * den' ≤ num' := by
    rw [← Nat.mul_le_mul_right_iff pos', Nat.mul_right_comm, same, Nat.mul_le_mul_right_iff pos]
  have above (hi : Nat) : num ≤ hi * den ↔ num' ≤ hi * den' := by
    rw [← Nat.mul_le_mul_right_iff pos', Nat.mul_right_comm, same, Nat.mul_le_mul_right_iff pos]
  simp only [covers, below, above, ← Nat.not_le]

/-- Factors of ten may stand in front of the point or in the exponent. -/
theorem coversDecimal_mul_pow (x : Finite) (d j : Nat) (e : Int) :
    x.coversDecimal (d * Nat.pow 10 j) e = x.coversDecimal d (e + j) := by
  apply covers_congr (tens_pos _) (tens_pos _)
  calc d * Nat.pow 10 j * (Nat.pow 2 1076 * tens e) * tens (-(e + j))
      = d * Nat.pow 2 1076 * (Nat.pow 10 j * tens e * tens (-(e + j))) := by
        simp only [Nat.mul_assoc, Nat.mul_left_comm (Nat.pow 10 j)]
    _ = d * Nat.pow 2 1076 * (tens (e + j) * tens (-e)) := by rw [tens_add]
    _ = d * (Nat.pow 2 1076 * tens (e + j)) * tens (-e) := by simp only [Nat.mul_assoc]

theorem coversDecimal_eq (x : Finite) (d : Nat) (e : Int) :
    x.coversDecimal d e = x.covers (4 * (d * tens e * Nat.pow 2 1074)) (tens (-e)) := by
  have regroup {u v : Nat} (quarter : u = 4 * v) : d * (u * tens e) = 4 * (d * tens e * v) := by
    rw [quarter, Nat.mul_assoc 4, Nat.mul_left_comm, Nat.mul_comm v, Nat.mul_assoc]
  rw [coversDecimal, regroup (u := Nat.pow 2 1076) (v := Nat.pow 2 1074) (by decide +kernel)]

/-- A decimal that rounds to a number other than zero is more than half of the smallest one. -/
theorem tens_lt_of_covers {d : Nat} {e : Int} (nonzero : x.isZero = false)
    (h : x.coversDecimal d e = true) : tens (-e) < 2 * (d * tens e * Nat.pow 2 1074) := by
  rw [coversDecimal_eq] at h
  obtain ⟨lower, lower_odd⟩ := ge_of_covers h
  have pos : 0 < tens (-e) := tens_pos _
  have step : tens (-e) ≤ tens (-e) * Nat.pow 2 x.scale :=
    Nat.le_mul_of_pos_right _ (Nat.pow_pos (by decide))
  generalize tens (-e) * Nat.pow 2 x.scale = step_size at *
  have positive : x.significand ≠ 0 := by simpa [isZero] using nonzero
  by_cases one : x.significand = 1
  · rw [one] at lower_odd
    omega
  · have two : 2 * step_size ≤ x.significand * step_size := Nat.mul_le_mul_right _ (by omega)
    omega

theorem ne_zero_of_covers {d : Nat} {e : Int} (nonzero : x.isZero = false)
    (h : x.coversDecimal d e = true) : d ≠ 0 := by
  rintro rfl
  have low := tens_lt_of_covers nonzero h
  simp only [Nat.zero_mul, Nat.mul_zero, Nat.not_lt_zero] at low

/-- A decimal that rounds to a number is below `2 ^ 1024`. -/
theorem lt_tens_of_covers {d : Nat} {e : Int} (h : x.coversDecimal d e = true) :
    d * tens e < Nat.pow 2 1024 * tens (-e) := by
  rw [coversDecimal_eq] at h
  obtain ⟨bounded, scale, -⟩ := x.canonical
  have upper := (le_of_covers h).1
  have pos : 0 < tens (-e) * Nat.pow 2 x.scale := Nat.mul_pos (tens_pos _) (Nat.pow_pos (by decide))
  have fits : (x.significand + 1) * (tens (-e) * Nat.pow 2 x.scale) ≤
      Nat.pow 2 53 * (tens (-e) * Nat.pow 2 x.scale) := Nat.mul_le_mul_right _ bounded
  rw [Nat.add_mul, Nat.one_mul] at fits
  have units : d * tens e * Nat.pow 2 1074 < Nat.pow 2 53 * tens (-e) * Nat.pow 2 x.scale := by
    rw [Nat.mul_assoc (Nat.pow 2 53)]
    omega
  -- the exponents get names, so that no power of theirs is computed
  generalize largest : 2045 = k at scale
  generalize unit : 1074 = j at units
  generalize limit : 1024 = i
  apply Nat.lt_of_mul_lt_mul_right (a := Nat.pow 2 j)
  rw [← pow_mul_pow (i := 53) (j := k) (by omega)]
  exact Nat.lt_of_lt_of_le units (Nat.mul_le_mul_left _ (pow_le_pow Nat.two_pos scale))

/-- A decimal that rounds to a number other than zero is not among those that are too small to be
read. -/
theorem length_of_covers_low {d : Nat} {e : Int} (nonzero : x.isZero = false)
    (h : x.coversDecimal d e = true) : ¬ ((Decimal.write d).length + e < -323) := by
  intro tiny
  obtain ⟨k, hk, smallest⟩ : ∃ k, k = 324 ∧ 2 * Nat.pow 2 1074 ≤ Nat.pow 10 k :=
    ⟨324, rfl, by decide +kernel⟩
  have : 2 * (d * tens e * Nat.pow 2 1074) ≤ tens (-e) :=
    calc 2 * (d * tens e * Nat.pow 2 1074)
        = d * (2 * Nat.pow 2 1074) := by
          rw [Decimal.tens_of_nonpos (by omega), Nat.mul_one, Nat.mul_left_comm]
      _ ≤ Nat.pow 10 (Decimal.write d).length * Nat.pow 10 k :=
          Nat.mul_le_mul (Nat.le_of_lt (Decimal.lt_pow_length_write d)) smallest
      _ = Nat.pow 10 ((Decimal.write d).length + k) := pow_add ..
      _ ≤ tens (-e) := pow_le_pow (by decide) (by omega)
  exact Nat.not_lt.2 this (tens_lt_of_covers nonzero h)

/-- A decimal that rounds to a number is not among those that are too large to be read. -/
theorem length_of_covers_high {d : Nat} {e : Int} (positive : d ≠ 0)
    (h : x.coversDecimal d e = true) : ¬ (309 < (Decimal.write d).length + e) := by
  intro huge
  have high := lt_tens_of_covers h
  obtain ⟨k, hk, largest⟩ : ∃ k, k = 309 ∧ Nat.pow 2 1024 ≤ Nat.pow 10 k :=
    ⟨309, rfl, by decide +kernel⟩
  generalize 1024 = i at high largest
  have digits : 0 < (Decimal.write d).length := List.length_pos_iff.2 (Decimal.write_ne_nil d)
  have : Nat.pow 2 i * tens (-e) ≤ d * tens e :=
    calc Nat.pow 2 i * tens (-e)
        ≤ Nat.pow 10 k * tens (-e) := Nat.mul_le_mul_right _ largest
      _ = Nat.pow 10 (k + (-e).toNat) := pow_add ..
      _ ≤ Nat.pow 10 ((Decimal.write d).length - 1 + e.toNat) := pow_le_pow (by decide) (by omega)
      _ = Nat.pow 10 ((Decimal.write d).length - 1) * tens e := (pow_add ..).symm
      _ ≤ d * tens e := Nat.mul_le_mul_right _ (Decimal.pow_length_write_le positive)
  exact absurd this (Nat.not_le.2 high)

/-- There is one zero of either sign. -/
theorem eq_zero_of_isZero (h : x.isZero = true) : x = zero x.negative := by
  obtain ⟨negative, significand, scale, canonical⟩ := x
  obtain rfl : significand = 0 := by simpa [isZero] using h
  obtain rfl : scale = 0 := canonical.2.2.resolve_left (by decide)
  rfl

theorem ofDecimal?_zero (negative : Bool) (e : Int) : ofDecimal? negative 0 e = some (zero negative) := by
  simp [ofDecimal?]

/-- **What rounds to a number is read as that number.** -/
theorem ofDecimal?_of_covers {d : Nat} {e : Int} (nonzero : x.isZero = false)
    (h : x.coversDecimal d e = true) : ofDecimal? x.negative d e = some x := by
  have positive := ne_zero_of_covers nonzero h
  have not_tiny := length_of_covers_low nonzero h
  have not_huge := length_of_covers_high positive h
  rw [coversDecimal_eq] at h
  simp only [ofDecimal?, positive, not_tiny, not_huge, or_self, ↓reduceIte]
  exact ofUnits?_of_covers (tens_pos _) h

end Finite

end Binary64

end Outbox
