import Outbox.Proofs.Decimal.Rounding

/-!
# The shortest decimal

The search for the shortest decimal finds one, and what it finds lies in the interval of the number.
Seventeen digits suffice because a step of the grid with as many is less than `10 ^ (-16)` of the
number, while the interval is wider than `2 ^ (-53)` of it; so one of the two multiples next to the
number lies inside.

* `Finite.leadingExponent_spec` places a number between two powers of ten;
* `Finite.nearestOnGrid?_isSome` finds a multiple on every grid that is fine enough;
* `Finite.coversDecimal_shortest` is the result.
-/

namespace Outbox.Binary64.Finite

open Decimal (tens tens_pos tens_add tens_of_nonpos)

variable {x : Finite}

/-! ## The first digit -/

theorem quarters_pos (nonzero : x.isZero = false) : 0 < x.quarters := by
  have positive : x.significand ≠ 0 := by simpa [isZero] using nonzero
  exact Nat.mul_pos (by omega) (Nat.pow_pos (by decide))

/-- A number lies between the power of ten of its first digit and the next one. -/
theorem leadingExponent_spec (nonzero : x.isZero = false) :
    Nat.pow 2 1076 * tens x.leadingExponent ≤ x.quarters * tens (-x.leadingExponent) ∧
      x.quarters * tens (-(x.leadingExponent + 1)) < Nat.pow 2 1076 * tens (x.leadingExponent + 1) := by
  have positive := quarters_pos nonzero
  unfold leadingExponent
  generalize 1076 = k
  have unit : 0 < Nat.pow 2 k := Nat.pow_pos (by decide)
  simp only
  generalize x.quarters = num at *
  generalize Nat.pow 2 k = one at *
  split
  · next large =>
    have whole : num / one ≠ 0 := by
      have := Nat.div_pos large unit
      omega
    have digits : 0 < (Decimal.write (num / one)).length :=
      List.length_pos_iff.2 (Decimal.write_ne_nil _)
    have above := Decimal.lt_pow_length_write (num / one)
    have below := Decimal.pow_length_write_le whole
    generalize (Decimal.write (num / one)).length = n at *
    rw [tens_of_nonpos (by omega : -((n : Int) - 1) ≤ 0),
      tens_of_nonpos (by omega : -((n : Int) - 1 + 1) ≤ 0), Nat.mul_one, tens, tens,
      show ((n : Int) - 1).toNat = n - 1 by omega, show ((n : Int) - 1 + 1).toNat = n by omega]
    constructor
    · exact Nat.le_trans (Nat.mul_le_mul_left _ below) (Nat.mul_div_le num one)
    · rw [Nat.mul_comm]
      exact (Nat.div_lt_iff_lt_mul unit).1 above
  · next small =>
    have inverse : (one + num - 1) / num - 1 = (one - 1) / num := by
      rw [show one + num - 1 = one - 1 + num by omega, Nat.add_div_right _ positive]
      rfl
    have whole : (one - 1) / num ≠ 0 := by
      have := Nat.div_pos (by omega : num ≤ one - 1) positive
      omega
    rw [inverse]
    have digits : 0 < (Decimal.write ((one - 1) / num)).length :=
      List.length_pos_iff.2 (Decimal.write_ne_nil _)
    have above := Decimal.lt_pow_length_write ((one - 1) / num)
    have below := Decimal.pow_length_write_le whole
    generalize (Decimal.write ((one - 1) / num)).length = n at *
    rw [Int.negOfNat_eq, Int.ofNat_eq_natCast, tens_of_nonpos (by omega : -(n : Int) ≤ 0),
      tens_of_nonpos (by omega : -(n : Int) + 1 ≤ 0), Nat.mul_one, tens, tens,
      show (- -(n : Int)).toNat = n by omega, show (-(-(n : Int) + 1)).toNat = n - 1 by omega]
    constructor
    · have := (Nat.div_lt_iff_lt_mul positive).1 above
      rw [Nat.mul_comm]
      omega
    · have := Nat.mul_le_mul_left num below
      have := Nat.mul_div_le (one - 1) num
      omega

/-! ## The grids -/

theorem mul_tens_add (b j : Nat) (e : Int) :
    b * tens (e + j) * tens (-e) = Nat.pow 10 j * (b * tens e) * tens (-(e + j)) := by
  rw [Nat.mul_assoc, tens_add, ← Nat.mul_assoc, Nat.mul_left_comm b, Nat.mul_assoc]

theorem lt_of_lt_tens_add {a b j : Nat} {e : Int} (h : a * tens (-(e + j)) < b * tens (e + j)) :
    a * tens (-e) < Nat.pow 10 j * (b * tens e) := by
  apply Nat.lt_of_mul_lt_mul_right (a := tens (-(e + j)))
  rw [← mul_tens_add, Nat.mul_right_comm]
  exact Nat.mul_lt_mul_of_pos_right h (tens_pos _)

theorem le_of_tens_add_le {a b j : Nat} {e : Int} (h : b * tens (e + j) ≤ a * tens (-(e + j))) :
    Nat.pow 10 j * (b * tens e) ≤ a * tens (-e) := by
  apply Nat.le_of_mul_le_mul_right (c := tens (-(e + j))) _ (tens_pos _)
  rw [← mul_tens_add, Nat.mul_right_comm a]
  exact Nat.mul_le_mul_right _ h

/-- What is found on a grid rounds to the number and is next to it. -/
theorem coversDecimal_of_nearestOnGrid? {e : Int} {d : Nat} (h : x.nearestOnGrid? e = some d) :
    x.coversDecimal d e = true ∧ d ≤ x.quarters * tens (-e) / (Nat.pow 2 1076 * tens e) + 1 := by
  unfold coversDecimal tens
  unfold nearestOnGrid? at h
  generalize 1076 = k at h ⊢
  simp only at h
  generalize x.quarters * Nat.pow 10 (-e).toNat / (Nat.pow 2 k * Nat.pow 10 e.toNat) = below at h ⊢
  split at h
  · cases h
  · next inside _ =>
    cases h
    exact ⟨inside, Nat.le_succ _⟩
  · next _ inside =>
    cases h
    exact ⟨inside, Nat.le_refl _⟩
  · next inside inside' =>
    have either : d = below ∨ d = below + 1 := by
      revert h
      split
      · simp +contextual
      · split
        · simp +contextual
        · split <;> simp +contextual
    rcases either with rfl | rfl
    · exact ⟨inside, Nat.le_succ _⟩
    · exact ⟨inside', Nat.le_refl _⟩

/-- The interval of a number other than zero is wider than `10 ^ (-16)` of it. -/
theorem quarters_lt_width (nonzero : x.isZero = false) {den : Nat} (pos : 0 < den) :
    x.lowerEnd * den ≤ x.quarters * den ∧ x.quarters * den < x.upperEnd * den ∧
      x.quarters * den < Nat.pow 10 16 * (x.upperEnd * den - x.lowerEnd * den) := by
  have positive : x.significand ≠ 0 := by simpa [isZero] using nonzero
  have bounded : x.significand < 9007199254740992 := x.canonical.1
  have sixteen : Nat.pow 10 16 = 10000000000000000 := rfl
  have upper : x.upperEnd * den = x.quarters * den + 2 * (den * Nat.pow 2 x.scale) := by
    rw [upperEnd, Nat.add_mul, Nat.mul_assoc 2, Nat.mul_comm den]
  have step : 0 < den * Nat.pow 2 x.scale := Nat.mul_pos pos (Nat.pow_pos (by decide))
  rw [upper, quarters_mul, sixteen, lowerEnd]
  split
  · next power =>
    rw [Nat.sub_mul, quarters_mul, Nat.mul_comm _ den, power.1]
    generalize den * Nat.pow 2 x.scale = size at *
    have : Nat.pow 2 52 * size = 4503599627370496 * size := rfl
    omega
  · rw [Nat.sub_mul, quarters_mul, Nat.mul_assoc, Nat.mul_comm _ den]
    generalize den * Nat.pow 2 x.scale = size at *
    have above : 1 * size ≤ x.significand * size := Nat.mul_le_mul_right _ (by omega)
    have below : x.significand * size < 9007199254740992 * size := Nat.mul_lt_mul_of_pos_right bounded step
    omega

/-- A grid has a multiple that rounds to the number if its step is at most `10 ^ (-16)` of that. -/
theorem nearestOnGrid?_isSome {e : Int} (nonzero : x.isZero = false)
    (fine : Nat.pow 10 16 * (Nat.pow 2 1076 * tens e) ≤ x.quarters * tens (-e)) :
    (x.nearestOnGrid? e).isSome = true := by
  obtain ⟨lower, upper, width⟩ := quarters_lt_width nonzero (tens_pos (-e))
  unfold nearestOnGrid?
  unfold tens at fine lower upper width
  generalize 1076 = k at fine ⊢
  simp only
  have step : 0 < Nat.pow 2 k * Nat.pow 10 e.toNat :=
    Nat.mul_pos (Nat.pow_pos (by decide)) (Nat.pow_pos (by decide))
  generalize Nat.pow 2 k * Nat.pow 10 e.toNat = step_size at *
  generalize x.quarters * Nat.pow 10 (-e).toNat = num at *
  have below : num / step_size * step_size ≤ num := Nat.div_mul_le_self ..
  have above : num < (num / step_size + 1) * step_size := Nat.lt_mul_of_div_lt (Nat.lt_succ_self _) step
  split
  · -- with neither multiple inside, the interval would lie within one step
    next outside outside' =>
    have low : num / step_size * step_size ≤ x.lowerEnd * Nat.pow 10 (-e).toNat := by
      unfold covers at outside
      split at outside <;> simp only [Bool.and_eq_false_iff, decide_eq_false_iff_not] at outside <;> omega
    have high : x.upperEnd * Nat.pow 10 (-e).toNat ≤ (num / step_size + 1) * step_size := by
      unfold covers at outside'
      split at outside' <;> simp only [Bool.and_eq_false_iff, decide_eq_false_iff_not] at outside' <;> omega
    rw [Nat.add_mul] at high
    have narrow : x.upperEnd * Nat.pow 10 (-e).toNat - x.lowerEnd * Nat.pow 10 (-e).toNat ≤ step_size := by
      omega
    have := Nat.mul_le_mul_left (Nat.pow 10 16) narrow
    omega
  · rfl
  · rfl
  · split
    · rfl
    · split <;> rfl

/-! ## The search -/

/-- On the first seventeen grids a multiple next to the number has seventeen digits at most. -/
theorem le_of_nearestOnGrid? (nonzero : x.isZero = false) {i d : Nat} (few : i < 17)
    (found : x.nearestOnGrid? (x.leadingExponent - i) = some d) : d ≤ Nat.pow 10 17 := by
  have next := (coversDecimal_of_nearestOnGrid? found).2
  have high := (leadingExponent_spec nonzero).2
  generalize 1076 = k at next high
  have split : x.leadingExponent + 1 = x.leadingExponent - i + (i + 1 : Nat) := by omega
  rw [split] at high
  have below := lt_of_lt_tens_add high
  have step : 0 < Nat.pow 2 k * tens (x.leadingExponent - i) :=
    Nat.mul_pos (Nat.pow_pos (by decide)) (tens_pos _)
  have digits := (Nat.div_lt_iff_lt_mul step).2 below
  have : Nat.pow 10 (i + 1) ≤ Nat.pow 10 17 := Decimal.pow_le_pow (by decide) few
  omega

/-- The seventeenth grid is fine enough. -/
theorem nearestOnGrid?_seventeenth (nonzero : x.isZero = false) :
    (x.nearestOnGrid? (x.leadingExponent - 16)).isSome = true := by
  have low := (leadingExponent_spec nonzero).1
  apply nearestOnGrid?_isSome nonzero
  generalize 1076 = k at low ⊢
  have split : x.leadingExponent = x.leadingExponent - 16 + (16 : Nat) := by omega
  rw [split] at low
  exact le_of_tens_add_le low

theorem shortest_of_isZero (h : x.isZero = true) : x.shortest = (0, 0) := by
  simp [shortest, h]

/-- **The shortest decimal rounds to the number**, and has seventeen digits at most. -/
theorem coversDecimal_shortest (nonzero : x.isZero = false) :
    x.coversDecimal x.shortest.1 x.shortest.2 = true ∧ x.shortest.1 ≤ Nat.pow 10 17 := by
  obtain ⟨d, last⟩ := Option.isSome_iff_exists.1 (nearestOnGrid?_seventeenth nonzero)
  unfold shortest
  simp only [nonzero, Bool.false_eq_true, ↓reduceIte]
  generalize search : List.findSome? _ (List.range 17) = result
  cases result with
  | none =>
    rw [List.findSome?_eq_none_iff] at search
    have := search 16 (List.mem_range.2 (by decide))
    simp [last] at this
  | some answer =>
    obtain ⟨i, few, grid⟩ := List.exists_of_findSome?_eq_some search
    rw [Option.map_eq_some_iff] at grid
    obtain ⟨d, found, rfl⟩ := grid
    have covers := (coversDecimal_of_nearestOnGrid? found).1
    have short := le_of_nearestOnGrid? nonzero (List.mem_range.1 few) found
    rw [Option.getD_some]
    split
    · next trailing =>
      have tenfold : d = d / 10 * Nat.pow 10 1 := by
        rw [Nat.pow_eq, Nat.pow_one]
        omega
      refine ⟨?_, by simp only; omega⟩
      rw [tenfold, coversDecimal_mul_pow] at covers
      exact covers
    · exact ⟨covers, short⟩

end Outbox.Binary64.Finite
