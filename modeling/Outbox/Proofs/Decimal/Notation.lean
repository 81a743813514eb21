import Outbox.Decimal.Notation
import Outbox.Proofs.Decimal.Shortest

/-!
# Numerals that read back

A finite number is laid out as a numeral that denotes its shortest decimal, so the numeral is read as
the number. It is never written with digits alone, which would be an integer.

* `Numeral.Legible` is what a reader of text asks of a numeral; integers and layouts give only such
  numerals (`legible_ofInt`, `Layout.legible_numeral`);
* `Layout.numeral_denotes` says what the numeral of a layout denotes;
* `Layout.ofDecimal?_ofFinite` is the result.
-/

namespace Outbox.Decimal

/-! ## Digits -/

/-- No number but zero is written with a zero in front. -/
theorem head?_write {n : Nat} (positive : n ≠ 0) : (write n).head? ≠ some '0' := by
  induction n using Nat.strongRecOn with
  | ind n ih =>
    by_cases small : n < 10
    · have single : ∀ k < 10, k ≠ 0 → [Nat.digitChar k].head? ≠ some '0' := by decide
      rw [write, Nat.toDigits_of_lt_base small]
      exact single n small positive
    · obtain ⟨c, cs, shorter⟩ := List.exists_cons_of_ne_nil (write_ne_nil (n / 10))
      have first := ih (n / 10) (by omega) (by omega)
      rw [shorter] at first
      rw [write] at shorter ⊢
      rw [Nat.toDigits_of_base_le (by decide) (by omega), shorter]
      exact first

theorem ofDigits_zeros_append (k : Nat) (ds : List Char) : ofDigits (zeros k ++ ds) = ofDigits ds := by
  induction k with
  | zero => rfl
  | succ k ih =>
    rw [← ih, ← ofDigits_dropWhile, ← ofDigits_dropWhile (zeros k ++ ds)]
    rfl

theorem isDigit_of_mem_zeros {k : Nat} {c : Char} (h : c ∈ zeros k) : c.isDigit = true := by
  rw [(List.mem_replicate.1 h).2]
  rfl

/-- What a reader of text asks of a numeral: digits throughout, one at least in front of the point,
and no zero in front of others. -/
structure Numeral.Legible (n : Numeral) : Prop where
  whole_ne_nil : n.whole ≠ []
  whole : ∀ c ∈ n.whole, c.isDigit = true
  leading : n.whole.head? = some '0' → n.whole = ['0']
  fraction : ∀ c ∈ n.fraction, c.isDigit = true

theorem head?_write_eq_zero {n : Nat} (h : (write n).head? = some '0') : write n = ['0'] := by
  by_cases zero : n = 0
  · rw [zero]
    rfl
  · exact absurd h (head?_write zero)

theorem Numeral.legible_ofInt (i : Int) : (ofInt i).Legible where
  whole_ne_nil := write_ne_nil _
  whole _ h := isDigit_of_mem_write h
  leading := head?_write_eq_zero
  fraction _ h := absurd h List.not_mem_nil

/-! ## What numerals denote -/

/-- The decimal `d * 10 ^ e` is what a numeral denotes, less some zeros at its end. -/
def Numeral.Denotes (n : Numeral) (d : Nat) (e : Int) : Prop :=
  ∃ k : Nat, n.significand = d * Nat.pow 10 k ∧ n.power + k = e

theorem Numeral.denotes_decimal {n : Numeral} (short : n.digits.length ≤ digitLimit) :
    n.Denotes n.decimal.1 n.decimal.2 := by
  obtain ⟨significand, power⟩ := eq_decimal short
  exact ⟨n.endZeros, significand, by omega⟩

theorem Numeral.Denotes.covers {n : Numeral} {d : Nat} {e : Int} (h : n.Denotes d e)
    (x : Binary64.Finite) : x.coversDecimal n.significand n.power = x.coversDecimal d e := by
  obtain ⟨k, significand, rfl⟩ := h
  rw [significand, x.coversDecimal_mul_pow]

variable {digits : List Char} {power : Int}

theorem positional_denotes (negative : Bool) :
    (positional negative digits power).Denotes (ofDigits digits) power := by
  unfold positional
  simp only
  split
  · refine ⟨power.toNat + 1, ?_, ?_⟩
    · rw [← ofDigits_append_zeros, List.replicate_succ', ← List.append_assoc]
      rfl
    · simp only [Numeral.power, List.length_singleton, Option.getD_none]
      omega
  split
  · refine ⟨0, ?_, ?_⟩
    · rw [Numeral.significand, List.take_append_drop, Nat.pow_eq, Nat.pow_zero, Nat.mul_one]
    · simp only [Numeral.power, List.length_drop, Option.getD_none]
      omega
  · refine ⟨0, ?_, ?_⟩
    · show ofDigits (zeros 1 ++ (zeros _ ++ digits)) = _
      rw [ofDigits_zeros_append, ofDigits_zeros_append, Nat.pow_eq, Nat.pow_zero, Nat.mul_one]
    · simp only [Numeral.power, List.length_append, zeros, List.length_replicate, Option.getD_none]
      omega

theorem scientific_denotes (negative : Bool) (nonempty : digits ≠ []) :
    (scientific negative digits power).Denotes (ofDigits digits) power := by
  have := List.length_pos_iff.2 nonempty
  refine ⟨0, ?_, ?_⟩
  · rw [Numeral.significand, scientific, List.take_append_drop, Nat.pow_eq, Nat.pow_zero, Nat.mul_one]
  · simp only [scientific, Numeral.power, List.length_drop, Option.getD_some]
    omega

/-! ## Layouts -/

namespace Layout

variable (layout : Layout) (negative : Bool)

theorem numeral_denotes (nonempty : digits ≠ []) :
    (layout.numeral negative digits power).Denotes (ofDigits digits) power := by
  unfold numeral
  simp only
  split
  · exact positional_denotes negative
  · exact scientific_denotes negative nonempty

theorem negative_numeral : (layout.numeral negative digits power).negative = negative := by
  unfold numeral positional scientific
  simp only
  repeat' split
  all_goals rfl

/-- There is a point or an exponent always. -/
theorem isPlain_numeral (nonempty : digits ≠ []) :
    (layout.numeral negative digits power).isPlain = false := by
  unfold numeral positional scientific Numeral.isPlain
  simp only
  split
  · split
    · rfl
    split
    · rw [Bool.and_eq_false_iff, List.isEmpty_eq_false_iff, ne_eq, List.drop_eq_nil_iff]
      omega
    · simp [nonempty]
  · simp

theorem length_numeral (low : -700 ≤ layout.lowest) (high : layout.highest ≤ 700)
    (few : digits.length ≤ 18) :
    (layout.numeral negative digits power).digits.length ≤ Numeral.digitLimit := by
  refine Nat.le_trans (Numeral.length_digits_le _) ?_
  unfold numeral positional scientific Numeral.digitLimit
  simp only
  split
  · split
    · simp only [List.length_append, zeros, List.length_replicate, List.length_singleton]
      omega
    split
    · simp only [List.length_take, List.length_drop]
      omega
    · simp only [List.length_append, zeros, List.length_replicate, List.length_singleton]
      omega
  · simp only [List.length_take, List.length_drop]
    omega

/-- Only a lone zero is laid out with a zero in front. -/
theorem legible_numeral (nonempty : digits ≠ []) (all : ∀ c ∈ digits, c.isDigit = true)
    (leading : digits.head? = some '0' → digits = ['0'] ∧ power = 0) :
    (layout.numeral negative digits power).Legible := by
  obtain ⟨d, ds, rfl⟩ := List.exists_cons_of_ne_nil nonempty
  unfold numeral positional scientific
  simp only
  split
  · split
    · refine ⟨by simp, ?_, ?_, ?_⟩
      · intro c h
        exact (List.mem_append.1 h).elim (all c) isDigit_of_mem_zeros
      · intro first
        obtain ⟨one, zero⟩ := leading first
        simp [one, zero, zeros]
      · exact fun c h => isDigit_of_mem_zeros (k := 1) h
    split
    · next behind both =>
      refine ⟨?_, fun c h => all c (List.mem_of_mem_take h), ?_, fun c h => all c (List.mem_of_mem_drop h)⟩
      · rw [ne_eq, List.take_eq_nil_iff]
        rintro (none | empty)
        · omega
        · cases empty
      · intro first
        obtain ⟨k, some_digits⟩ : ∃ k, (((d :: ds).length : Int) + power).toNat = k + 1 :=
          ⟨(((d :: ds).length : Int) + power).toNat - 1, by omega⟩
        rw [some_digits] at first
        have := (leading first).2
        omega
    · refine ⟨by simp, fun c h => isDigit_of_mem_zeros (k := 1) h, fun _ => rfl, ?_⟩
      intro c h
      exact (List.mem_append.1 h).elim isDigit_of_mem_zeros (all c)
  · refine ⟨by simp, fun c h => all c (List.mem_of_mem_take h), ?_, fun c h => all c (List.mem_of_mem_drop h)⟩
    intro first
    simp_all

/-! ## Finite numbers -/

variable (x : Binary64.Finite)

theorem ofFinite_eq : layout.ofFinite x =
    layout.numeral x.negative (write x.shortest.1) x.shortest.2 := rfl

/-- Only zero has a decimal that begins with a zero. -/
theorem legible_ofFinite : (layout.ofFinite x).Legible := by
  rw [ofFinite_eq]
  refine legible_numeral _ _ (write_ne_nil _) (fun _ h => isDigit_of_mem_write h) fun first => ?_
  refine ⟨head?_write_eq_zero first, ?_⟩
  cases zero : x.isZero with
  | true => rw [x.shortest_of_isZero zero]
  | false =>
    have covers := (Binary64.Finite.coversDecimal_shortest zero).1
    exact absurd first (head?_write (Binary64.Finite.ne_zero_of_covers zero covers))

/-- The shortest decimal of a number is not long. -/
theorem length_write_shortest : (write x.shortest.1).length ≤ 18 := by
  refine (Nat.length_toDigits_le_iff (by decide) (by decide)).2 ?_
  cases zero : x.isZero with
  | true =>
    rw [x.shortest_of_isZero zero]
    decide
  | false => exact Nat.lt_of_le_of_lt (Binary64.Finite.coversDecimal_shortest zero).2 (by decide)

/-- **A finite number is laid out so that it is read as itself**, and not as an integer. -/
theorem ofDecimal?_ofFinite (low : -700 ≤ layout.lowest) (high : layout.highest ≤ 700) :
    (layout.ofFinite x).isPlain = false ∧
      Binary64.Finite.ofDecimal? (layout.ofFinite x).negative (layout.ofFinite x).decimal.1
        (layout.ofFinite x).decimal.2 = some x := by
  have denotes : (layout.ofFinite x).Denotes (ofDigits (write x.shortest.1)) x.shortest.2 :=
    numeral_denotes layout x.negative (write_ne_nil x.shortest.1)
  have short : (layout.ofFinite x).digits.length ≤ Numeral.digitLimit :=
    length_numeral layout x.negative low high (length_write_shortest x)
  have sign : (layout.ofFinite x).negative = x.negative := negative_numeral ..
  refine ⟨isPlain_numeral layout _ (write_ne_nil _), ?_⟩
  rw [ofDigits_write] at denotes
  rw [sign]
  cases zero : x.isZero with
  | true =>
    obtain ⟨k, nothing, -⟩ := denotes
    obtain ⟨j, same, -⟩ := Numeral.denotes_decimal short
    rw [x.shortest_of_isZero zero, Nat.zero_mul] at nothing
    rw [nothing] at same
    have : 0 < Nat.pow 10 j := Nat.pow_pos (by decide)
    have vanishes := (Nat.mul_eq_zero.1 same.symm).resolve_right (Nat.ne_of_gt this)
    rw [vanishes, Binary64.Finite.ofDecimal?_zero, ← Binary64.Finite.eq_zero_of_isZero zero]
  | false =>
    apply Binary64.Finite.ofDecimal?_of_covers zero
    rw [← (Numeral.denotes_decimal short).covers x, denotes.covers x]
    exact (Binary64.Finite.coversDecimal_shortest zero).1

end Layout

end Outbox.Decimal
