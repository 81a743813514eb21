import Outbox.Decimal.Natural

/-!
# Numerals

A number as it is written: digits in front of a point, digits behind it, and a power of ten. Two
numerals may denote the same number.

* `Numeral.significand` and `Numeral.power` give the decimal that a numeral denotes;
* `Numeral.decimal` gives the decimal that it is read as, which keeps a limited number of digits;
  `Numeral.eq_decimal` says that a numeral within the limit is read as what it denotes;
* `Numeral.text` gives its characters.
-/

namespace Outbox.Decimal

/-- A number as written. The fraction is empty where there is no point, and the exponent is absent
where no power of ten is written. -/
structure Numeral where
  negative : Bool
  whole : List Char
  fraction : List Char
  exponent : Option Int
deriving DecidableEq, Repr

namespace Numeral

/-- All digits as one number. -/
def significand (n : Numeral) : Nat :=
  ofDigits (n.whole ++ n.fraction)

/-- The power of ten of the last digit. -/
def power (n : Numeral) : Int :=
  n.exponent.getD 0 - n.fraction.length

/-- Whether it is written with digits alone. -/
def isPlain (n : Numeral) : Bool :=
  n.fraction.isEmpty && n.exponent.isNone

/-! ### Reading -/

/-- The fraction without the zeros at its end. -/
def shortFraction (n : Numeral) : List Char :=
  (n.fraction.reverse.dropWhile (· == '0')).reverse

/-- The digits that count: the first is not zero, and a fraction does not end in zeros. Zeros at the
end of the whole part count. -/
def digits (n : Numeral) : List Char :=
  (n.whole ++ n.shortFraction).dropWhile (· == '0')

/-- The number of digits that a reading keeps. No number halfway between two neighbours of the format
`binary64` has more, so that the digits behind them cannot make a tie, only break one. -/
def digitLimit : Nat := 768

/-- The decimal that a numeral is read as: a whole number, and the power of ten of its last digit.
Digits beyond the limit are not told apart. Whatever they are, zeros too, one further digit `1` stands
for them, so that a tie of the digits in front of them goes upwards. -/
def decimal (n : Numeral) : Nat × Int :=
  let last := n.exponent.getD 0 - n.shortFraction.length
  if n.digits.length ≤ digitLimit then (ofDigits n.digits, last)
  else
    let dropped := n.digits.length - (digitLimit + 1)
    (10 * ofDigits (n.digits.take digitLimit) + 1, last + dropped)

/-- The number of zeros at the end of the fraction. -/
def endZeros (n : Numeral) : Nat :=
  n.fraction.length - n.shortFraction.length

theorem fraction_eq (n : Numeral) :
    n.fraction = n.shortFraction ++ List.replicate n.endZeros '0' := by
  have whole : n.fraction.reverse.takeWhile (· == '0') ++ n.fraction.reverse.dropWhile (· == '0') =
      n.fraction.reverse := List.takeWhile_append_dropWhile
  have zeros : n.fraction.reverse.takeWhile (· == '0') =
      List.replicate (n.fraction.reverse.takeWhile (· == '0')).length '0' :=
    List.eq_replicate_iff.2 ⟨rfl, fun c hc => by
      simpa using List.all_eq_true.1 List.all_takeWhile c hc⟩
  have split : n.fraction = n.shortFraction ++
      List.replicate (n.fraction.reverse.takeWhile (· == '0')).length '0' := by
    rw [shortFraction, ← List.reverse_replicate, ← zeros, ← List.reverse_append, whole,
      List.reverse_reverse]
  have count := congrArg List.length split
  rw [List.length_append, List.length_replicate] at count
  rw [endZeros, count, Nat.add_sub_cancel_left]
  exact split

theorem length_fraction (n : Numeral) :
    n.fraction.length = n.shortFraction.length + n.endZeros := by
  have count := congrArg List.length n.fraction_eq
  simpa using count

theorem length_digits_le (n : Numeral) : n.digits.length ≤ n.whole.length + n.fraction.length := by
  have kept : n.digits.length ≤ (n.whole ++ n.shortFraction).length :=
    (List.dropWhile_sublist _).length_le
  have := n.length_fraction
  simp only [List.length_append] at kept
  omega

/-- The digits that count denote all of the number but the zeros at the end of its fraction. -/
theorem significand_eq (n : Numeral) : n.significand = ofDigits n.digits * Nat.pow 10 n.endZeros := by
  rw [significand, digits, ofDigits_dropWhile, ← ofDigits_append_zeros, List.append_assoc,
    ← fraction_eq]

/-- A numeral within the limit is read as the decimal that it denotes, less the zeros at the end of
its fraction. -/
theorem eq_decimal {n : Numeral} (h : n.digits.length ≤ digitLimit) :
    n.significand = n.decimal.1 * Nat.pow 10 n.endZeros ∧ n.power = n.decimal.2 - n.endZeros := by
  rw [decimal, if_pos h]
  refine ⟨n.significand_eq, ?_⟩
  have := n.length_fraction
  simp only [power]
  omega

/-! ### Writing -/

/-- The characters of an exponent, which has a sign always. -/
def exponentText : Option Int → List Char
  | none => []
  | some e => 'e' :: (if 0 ≤ e then '+' else '-') :: write e.natAbs

/-- The characters of a fraction. -/
def fractionText : List Char → List Char
  | [] => []
  | ds => '.' :: ds

/-- The characters of a numeral. -/
def text (n : Numeral) : List Char :=
  let unsigned := n.whole ++ fractionText n.fraction ++ exponentText n.exponent
  if n.negative then '-' :: unsigned else unsigned

/-- The numeral of an integer. -/
def ofInt (i : Int) : Numeral :=
  ⟨i < 0, write i.natAbs, [], none⟩

end Numeral

end Outbox.Decimal
