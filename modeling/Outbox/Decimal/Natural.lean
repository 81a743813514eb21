/-!
# Whole numbers in decimal

Writing and reading of naturals as decimal text.

* `Decimal.write` gives the one text without leading zeros;
* `Decimal.read?` reads any non-empty run of digits, leading zeros included;
* `Decimal.readSigned?` allows one plus sign in front of it;
* `read?_write` says that what is written reads back;
* `ofDigits_dropWhile` and `ofDigits_append_zeros` say what zeros do in front of digits and behind them.
-/

namespace Outbox.Decimal

/-- The decimal text of a natural number, without leading zeros. -/
def write (n : Nat) : List Char :=
  Nat.toDigits 10 n

/-- The number that a run of digits denotes. -/
def ofDigits (ds : List Char) : Nat :=
  Nat.ofDigitChars 10 ds 0

/-- The number that `cs` denotes, if it is a non-empty run of digits. -/
def read? (cs : List Char) : Option Nat :=
  if cs ≠ [] ∧ cs.all Char.isDigit then some (ofDigits cs) else none

/-- As `read?`, with one plus sign allowed in front. -/
def readSigned? : List Char → Option Nat
  | '+' :: cs => read? cs
  | cs => read? cs

/-- As `readSigned?`, for numbers below a bound. -/
def readBelow? (bound : Nat) (cs : List Char) : Option Nat :=
  (readSigned? cs).filter (· < bound)

@[simp] theorem ofDigits_write (n : Nat) : ofDigits (write n) = n :=
  Nat.ofDigitChars_ten_toDigits

/-- Zeros in front change nothing. -/
theorem ofDigits_dropWhile (ds : List Char) : ofDigits (ds.dropWhile (· == '0')) = ofDigits ds := by
  induction ds with
  | nil => rfl
  | cons d ds ih =>
    by_cases h : d = '0'
    · subst h
      simpa [ofDigits, Nat.ofDigitChars_cons] using ih
    · simp [h]

/-- Each zero behind is a factor of ten. -/
theorem ofDigits_append_zeros (ds : List Char) (k : Nat) :
    ofDigits (ds ++ List.replicate k '0') = ofDigits ds * Nat.pow 10 k := by
  induction k generalizing ds with
  | zero => simp
  | succ k ih =>
    have one : ofDigits (ds ++ ['0']) = ofDigits ds * 10 := by
      simp [ofDigits, Nat.ofDigitChars_append, Nat.ofDigitChars_cons, Nat.ofDigitChars_nil,
        Nat.mul_comm]
    have power : Nat.pow 10 (k + 1) = Nat.pow 10 k * 10 := rfl
    rw [List.replicate_succ, List.append_cons, ih, one, power, Nat.mul_assoc, Nat.mul_comm 10]

theorem write_ne_nil (n : Nat) : write n ≠ [] :=
  Nat.toDigits_ne_nil

theorem isDigit_of_mem_write {n : Nat} {c : Char} (h : c ∈ write n) : c.isDigit :=
  Nat.isDigit_of_mem_toDigits (by decide) (by decide) h

/-- What is written reads back. -/
@[simp] theorem read?_write (n : Nat) : read? (write n) = some n := by
  have digits : (write n).all Char.isDigit := List.all_eq_true.2 fun _ h => isDigit_of_mem_write h
  simp [read?, write_ne_nil, digits]

end Outbox.Decimal
