import Outbox.Decimal.Natural

/-!
# Binary floating point of 64 bits

The numbers of the IEEE 754 format `binary64`, as numbers: a finite one is a sign and a multiple of
a power of two, in the one form that the format stores. Nothing in this library computes with them,
so there is no arithmetic here, only what reading and writing need.

* `Binary64.Finite` holds the finite numbers. The unit is `2 ^ -1074`, the smallest positive number
  of the format, so that all of them are naturals: `significand * 2 ^ scale` units;
* `Binary64` adds the two infinities and the number that is none;
* `Binary64.ieeeEq` is the comparison of the standard: the two zeros are equal, `nan` equals nothing;
* `Finite.ofDecimal?` reads a decimal: the nearest number of the format, a tie going to the even
  significand, and nothing where the decimal lies beyond the largest finite number.
-/

namespace Outbox

/-- The pairs of significand and scale that the format stores: 53 bits at most, and 53 exactly
except at the smallest scale. -/
def Binary64.IsCanonical (significand scale : Nat) : Prop :=
  significand < Nat.pow 2 53 ∧ scale ≤ 2045 ∧ (Nat.pow 2 52 ≤ significand ∨ scale = 0)

instance (significand scale : Nat) : Decidable (Binary64.IsCanonical significand scale) :=
  inferInstanceAs (Decidable (_ ∧ _ ∧ _))

/-- A finite number: `significand * 2 ^ scale` units of `2 ^ -1074`, with a sign that zero has, too. -/
structure Binary64.Finite where
  negative : Bool
  significand : Nat
  scale : Nat
  canonical : Binary64.IsCanonical significand scale
deriving DecidableEq

/-- A number of the format `binary64`. -/
inductive Binary64 where
  /-- The number that is none. -/
  | nan
  | infinite (negative : Bool)
  | finite (x : Binary64.Finite)
deriving DecidableEq

namespace Binary64

/-! ### Comparison -/

/-- Whether a finite number is one of the two zeros. -/
def Finite.isZero (x : Finite) : Bool :=
  x.significand == 0

/-- Equality of finite numbers by value: the two zeros are equal. -/
def Finite.valueEq (x y : Finite) : Bool :=
  (x.isZero && y.isZero) || x == y

/-- Equality as the standard has it: by value, and `nan` differs from itself. -/
def ieeeEq : Binary64 → Binary64 → Bool
  | .finite x, .finite y => x.valueEq y
  | .infinite a, .infinite b => a == b
  | _, _ => false

/-! ### Reading -/

/-- The natural nearest to `num / den`; a half goes to the even neighbour. -/
def roundDiv (num den : Nat) : Nat :=
  let q := num / den
  let r := num % den
  if 2 * r < den then q
  else if den < 2 * r then q + 1
  else q + q % 2

namespace Finite

/-- Zero with the given sign. -/
def zero (negative : Bool) : Finite :=
  ⟨negative, 0, 0, by decide⟩

/-- The number with this significand and scale, if the format has it. -/
def ofParts? (negative : Bool) (significand scale : Nat) : Option Finite :=
  if h : IsCanonical significand scale then some ⟨negative, significand, scale, h⟩ else none

/-- The number nearest to `num / den` units, if that is not beyond the largest one. The scale leaves
53 bits in front of the point; a significand that rounds up to `2 ^ 53` moves to the next scale. -/
def ofUnits? (negative : Bool) (num den : Nat) : Option Finite :=
  let scale := Nat.log2 (num / den) - 52
  let significand := roundDiv num (den * Nat.pow 2 scale)
  if significand = Nat.pow 2 53 then ofParts? negative (Nat.pow 2 52) (scale + 1)
  else ofParts? negative significand scale

/-- The number nearest to `significand * 10 ^ exponent`, if that is not beyond the largest one. A
number of `n` digits lies between `10 ^ (n - 1)` and `10 ^ n`, which settles both extremes without
computing a power. -/
def ofDecimal? (negative : Bool) (significand : Nat) (exponent : Int) : Option Finite :=
  let magnitude : Int := (Decimal.write significand).length + exponent
  if significand = 0 ∨ magnitude < -323 then some (zero negative)
  else if 309 < magnitude then none
  else ofUnits? negative (significand * Nat.pow 10 exponent.toNat * Nat.pow 2 1074)
    (Nat.pow 10 (-exponent).toNat)

/-- The number nearest to an integer. -/
def ofInt? (i : Int) : Option Finite :=
  ofDecimal? (i < 0) i.natAbs 0

end Finite

end Binary64

end Outbox
