import Outbox.Decimal.Binary64

/-!
# The shortest decimal that reads back

Every finite number of the format is the only one that the reals close to it round to. Among the
decimals in that interval `Finite.shortest` picks one with the fewest digits and, of those, the one
nearest to the number.

The search looks at decimal grids from coarse to fine: on the grid of step `10 ^ e` only the two
multiples next to the number can be the nearest ones inside the interval, so that the first grid with
a multiple inside gives the answer. Seventeen digits always suffice.

All comparisons are between naturals, in quarters of the unit of `Finite`.
-/

namespace Outbox.Binary64.Finite

/-- The number itself, in quarters of a unit. -/
def quarters (x : Finite) : Nat :=
  4 * x.significand * Nat.pow 2 x.scale

/-- The lower end of the interval of reals that round to `x`, in quarters of a unit. Just above a
power of two the numbers below lie twice as close. -/
def lowerEnd (x : Finite) : Nat :=
  if x.significand = Nat.pow 2 52 ∧ 0 < x.scale then x.quarters - Nat.pow 2 x.scale
  else x.quarters - 2 * Nat.pow 2 x.scale

/-- The upper end of the interval of reals that round to `x`, in quarters of a unit. -/
def upperEnd (x : Finite) : Nat :=
  x.quarters + 2 * Nat.pow 2 x.scale

/-- Whether `num / den` quarters of a unit round to `x`. The ends of the interval round to the even
significand. -/
def covers (x : Finite) (num den : Nat) : Bool :=
  if x.significand % 2 = 0 then x.lowerEnd * den ≤ num && num ≤ x.upperEnd * den
  else x.lowerEnd * den < num && num < x.upperEnd * den

/-- The decimal exponent of the first digit of `x`, for a number that is not zero:
`10 ^ e ≤ x < 10 ^ (e + 1)`. -/
def leadingExponent (x : Finite) : Int :=
  let num := x.quarters
  let one := Nat.pow 2 1076
  if one ≤ num then (Decimal.write (num / one)).length - 1
  else
    let inverse := (one + num - 1) / num
    Int.negOfNat (Decimal.write (inverse - 1)).length

/-- The multiple of `10 ^ e` that is nearest to `x` among those that round to it, as the factor; the
even factor where two are equally near. -/
def nearestOnGrid? (x : Finite) (e : Int) : Option Nat :=
  let den := Nat.pow 10 (-e).toNat
  let step := Nat.pow 2 1076 * Nat.pow 10 e.toNat
  let num := x.quarters * den
  let below := num / step
  let above := below + 1
  match x.covers (below * step) den, x.covers (above * step) den with
  | false, false => none
  | true, false => some below
  | false, true => some above
  | true, true =>
    let gapBelow := num - below * step
    let gapAbove := above * step - num
    if gapBelow < gapAbove then some below
    else if gapAbove < gapBelow then some above
    else some (if below % 2 = 0 then below else above)

/-- The shortest decimal that reads back as the magnitude of `x`: its digits as a number, and the
exponent of the last of them. -/
def shortest (x : Finite) : Nat × Int :=
  if x.isZero then (0, 0)
  else
    let first := x.leadingExponent
    let onGrid (i : Nat) : Option (Nat × Int) :=
      let e := first - i
      (x.nearestOnGrid? e).map fun d => if d % 10 = 0 then (d / 10, e + 1) else (d, e)
    ((List.range 17).findSome? onGrid).getD (0, 0)

end Outbox.Binary64.Finite
