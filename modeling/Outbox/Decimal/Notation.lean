import Outbox.Decimal.Numeral
import Outbox.Decimal.Shortest

/-!
# Decimal notation

How the digits of a number are laid out: positional where the number is neither very large nor very
small, with one digit in front of the point and a power of ten otherwise. A `Layout` fixes where one
passes into the other.

* `Layout.numeral` lays out a decimal;
* `Layout.ofFinite` lays out the shortest decimal that reads back as a number of the format
  `binary64`.
-/

namespace Outbox.Decimal

/-- A way to lay out decimals. The exponent of a decimal is that of its first digit; positional
notation is used where it lies between `lowest` and `highest`. -/
structure Layout where
  lowest : Int
  highest : Int

/-- `n` zeros. -/
def zeros (n : Nat) : List Char :=
  List.replicate n '0'

/-- The decimal `digits * 10 ^ power` in positional notation, with at least one digit on either side
of the point. -/
def positional (negative : Bool) (digits : List Char) (power : Int) : Numeral :=
  let whole := (digits.length : Int) + power
  if 0 ≤ power then ⟨negative, digits ++ zeros power.toNat, ['0'], none⟩
  else if 0 < whole then ⟨negative, digits.take whole.toNat, digits.drop whole.toNat, none⟩
  else ⟨negative, ['0'], zeros (-whole).toNat ++ digits, none⟩

/-- The decimal `digits * 10 ^ power` with one digit in front of the point and a power of ten. -/
def scientific (negative : Bool) (digits : List Char) (power : Int) : Numeral :=
  ⟨negative, digits.take 1, digits.drop 1, some ((digits.length : Int) + power - 1)⟩

/-- The decimal `digits * 10 ^ power` as the layout has it. -/
def Layout.numeral (layout : Layout) (negative : Bool) (digits : List Char) (power : Int) :
    Numeral :=
  let leading := (digits.length : Int) + power - 1
  if layout.lowest ≤ leading ∧ leading ≤ layout.highest then positional negative digits power
  else scientific negative digits power

/-- The shortest numeral of a finite number in a layout; the sign of zero is kept. -/
def Layout.ofFinite (layout : Layout) (x : Binary64.Finite) : Numeral :=
  let (digits, power) := x.shortest
  layout.numeral x.negative (write digits) power

end Outbox.Decimal
