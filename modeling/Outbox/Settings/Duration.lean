/-!
# Durations in words

A duration is written as numbers with units, as in `1h 30min`. Blanks may stand between the parts and
within a number. A number may have a fraction, if that is a whole number of nanoseconds, or of
seconds where the unit is an hour or more; a lone zero needs no unit.

The text is read character by character; `DurationScan` is where the reading is, and
`parseDuration?` gives the duration in nanoseconds. Numbers and products are bounded by 64 bits.
-/

namespace Outbox

/-- A second in nanoseconds. -/
def second : Nat := 1000000000

/-- The bound of all numbers. -/
def numberBound : Nat := UInt64.size

/-- A number, if it is within the bound. -/
def bounded? (n : Nat) : Option Nat :=
  if n < numberBound then some n else none

/-- Units count nanoseconds or seconds. -/
inductive DurationUnit where
  | nanos (n : Nat)
  | seconds (n : Nat)
deriving DecidableEq

/-- The unit with a name. -/
def DurationUnit.named? : String → Option DurationUnit
  | "nanos" | "nsec" | "ns" => some (.nanos 1)
  | "usec" | "us" | "µs" => some (.nanos 1000)
  | "millis" | "msec" | "ms" => some (.nanos 1000000)
  | "seconds" | "second" | "secs" | "sec" | "s" => some (.seconds 1)
  | "minutes" | "minute" | "min" | "mins" | "m" => some (.seconds 60)
  | "hours" | "hour" | "hrs" | "hr" | "h" => some (.seconds 3600)
  | "days" | "day" | "d" => some (.seconds 86400)
  | "weeks" | "week" | "wks" | "wk" | "w" => some (.seconds 604800)
  | "months" | "month" | "M" => some (.seconds 2630016)
  | "years" | "year" | "yrs" | "yr" | "y" => some (.seconds 31557600)
  | _ => none

/-- The unit that fractions of a unit are counted in. From an hour on they count seconds. -/
def DurationUnit.forFractions : DurationUnit → DurationUnit
  | .nanos n => .nanos n
  | .seconds n => if n < 3600 then .nanos (n * second) else .seconds n

/-- Whether a character is a blank in any script. -/
def isBlankChar (c : Char) : Bool :=
  let n := c.toNat
  (9 ≤ n && n ≤ 13) || n == 0x20 || n == 0x85 || n == 0xA0 || n == 0x1680 ||
    (0x2000 ≤ n && n ≤ 0x200A) || n == 0x2028 || n == 0x2029 || n == 0x202F || n == 0x205F ||
    n == 0x3000

/-- Whether a character can be part of a unit. -/
def isUnitChar (c : Char) : Bool :=
  c.isAlpha || c == 'µ'

/-- The part of a number behind the point. -/
structure Fraction where
  numerator : Nat
  denominator : Nat
deriving DecidableEq

/-! ### Terms -/

/-- A duration and so many seconds and nanoseconds more. -/
def addTime? (total seconds nanos : Nat) : Option Nat := do
  let _ ← bounded? (total % second + nanos)
  let sum := total + seconds * second + nanos
  if sum / second < numberBound then some sum else none

/-- So many units more, where the count of a unit's size is given. -/
def addUnits? (total : Nat) (count : Nat → Option Nat) : DurationUnit → Option Nat
  | .nanos size => do
    let nanos ← count size
    addTime? total 0 nanos
  | .seconds size => do
    let seconds ← count size
    addTime? total seconds 0

/-- A fraction of a size, if that is a whole number. -/
def Fraction.of? (f : Fraction) (size : Nat) : Option Nat := do
  let scaled ← bounded? (f.numerator * size)
  if scaled % f.denominator = 0 then some (scaled / f.denominator) else none

/-- A duration and so many units more. -/
def addWhole? (total n : Nat) (u : DurationUnit) : Option Nat :=
  addUnits? total (fun size => bounded? (n * size)) u

/-- A duration and a fraction of a unit more. A nanosecond has no fractions. -/
def addFraction? (total : Nat) (f : Fraction) (u : DurationUnit) : Option Nat :=
  if u = .nanos 1 then none else addUnits? total f.of? u.forFractions

/-- A duration and a number with a unit more. -/
def addTerm? (total n : Nat) (f : Option Fraction) (unit : List Char) : Option Nat := do
  let u ← DurationUnit.named? (String.ofList unit)
  let sum ← addWhole? total n u
  match f with
  | none => some sum
  | some f => addFraction? sum f u

/-! ### Reading -/

/-- Where the reading of a duration is. -/
inductive DurationScan where
  /-- In front of the first number. -/
  | start
  /-- Behind a unit. -/
  | between (total : Nat)
  | whole (total n : Nat)
  | fraction (total n : Nat) (f : Fraction)
  | unit (total n : Nat) (f : Option Fraction) (letters : List Char)
deriving DecidableEq

namespace DurationScan

/-- A number with another digit. -/
def shift? (n : Nat) (c : Char) : Option Nat :=
  bounded? (n * 10 + (c.toNat - '0'.toNat))

/-- Reads one character. -/
def step (s : DurationScan) (c : Char) : Option DurationScan :=
  match s with
  | .start =>
    if c.isDigit then some (.whole 0 (c.toNat - '0'.toNat))
    else if isBlankChar c then some .start else none
  | .between total =>
    if c.isDigit then some (.whole total (c.toNat - '0'.toNat))
    else if isBlankChar c then some (.between total) else none
  | .whole total n =>
    if c.isDigit then (shift? n c).map fun n => .whole total n
    else if isBlankChar c then some (.whole total n)
    else if isUnitChar c then some (.unit total n none [c])
    else if c = '.' then some (.fraction total n ⟨0, 1⟩) else none
  | .fraction total n f =>
    if c.isDigit then do
      let denominator ← bounded? (f.denominator * 10)
      let numerator ← shift? f.numerator c
      some (.fraction total n ⟨numerator, denominator⟩)
    else if isBlankChar c then some (.fraction total n f)
    else if isUnitChar c && f.denominator ≠ 1 then some (.unit total n (some f) [c]) else none
  | .unit total n f letters =>
    if isUnitChar c then some (.unit total n f (letters ++ [c]))
    else if c.isDigit then
      (addTerm? total n f letters).map fun sum => .whole sum (c.toNat - '0'.toNat)
    else if isBlankChar c then (addTerm? total n f letters).map .between else none

/-- The duration that was read, if the text may end here. -/
def finish : DurationScan → Option Nat
  | .between total => some total
  | .unit total n f letters => addTerm? total n f letters
  | _ => none

end DurationScan

/-- The duration that a text denotes, in nanoseconds. -/
def parseDuration? (text : String) : Option Nat :=
  if text = "0" then some 0
  else (text.toList.foldlM DurationScan.step .start).bind DurationScan.finish

end Outbox
