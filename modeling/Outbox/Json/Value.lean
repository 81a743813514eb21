import Outbox.Decimal.Notation
import Outbox.Json.Tree

/-!
# Values of JSON

What a JSON text stands for. A `Tree` is only well-formed text; it has a `Value` if its strings are
text, its numbers lie in the range of a 64-bit integer or of a finite binary floating-point number,
and it does not nest too deep.

* `text?` reads the pieces of a string, surrogate escapes in pairs only;
* `Value.ofNumeral?` reads a numeral: digits alone are an integer where it fits 64 bits, all else is
  the floating-point number nearest to `Numeral.decimal`;
* `Tree.value?` reads a whole tree;
* `Tree.outlined?` reads only the members of an `Outline`, so that a reader of a known structure need
  not understand the members it ignores.
-/

namespace Outbox.Json

open Decimal (Numeral)

/-- What a JSON text stands for. -/
inductive Value where
  | null
  | bool (b : Bool)
  | integer (i : Int)
  | real (x : Binary64.Finite)
  | string (s : String)
  | array (items : List Value)
  | object (members : List (String × Value))

/-! ### Strings and numbers -/

/-- The character that a high and a low surrogate stand for together. -/
def surrogatePair (high low : Nat) : Char :=
  Char.ofNat (0x10000 + (high - 0xD800) * 0x400 + (low - 0xDC00))

/-- The characters of some pieces, behind those already read (latest first). Stray bytes and
surrogates outside a pair have none. -/
def chars? (done : List Char) : List Piece → Option (List Char)
  | [] => some done.reverse
  | .char c :: ps => chars? (c :: done) ps
  | .stray _ :: _ => none
  | .unit u :: .unit v :: ps =>
    if 0xD800 ≤ u ∧ u < 0xDC00 then
      if 0xDC00 ≤ v ∧ v < 0xE000 then chars? (surrogatePair u v :: done) ps else none
    else if 0xDC00 ≤ u ∧ u < 0xE000 then none
    else chars? (Char.ofNat u :: done) (.unit v :: ps)
  | .unit u :: ps =>
    if 0xD800 ≤ u ∧ u < 0xE000 then none else chars? (Char.ofNat u :: done) ps

/-- The text of a string, if it has one. -/
def text? (ps : List Piece) : Option String :=
  (chars? [] ps).map String.ofList

/-- The integer that a numeral denotes, if it is written with digits alone and fits 64 bits, as a
signed number if negative and as an unsigned one otherwise. Negative zero is no integer. -/
def integer? (n : Numeral) : Option Int :=
  if ¬ n.isPlain then none
  else if n.negative then
    if 0 < n.significand ∧ n.significand ≤ UInt64.size / 2 then some (-n.significand) else none
  else if n.significand < UInt64.size then some n.significand
  else none

/-- The value of a numeral. There is none beyond the largest floating-point number. -/
def Value.ofNumeral? (n : Numeral) : Option Value :=
  match integer? n with
  | some i => some (.integer i)
  | none => (Binary64.Finite.ofDecimal? n.negative n.decimal.1 n.decimal.2).map .real

/-! ### Whole trees -/

/-- The number of containers that a text may nest. -/
def maxLevels : Nat := 127

mutual

/-- The value of a tree that nests at most `levels` containers. -/
def Tree.value? (levels : Nat) : Tree → Option Value
  | .null => some .null
  | .bool b => some (.bool b)
  | .number n => Value.ofNumeral? n
  | .string ps => (text? ps).map .string
  | .array items =>
    match levels with
    | 0 => none
    | levels + 1 => (itemValues? levels items).map .array
  | .object members =>
    match levels with
    | 0 => none
    | levels + 1 => (memberValues? levels members).map .object

/-- The values of the items of an array. -/
def itemValues? (levels : Nat) : List Tree → Option (List Value)
  | [] => some []
  | t :: ts => do
    let v ← t.value? levels
    let vs ← itemValues? levels ts
    return v :: vs

/-- The values of the members of an object. -/
def memberValues? (levels : Nat) : List (List Piece × Tree) → Option (List (String × Value))
  | [] => some []
  | (ps, t) :: ms => do
    let k ← text? ps
    let v ← t.value? levels
    let vs ← memberValues? levels ms
    return (k, v) :: vs

end

/-! ### Known members only -/

/-- The part of a text that a reader looks at: all of it, or certain members of an object. A
structure may also be written as an array of the members in order. -/
inductive Outline where
  | whole
  | members (ms : List (String × Outline))

/-- What is looked at in the `i`-th place of an array. -/
def Outline.item (o : Outline) (i : Nat) : Outline :=
  match o with
  | .whole => .whole
  | .members ms => (ms[i]?.map Prod.snd).getD .whole

/-- What is looked at in the member `key`, if anything. -/
def Outline.member? (o : Outline) (key : String) : Option Outline :=
  match o with
  | .whole => some .whole
  | .members ms => ms.lookup key

mutual

/-- The value of the part of a tree that an outline shows. Of a member outside it only the key is
read. -/
def Tree.outlined? (o : Outline) (levels : Nat) : Tree → Option Value
  | .null => some .null
  | .bool b => some (.bool b)
  | .number n => Value.ofNumeral? n
  | .string ps => (text? ps).map .string
  | .array items =>
    match levels with
    | 0 => none
    | levels + 1 => (outlinedItems? o 0 levels items).map .array
  | .object members =>
    match levels with
    | 0 => none
    | levels + 1 => (outlinedMembers? o levels members).map .object

/-- The outlined values of the items of an array, the first of them in the `i`-th place. -/
def outlinedItems? (o : Outline) (i levels : Nat) : List Tree → Option (List Value)
  | [] => some []
  | t :: ts => do
    let v ← t.outlined? (o.item i) levels
    let vs ← outlinedItems? o (i + 1) levels ts
    return v :: vs

/-- The outlined values of the members of an object. -/
def outlinedMembers? (o : Outline) (levels : Nat) :
    List (List Piece × Tree) → Option (List (String × Value))
  | [] => some []
  | (ps, t) :: ms => do
    let k ← text? ps
    match o.member? k with
    | none => outlinedMembers? o levels ms
    | some inner =>
      let v ← t.outlined? inner levels
      let vs ← outlinedMembers? o levels ms
      return (k, v) :: vs

end

/-! ### Writing -/

/-- Numbers are positional from `0.00001` to below `10 ^ 16`. -/
def layout : Decimal.Layout := ⟨-5, 15⟩

/-- The pieces of a text. -/
def piecesOf (s : String) : List Piece :=
  s.toList.map Piece.ofChar

mutual

/-- How a value is written. -/
def Value.tree : Value → Tree
  | .null => .null
  | .bool b => .bool b
  | .integer i => .number (.ofInt i)
  | .real x => .number (layout.ofFinite x)
  | .string s => .string (piecesOf s)
  | .array items => .array (itemTrees items)
  | .object members => .object (memberTrees members)

/-- How the items of an array are written. -/
def itemTrees : List Value → List Tree
  | [] => []
  | v :: vs => v.tree :: itemTrees vs

/-- How the members of an object are written. -/
def memberTrees : List (String × Value) → List (List Piece × Tree)
  | [] => []
  | (k, v) :: ms => (piecesOf k, v.tree) :: memberTrees ms

end

/-- The text of a value, without blanks. -/
def Value.render (v : Value) : List Char :=
  v.tree.tokens.flatMap Token.text

/-- The text of an object, a member on each line, two blanks in front of it. -/
def renderLines (members : List (String × Value)) : List Char :=
  let line (m : String × Value) : List Char :=
    [' ', ' '] ++ (Value.string m.1).render ++ [':', ' '] ++ m.2.render
  if members.isEmpty then ['{', '}']
  else '{' :: '\n' :: ((members.map line).intersperse [',', '\n']).flatten ++ ['\n', '}']

end Outbox.Json
