import Outbox.Json.Value

/-!
# Structures in JSON

A structure is written as an object, its fields by name in any order, or as an array, its fields in
the order of declaration. `fill?` gives the value of each declared field. Members that are not
declared are ignored; a declared one that occurs twice is an error.

A field may be left out of an object if it says what stands for it, and out of the end of an array
only if it says so.
-/

namespace Outbox.Json

/-- A declared field. -/
structure Field where
  name : String
  /-- What stands for the field in an object that lacks it. -/
  absent : Option Value := none
  /-- Whether an array may end before the field. -/
  trailing : Bool := false

namespace Field

/-- A field that must be there. -/
def required (name : String) : Field :=
  ⟨name, none, false⟩

/-- A field whose absence from an object means null. -/
def nullable (name : String) : Field :=
  ⟨name, some .null, false⟩

/-- A field that may be left out of objects and arrays. -/
def default (name : String) (v : Value) : Field :=
  ⟨name, some v, true⟩

end Field

/-- The values of all members with this key. -/
def valuesAt (key : String) (members : List (String × Value)) : List Value :=
  (members.filter fun m => m.1 == key).map Prod.snd

/-- The value of a field in an object. -/
def Field.ofMembers? (f : Field) (members : List (String × Value)) : Option Value :=
  match valuesAt f.name members with
  | [] => f.absent
  | [v] => some v
  | _ => none

/-- The values of the fields in an array. -/
def ofItems? : List Field → List Value → Option (List Value)
  | [], [] => some []
  | [], _ :: _ => none
  | _ :: fs, v :: vs => (ofItems? fs vs).map (v :: ·)
  | f :: fs, [] =>
    match f.trailing, f.absent with
    | true, some v => (ofItems? fs []).map (v :: ·)
    | _, _ => none

/-- The value of every field of a structure. -/
def fill? (fields : List Field) : Value → Option (List Value)
  | .object members => fields.mapM fun f => f.ofMembers? members
  | .array items => ofItems? fields items
  | _ => none

/-! ### Fields of a simple kind -/

namespace Value

/-- A truth value. -/
def bool? : Value → Option Bool
  | .bool b => some b
  | _ => none

/-- A text. -/
def string? : Value → Option String
  | .string s => some s
  | _ => none

/-- An integer in the range of 64 signed bits. -/
def signed? : Value → Option Int
  | .integer i => if Int64.minValue.toInt ≤ i ∧ i ≤ Int64.maxValue.toInt then some i else none
  | _ => none

/-- A natural number in the range of 64 bits. -/
def natural? : Value → Option Nat
  | .integer i => if 0 ≤ i ∧ i.toNat < UInt64.size then some i.toNat else none
  | _ => none

/-- A number of either kind, as a floating-point number. -/
def finite? : Value → Option Binary64.Finite
  | .integer i => Binary64.Finite.ofInt? i
  | .real x => some x
  | _ => none

/-- A list, each item read by `read?`. -/
def list? {α : Type} (read? : Value → Option α) : Value → Option (List α)
  | .array items => items.mapM read?
  | _ => none

/-- Null, or what `read?` reads. -/
def option? {α : Type} (read? : Value → Option α) : Value → Option (Option α)
  | .null => some none
  | v => (read? v).map some

/-- One of a set of names, written as a string or as an object with that one key. The key's value
is null; an empty object passes for null where `emptyAllowed`. -/
def name? (emptyAllowed : Bool) : Value → Option String
  | .string s => some s
  | .object [(k, .null)] => some k
  | .object [(k, .object [])] => if emptyAllowed then some k else none
  | _ => none

end Value

end Outbox.Json
