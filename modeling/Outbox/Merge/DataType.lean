import Outbox.Operation.Basic

/-!
# Attribute types

An attribute has a type, which the operations on it imply.

* `DataType` lists the types;
* `Scalar.dataType` and `SeriesKind.dataType` are the types of attributes by what they hold;
* `Inconsistency` reports an operation that does not fit its attribute, and
  `Inconsistency.typeMismatch` is the report for a wrong type.
-/

namespace Outbox

/-- The type of an attribute. -/
inductive DataType where
  | float
  | int
  | bool
  | string
  | file
  | datetime
  | fileSet
  | floatSeries
  | stringSeries
  | imageSeries
  | stringSet
  | artifact
deriving DecidableEq, Repr

/-- A type as reports name it. -/
def DataType.name : DataType → String
  | .float => "Float"
  | .int => "Int"
  | .bool => "Bool"
  | .string => "String"
  | .file => "File"
  | .datetime => "Datetime"
  | .fileSet => "File Set"
  | .floatSeries => "Float Series"
  | .stringSeries => "String Series"
  | .imageSeries => "Image Series"
  | .stringSet => "String Set"
  | .artifact => "Artifact"

/-- All attribute types. -/
def DataType.all : List DataType :=
  [.float, .int, .bool, .string, .file, .datetime, .fileSet, .floatSeries, .stringSeries,
    .imageSeries, .stringSet, .artifact]

theorem DataType.mem_all (t : DataType) : t ∈ DataType.all := by
  cases t <;> decide

/-- The type of an attribute that holds this value. -/
def Scalar.dataType : Scalar → DataType
  | .float _ => .float
  | .int _ => .int
  | .bool _ => .bool
  | .string _ => .string
  | .datetime _ => .datetime
  | .artifact _ => .artifact

/-- The type of an attribute that is a series of this kind. -/
def SeriesKind.dataType : SeriesKind → DataType
  | .float => .floatSeries
  | .string => .stringSeries
  | .image => .imageSeries

/-- An operation that does not fit the attribute it acts on. It is reported and left out; the
operations around it go on. -/
structure Inconsistency where
  path : AttributePath
  message : String
deriving DecidableEq

/-- The report of an operation that implies another type than the attribute has. -/
def Inconsistency.typeMismatch (path : AttributePath) (kind : String) (expected : DataType) :
    Inconsistency :=
  ⟨path, "Cannot perform " ++ kind ++ " operation on " ++ path.display ++
    ": Attribute is not a " ++ expected.name⟩

end Outbox
