import Outbox.AttributePath
import Outbox.Decimal.Binary64

/-!
# Operations

A single change of one attribute: a path and a mutation. The set of mutations is closed.

* `Mutation` groups them by what they do: set a scalar, extend or clear a series, edit a set, handle
  files and artifacts, delete, copy from elsewhere;
* `Operation.kind` is the name under which an operation is written and reported;
* `Operation.points` counts series points, and `isLog`, `isUpload`, `isTrack` tell the operations
  apart that travel in lists of their own;
* `Operation.sameAs` compares operations with floating-point numbers by value, so that an operation
  holding `nan` differs from itself.
-/

namespace Outbox

/-- The kind of object that owns attributes. -/
inductive ContainerType where
  | run
  | project
  | model
  | modelVersion
deriving DecidableEq, Repr

/-- The name of a container type. -/
def ContainerType.name : ContainerType → String
  | .run => "run"
  | .project => "project"
  | .model => "model"
  | .modelVersion => "model_version"

/-- All container types. -/
def ContainerType.all : List ContainerType :=
  [.run, .project, .model, .modelVersion]

/-- What a copied attribute is taken to be. -/
inductive CopyKind where
  | float
  | int
  | bool
  | string
  | datetime
  | artifact
  | stringSet
deriving DecidableEq, Repr

/-- The name of a copy kind. -/
def CopyKind.name : CopyKind → String
  | .float => "Float"
  | .int => "Int"
  | .bool => "Bool"
  | .string => "String"
  | .datetime => "Datetime"
  | .artifact => "Artifact"
  | .stringSet => "StringSet"

/-- All copy kinds. -/
def CopyKind.all : List CopyKind :=
  [.float, .int, .bool, .string, .datetime, .artifact, .stringSet]

/-- Whole seconds since 1970 that a moment can have, those of the years -262143 to 262142. -/
def Moment.InRange (seconds : Int) : Prop :=
  -8334601228800 ≤ seconds ∧ seconds ≤ 8210266876799

instance (seconds : Int) : Decidable (Moment.InRange seconds) :=
  inferInstanceAs (Decidable (_ ∧ _))

/-- A moment, to the nanosecond. A leap second has no number of its own: its nanoseconds are counted on
behind those of the second before it. -/
@[ext]
structure Moment where
  /-- Whole seconds since 1970. -/
  seconds : Int
  nanos : Nat
  inRange : Moment.InRange seconds
  nanos_lt : nanos < 2000000000
deriving DecidableEq

/-- Whole milliseconds since 1970. What is finer is left out. -/
def Moment.millis (t : Moment) : Int :=
  t.seconds * 1000 + (t.nanos / 1000000 : Nat)

/-- The moment with this number of milliseconds, if it is in range. -/
def Moment.ofMillis? (millis : Int) : Option Moment :=
  if h : Moment.InRange (millis / 1000) then
    some ⟨millis / 1000, (millis % 1000).toNat * 1000000, h, by omega⟩
  else none

/-- One point of a series. -/
structure Point (α : Type) where
  value : α
  step : Option Binary64
  /-- Seconds since 1970. -/
  time : Binary64
deriving DecidableEq

/-- An image as the caller encoded it. -/
structure Image where
  data : Option String
  name : Option String
  description : Option String
deriving DecidableEq

/-- A file in the manifest of an artifact. -/
structure TrackedFile where
  filePath : String
  destination : Option String
deriving DecidableEq

/-- The values that an attribute can be set to. -/
inductive Scalar where
  | float (x : Binary64)
  | int (i : Int64)
  | bool (b : Bool)
  | string (s : String)
  | datetime (t : Moment)
  /-- The hash of an artifact's manifest. -/
  | artifact (hash : String)
deriving DecidableEq

/-- The kinds of series. -/
inductive SeriesKind where
  | float
  | string
  | image
deriving DecidableEq, Repr

/-- Points of one series. -/
inductive Points where
  | floats (ps : List (Point Binary64))
  | strings (ps : List (Point String))
  | images (ps : List (Point Image))
deriving DecidableEq

/-- The attribute that a copy reads. -/
structure CopySource where
  containerId : String
  containerType : ContainerType
  path : AttributePath
  kind : CopyKind
deriving DecidableEq

/-- A change of an attribute. -/
inductive Mutation where
  | assign (v : Scalar)
  | uploadFile (ext filePath : String) (cleanAfterUpload : Bool)
  | uploadFileContent (ext content : String)
  /-- Uploads the files that match; with `reset`, the set is emptied before. -/
  | uploadFileSet (globs : List String) (reset : Bool)
  | deleteFiles (filePaths : List String)
  | log (ps : Points)
  | clearLog (k : SeriesKind)
  | configFloatSeries (min max : Option Binary64) (unit : Option String)
  | addStrings (vs : List String)
  | removeStrings (vs : List String)
  | clearStringSet
  | delete
  | trackFiles (projectId : String) (entries : List TrackedFile)
  | clearArtifact
  /-- Stands for setting the value that the source has when the copy is sent. -/
  | copy (source : CopySource)
deriving DecidableEq

/-- A change of one attribute. -/
structure Operation where
  path : AttributePath
  mutation : Mutation
deriving DecidableEq

/-! ### Names -/

/-- The series that points belong to. -/
def Points.kind : Points → SeriesKind
  | .floats _ => .float
  | .strings _ => .string
  | .images _ => .image

/-- The number of points. -/
def Points.length : Points → Nat
  | .floats ps => ps.length
  | .strings ps => ps.length
  | .images ps => ps.length

/-- The name of a mutation. -/
def Mutation.kind : Mutation → String
  | .assign (.float _) => "AssignFloat"
  | .assign (.int _) => "AssignInt"
  | .assign (.bool _) => "AssignBool"
  | .assign (.string _) => "AssignString"
  | .assign (.datetime _) => "AssignDatetime"
  | .assign (.artifact _) => "AssignArtifact"
  | .uploadFile .. => "UploadFile"
  | .uploadFileContent .. => "UploadFileContent"
  | .uploadFileSet .. => "UploadFileSet"
  | .deleteFiles _ => "DeleteFiles"
  | .log (.floats _) => "LogFloats"
  | .log (.strings _) => "LogStrings"
  | .log (.images _) => "LogImages"
  | .clearLog .float => "ClearFloatLog"
  | .clearLog .string => "ClearStringLog"
  | .clearLog .image => "ClearImageLog"
  | .configFloatSeries .. => "ConfigFloatSeries"
  | .addStrings _ => "AddStrings"
  | .removeStrings _ => "RemoveStrings"
  | .clearStringSet => "ClearStringSet"
  | .delete => "DeleteAttribute"
  | .trackFiles .. => "TrackFilesToArtifact"
  | .clearArtifact => "ClearArtifact"
  | .copy _ => "CopyAttribute"

namespace Operation

/-- The names of all operations. -/
def kinds : List String :=
  ["AssignFloat", "AssignInt", "AssignBool", "AssignString", "AssignDatetime", "AssignArtifact",
    "UploadFile", "UploadFileContent", "UploadFileSet", "DeleteFiles", "LogFloats", "LogStrings",
    "LogImages", "ClearFloatLog", "ClearStringLog", "ClearImageLog", "ConfigFloatSeries",
    "AddStrings", "RemoveStrings", "ClearStringSet", "DeleteAttribute", "TrackFilesToArtifact",
    "ClearArtifact", "CopyAttribute"]

/-- The name of an operation. -/
def kind (op : Operation) : String :=
  op.mutation.kind

theorem kind_mem_kinds (op : Operation) : op.kind ∈ kinds := by
  obtain ⟨path, mutation⟩ := op
  cases mutation with
  | assign v => cases v <;> simp [kind, Mutation.kind, kinds]
  | log ps => cases ps <;> simp [kind, Mutation.kind, kinds]
  | clearLog k => cases k <;> simp [kind, Mutation.kind, kinds]
  | _ => simp [kind, Mutation.kind, kinds]

/-- An operation as reports name it. -/
def display (op : Operation) : String :=
  op.kind ++ "(" ++ op.path.display ++ ")"

/-! ### Classes -/

/-- The number of series points that an operation carries; none unless it is a log. -/
def points (op : Operation) : Nat :=
  match op.mutation with
  | .log ps => ps.length
  | _ => 0

/-- Whether the operation appends to a series. -/
def isLog (op : Operation) : Bool :=
  match op.mutation with
  | .log _ => true
  | _ => false

/-- Whether the operation ships files. -/
def isUpload (op : Operation) : Bool :=
  match op.mutation with
  | .uploadFile .. => true
  | .uploadFileContent .. => true
  | .uploadFileSet .. => true
  | _ => false

/-- Whether the operation tracks files in an artifact. -/
def isTrack (op : Operation) : Bool :=
  match op.mutation with
  | .trackFiles .. => true
  | _ => false

/-- Whether the operation copies an attribute. -/
def isCopy (op : Operation) : Bool :=
  match op.mutation with
  | .copy _ => true
  | _ => false

end Operation

/-! ### Comparison -/

/-- Whether two lists agree item by item. -/
def allSame {α : Type} (same : α → α → Bool) : List α → List α → Bool
  | [], [] => true
  | a :: as, b :: bs => same a b && allSame same as bs
  | _, _ => false

/-- Whether two optional numbers are both absent or equal. -/
def sameOption : Option Binary64 → Option Binary64 → Bool
  | none, none => true
  | some x, some y => x.ieeeEq y
  | _, _ => false

/-- Whether two points agree, their values compared by `same`. -/
def Point.sameAs {α : Type} (same : α → α → Bool) (p q : Point α) : Bool :=
  same p.value q.value && sameOption p.step q.step && p.time.ieeeEq q.time

/-- Whether points agree. -/
def Points.sameAs : Points → Points → Bool
  | .floats ps, .floats qs => allSame (Point.sameAs Binary64.ieeeEq) ps qs
  | .strings ps, .strings qs => allSame (Point.sameAs (· == ·)) ps qs
  | .images ps, .images qs => allSame (Point.sameAs (· == ·)) ps qs
  | _, _ => false

/-- Whether mutations agree. -/
def Mutation.sameAs : Mutation → Mutation → Bool
  | .assign (.float x), .assign (.float y) => x.ieeeEq y
  | .log ps, .log qs => ps.sameAs qs
  | .configFloatSeries min max unit, .configFloatSeries min' max' unit' =>
    sameOption min min' && sameOption max max' && unit == unit'
  | m, n => m == n

/-- Whether operations agree: equal, with floating-point numbers compared by value. -/
def Operation.sameAs (op op' : Operation) : Bool :=
  op.path == op'.path && op.mutation.sameAs op'.mutation

end Outbox
