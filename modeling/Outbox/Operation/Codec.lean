import Outbox.Json.Fields
import Outbox.Operation.Basic

/-!
# Operations as JSON

An operation is written as an object: its kind under `"type"`, then its fields, all of them, absent
ones as null. It is read from such an object with its members in any order, or from an array that
starts with the kind.

Floating-point numbers that JSON has no numeral for are written as the strings `"NaN"`,
`"Infinity"` and `"-Infinity"` and read back from them. The time of a point is written as a plain
number and has no such strings; a time that is not finite is written as null. A moment is written in
whole milliseconds, and what is finer is lost.

* `Operation.json` and `Operation.ofJson?` convert between operations and JSON values;
* `Operation.render` and `Operation.parse?` convert between operations and JSON text.
-/

namespace Outbox

open Json (Value Field fill?)

/-! ### Numbers -/

/-- The value of a floating-point number. -/
def Binary64.json : Binary64 → Value
  | .nan => .string "NaN"
  | .infinite false => .string "Infinity"
  | .infinite true => .string "-Infinity"
  | .finite x => .real x

/-- The floating-point number that a number or one of the three strings denotes. -/
def Binary64.ofJson? : Value → Option Binary64
  | .string "NaN" => some .nan
  | .string "Infinity" => some (.infinite false)
  | .string "-Infinity" => some (.infinite true)
  | v => v.finite?.map .finite

/-- The value of the time of a point. -/
def timeJson : Binary64 → Value
  | .finite x => .real x
  | _ => .null

/-- The time of a point that a number denotes. -/
def timeOf? (v : Value) : Option Binary64 :=
  v.finite?.map .finite

/-- The value of something optional. -/
def optionJson {α : Type} (json : α → Value) : Option α → Value
  | none => .null
  | some a => json a

/-! ### Names -/

/-- The member of `all` whose name a value is. -/
def named? {α : Type} (emptyAllowed : Bool) (all : List α) (name : α → String) (v : Value) :
    Option α := do
  let n ← v.name? emptyAllowed
  all.find? fun a => name a == n

/-- The value of a container type. -/
def ContainerType.json (t : ContainerType) : Value :=
  .string t.name

/-- The container type that a value names. -/
def ContainerType.ofJson? (emptyAllowed : Bool) : Value → Option ContainerType :=
  named? emptyAllowed all name

/-- The value of a copy kind. -/
def CopyKind.json (k : CopyKind) : Value :=
  .string k.name

/-- The copy kind that a value names. -/
def CopyKind.ofJson? (emptyAllowed : Bool) : Value → Option CopyKind :=
  named? emptyAllowed all name

/-! ### Parts of operations -/

/-- The value of a list of texts. -/
def stringsJson (ss : List String) : Value :=
  .array (ss.map .string)

/-- A list of texts. -/
def strings? : Value → Option (List String) :=
  Value.list? Value.string?

/-- The value of a path. -/
def AttributePath.json (p : AttributePath) : Value :=
  stringsJson p.segments

/-- The path that a non-empty list of texts denotes. -/
def AttributePath.ofJson? (v : Value) : Option AttributePath :=
  (strings? v).bind ofSegments?

/-- The value of a moment: its whole milliseconds. -/
def Moment.json (t : Moment) : Value :=
  .integer t.millis

/-- The moment that a number of milliseconds denotes. -/
def Moment.ofJson? (v : Value) : Option Moment :=
  v.signed?.bind ofMillis?

/-- The value of a signed integer. -/
def intJson (i : Int64) : Value :=
  .integer i.toInt

/-- A signed integer. -/
def int? (v : Value) : Option Int64 :=
  v.signed?.map Int64.ofInt

/-- The value of a point whose own value is written by `json`. -/
def Point.json {α : Type} (json : α → Value) (p : Point α) : Value :=
  .object [("value", json p.value), ("step", optionJson Binary64.json p.step),
    ("ts", timeJson p.time)]

/-- The point that a structure denotes, its own value read by `read?`. -/
def Point.ofJson? {α : Type} (read? : Value → Option α) (v : Value) : Option (Point α) :=
  match fill? [.required "value", .default "step" .null, .required "ts"] v with
  | some [value, step, time] => do
    let value ← read? value
    let step ← step.option? Binary64.ofJson?
    let time ← timeOf? time
    return ⟨value, step, time⟩
  | _ => none

/-- The value of an image. -/
def Image.json (i : Image) : Value :=
  .object [("data", optionJson .string i.data), ("name", optionJson .string i.name),
    ("description", optionJson .string i.description)]

/-- The image that a structure denotes. -/
def Image.ofJson? (v : Value) : Option Image :=
  match fill? [.nullable "data", .nullable "name", .nullable "description"] v with
  | some [data, name, description] => do
    let data ← data.option? Value.string?
    let name ← name.option? Value.string?
    let description ← description.option? Value.string?
    return ⟨data, name, description⟩
  | _ => none

/-- The value of a tracked file. -/
def TrackedFile.json (f : TrackedFile) : Value :=
  .object [("file_path", .string f.filePath), ("destination", optionJson .string f.destination)]

/-- The tracked file that a structure denotes. -/
def TrackedFile.ofJson? (v : Value) : Option TrackedFile :=
  match fill? [.required "file_path", .nullable "destination"] v with
  | some [filePath, destination] => do
    let filePath ← filePath.string?
    let destination ← destination.option? Value.string?
    return ⟨filePath, destination⟩
  | _ => none

/-! ### Operations -/

/-- The fields of a mutation behind the path, in order. -/
def Mutation.members : Mutation → List (String × Value)
  | .assign (.float x) => [("value", x.json)]
  | .assign (.int i) => [("value", intJson i)]
  | .assign (.bool b) => [("value", .bool b)]
  | .assign (.string s) => [("value", .string s)]
  | .assign (.datetime t) => [("value", t.json)]
  | .assign (.artifact hash) => [("hash", .string hash)]
  | .uploadFile ext filePath clean =>
    [("ext", .string ext), ("file_path", .string filePath), ("clean_after_upload", .bool clean)]
  | .uploadFileContent ext content => [("ext", .string ext), ("file_content", .string content)]
  | .uploadFileSet globs reset => [("file_globs", stringsJson globs), ("reset", .bool reset)]
  | .deleteFiles filePaths => [("file_paths", stringsJson filePaths)]
  | .log (.floats ps) => [("values", .array (ps.map (Point.json Binary64.json)))]
  | .log (.strings ps) => [("values", .array (ps.map (Point.json .string)))]
  | .log (.images ps) => [("values", .array (ps.map (Point.json Image.json)))]
  | .clearLog _ => []
  | .configFloatSeries min max unit =>
    [("min", optionJson Binary64.json min), ("max", optionJson Binary64.json max),
      ("unit", optionJson .string unit)]
  | .addStrings vs => [("values", stringsJson vs)]
  | .removeStrings vs => [("values", stringsJson vs)]
  | .clearStringSet => []
  | .delete => []
  | .trackFiles projectId entries =>
    [("project_id", .string projectId), ("entries", .array (entries.map TrackedFile.json))]
  | .clearArtifact => []
  | .copy source =>
    [("container_id", .string source.containerId), ("container_type", source.containerType.json),
      ("source_path", source.path.json), ("source_kind", source.kind.json)]

/-- The value of an operation. -/
def Operation.json (op : Operation) : Value :=
  .object (("type", .string op.kind) :: ("path", op.path.json) :: op.mutation.members)

/-- A mutation with one field behind the path. -/
def oneField? (f : Field) (body : Value) (read? : Value → Option Mutation) : Option Operation :=
  match fill? [.required "path", f] body with
  | some [path, v] => do
    let path ← AttributePath.ofJson? path
    let mutation ← read? v
    return ⟨path, mutation⟩
  | _ => none

/-- A mutation without fields behind the path. -/
def noField? (body : Value) (mutation : Mutation) : Option Operation :=
  match fill? [.required "path"] body with
  | some [path] => do
    let path ← AttributePath.ofJson? path
    return ⟨path, mutation⟩
  | _ => none

/-- The operation of a kind whose fields a structure holds. -/
def Operation.ofBody? (kind : String) (body : Value) : Option Operation :=
  match kind with
  | "AssignFloat" => oneField? (.required "value") body fun v => do
    return .assign (.float (← Binary64.ofJson? v))
  | "AssignInt" => oneField? (.required "value") body fun v => do
    return .assign (.int (← int? v))
  | "AssignBool" => oneField? (.required "value") body fun v => do
    return .assign (.bool (← v.bool?))
  | "AssignString" => oneField? (.required "value") body fun v => do
    return .assign (.string (← v.string?))
  | "AssignDatetime" => oneField? (.required "value") body fun v => do
    return .assign (.datetime (← Moment.ofJson? v))
  | "AssignArtifact" => oneField? (.required "hash") body fun v => do
    return .assign (.artifact (← v.string?))
  | "UploadFile" =>
    match fill? [.required "path", .required "ext", .required "file_path",
      .default "clean_after_upload" (.bool false)] body with
    | some [path, ext, filePath, clean] => do
      let path ← AttributePath.ofJson? path
      let ext ← ext.string?
      let filePath ← filePath.string?
      let clean ← clean.bool?
      return ⟨path, .uploadFile ext filePath clean⟩
    | _ => none
  | "UploadFileContent" =>
    match fill? [.required "path", .required "ext", .required "file_content"] body with
    | some [path, ext, content] => do
      let path ← AttributePath.ofJson? path
      let ext ← ext.string?
      let content ← content.string?
      return ⟨path, .uploadFileContent ext content⟩
    | _ => none
  | "UploadFileSet" =>
    match fill? [.required "path", .required "file_globs", .required "reset"] body with
    | some [path, globs, reset] => do
      let path ← AttributePath.ofJson? path
      let globs ← strings? globs
      let reset ← reset.bool?
      return ⟨path, .uploadFileSet globs reset⟩
    | _ => none
  | "DeleteFiles" => oneField? (.required "file_paths") body fun v => do
    return .deleteFiles (← strings? v)
  | "LogFloats" => oneField? (.required "values") body fun v => do
    return .log (.floats (← v.list? (Point.ofJson? Binary64.ofJson?)))
  | "LogStrings" => oneField? (.required "values") body fun v => do
    return .log (.strings (← v.list? (Point.ofJson? Value.string?)))
  | "LogImages" => oneField? (.required "values") body fun v => do
    return .log (.images (← v.list? (Point.ofJson? Image.ofJson?)))
  | "ClearFloatLog" => noField? body (.clearLog .float)
  | "ClearStringLog" => noField? body (.clearLog .string)
  | "ClearImageLog" => noField? body (.clearLog .image)
  | "ConfigFloatSeries" =>
    match fill? [.required "path", .default "min" .null, .default "max" .null, .nullable "unit"]
      body with
    | some [path, min, max, unit] => do
      let path ← AttributePath.ofJson? path
      let min ← min.option? Binary64.ofJson?
      let max ← max.option? Binary64.ofJson?
      let unit ← unit.option? Value.string?
      return ⟨path, .configFloatSeries min max unit⟩
    | _ => none
  | "AddStrings" => oneField? (.required "values") body fun v => do
    return .addStrings (← strings? v)
  | "RemoveStrings" => oneField? (.required "values") body fun v => do
    return .removeStrings (← strings? v)
  | "ClearStringSet" => noField? body .clearStringSet
  | "DeleteAttribute" => noField? body .delete
  | "TrackFilesToArtifact" =>
    match fill? [.required "path", .required "project_id", .required "entries"] body with
    | some [path, projectId, entries] => do
      let path ← AttributePath.ofJson? path
      let projectId ← projectId.string?
      let entries ← entries.list? TrackedFile.ofJson?
      return ⟨path, .trackFiles projectId entries⟩
    | _ => none
  | "ClearArtifact" => noField? body .clearArtifact
  | "CopyAttribute" =>
    match fill? [.required "path", .required "container_id", .required "container_type",
      .required "source_path", .required "source_kind"] body with
    | some [path, containerId, containerType, sourcePath, kind] => do
      let path ← AttributePath.ofJson? path
      let containerId ← containerId.string?
      let containerType ← ContainerType.ofJson? true containerType
      let sourcePath ← AttributePath.ofJson? sourcePath
      let kind ← CopyKind.ofJson? true kind
      return ⟨path, .copy ⟨containerId, containerType, sourcePath, kind⟩⟩
    | _ => none
  | _ => none

namespace Operation

/-- The operation that a value denotes. -/
def ofJson? : Value → Option Operation
  | .object members =>
    match Json.valuesAt "type" members with
    | [.string kind] => ofBody? kind (.object (members.filter fun m => m.1 ≠ "type"))
    | _ => none
  | .array (.string kind :: items) => ofBody? kind (.array items)
  | _ => none

/-- The text of an operation. -/
def render (op : Operation) : List Char :=
  op.json.render

/-- The operation that a JSON text denotes, the text given as bytes. -/
def parse? (bytes : List UInt8) : Option Operation := do
  let tree ← Json.Tree.parse? bytes
  let v ← tree.value? Json.maxLevels
  ofJson? v

end Operation

end Outbox
