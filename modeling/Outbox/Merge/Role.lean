import Outbox.Merge.DataType

/-!
# What a mutation does to pending changes

While operations of an attribute wait to be sent, another one either changes the attribute, configures
it, deletes it, or is a copy, which stands for a change that is not known yet.

* `Combination` says how a change combines with the pending ones;
* `Role` adds the type that the attribute must have, and the other three cases;
* `Mutation.role` gives the role of every mutation.
-/

namespace Outbox

/-- How a change combines with the pending changes of its attribute. -/
inductive Combination where
  /-- It overwrites all of them. -/
  | replace
  /-- It follows them; the order matters because the state before is unknown. -/
  | append
  /-- It overwrites all of them, and their points no longer count. -/
  | clear
  /-- Its points follow those of the last log. -/
  | log (ps : Points)
  /-- Its entries follow those of the last change, if that tracks files. -/
  | track (entries : List TrackedFile)
deriving DecidableEq

/-- What a mutation does to the pending operations of its attribute. -/
inductive Role where
  /-- It changes an attribute of a type. -/
  | change (type : DataType) (c : Combination)
  /-- It configures an attribute of a type. -/
  | configure (type : DataType)
  | delete
  /-- It stands for a change that is known only when the copy is sent. -/
  | copy
deriving DecidableEq

/-- The role of a mutation. -/
def Mutation.role : Mutation → Role
  | .assign v => .change v.dataType .replace
  | .uploadFile .. => .change .file .replace
  | .uploadFileContent .. => .change .file .replace
  | .uploadFileSet _ true => .change .fileSet .replace
  | .uploadFileSet _ false => .change .fileSet .append
  | .deleteFiles _ => .change .fileSet .append
  | .log ps => .change ps.kind.dataType (.log ps)
  | .clearLog k => .change k.dataType .clear
  | .configFloatSeries .. => .configure .floatSeries
  | .addStrings _ => .change .stringSet .append
  | .removeStrings _ => .change .stringSet .append
  | .clearStringSet => .change .stringSet .clear
  | .delete => .delete
  | .trackFiles _ entries => .change .artifact (.track entries)
  | .clearArtifact => .change .artifact .clear
  | .copy _ => .copy

end Outbox
