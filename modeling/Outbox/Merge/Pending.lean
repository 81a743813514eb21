import Outbox.Merge.Role

/-!
# Pending changes of one attribute

The changes of one attribute that wait to be sent, merged as far as they can be.

* `Pending` keeps a deletion (behind the one change that makes it valid), the changes after it and
  the configuration apart; `Pending.operations` is the order in which they are sent;
* `Pending.combine`, `Pending.configure` and `Pending.delete` are the effects of a change, a
  configuration and a deletion;
* `Pending.visit` takes one more operation: it is accepted, rejected for its type, or has to wait
  until the pending deletion was sent (`Visit`).

A change of another type than the attribute has is reported in `Pending.errors` and has no other
effect. `Pending.points` counts the series points of the pending logs.
-/

namespace Outbox

/-- Why an operation cannot be merged at all. -/
inductive MergeError where
  /-- A copy stands for a value that is not known yet. -/
  | unresolvedCopy (path : AttributePath)
  | unexpectedPending (path : AttributePath) (kinds : List String)
  | incompatible (path : AttributePath) (existing new : String)
deriving DecidableEq

/-- Names in quotation marks, between brackets. -/
def quotedList (names : List String) : String :=
  "[" ++ ", ".intercalate (names.map fun name => "\"" ++ name ++ "\"") ++ "]"

/-- The text of an error. -/
def MergeError.message : MergeError → String
  | .unresolvedCopy path =>
    "CopyAttribute on " ++ path.display ++
      " reached the accumulator, copies must be resolved first"
  | .unexpectedPending path kinds =>
    "unexpected pending operations on " ++ path.display ++ ": " ++ quotedList kinds
  | .incompatible path existing new =>
    "cannot merge " ++ new ++ " into " ++ existing ++ " on " ++ path.display

/-- The changes of one attribute that wait to be sent. -/
structure Pending where
  /-- The type of the attribute, once a change since the last deletion implied one. -/
  dataType : Option DataType
  /-- At most one deletion, and before it the change that makes the attribute exist. -/
  deletes : List Operation
  changes : List Operation
  configs : List Operation
  errors : List Inconsistency
  points : Nat
deriving DecidableEq

/-- What became of an operation. -/
inductive Visit where
  | accepted
  /-- It implies another type than the attribute has. -/
  | rejected
  /-- A pending deletion has to be sent before. -/
  | waits
deriving DecidableEq, Repr

/-- Two lists of points of one kind, one after the other. -/
def Points.append? : Points → Points → Option Points
  | .floats ps, .floats qs => some (.floats (ps ++ qs))
  | .strings ps, .strings qs => some (.strings (ps ++ qs))
  | .images ps, .images qs => some (.images (ps ++ qs))
  | _, _ => none

/-- A log extended by more points. -/
def Operation.extendLog (existing new : Operation) (ps : Points) : Except MergeError Operation :=
  match existing.mutation with
  | .log qs =>
    match qs.append? ps with
    | some all => .ok ⟨existing.path, .log all⟩
    | none => .error (.incompatible new.path existing.kind new.kind)
  | _ => .error (.incompatible new.path existing.kind new.kind)

/-- The number of series points in operations. -/
def totalPoints (ops : List Operation) : Nat :=
  (ops.map Operation.points).foldr (· + ·) 0

namespace Pending

/-- Nothing is pending. -/
def empty : Pending :=
  ⟨none, [], [], [], [], 0⟩

/-- The pending operations in the order in which they are sent. -/
def operations (p : Pending) : List Operation :=
  p.deletes ++ p.changes ++ p.configs

/-! ### Changes -/

/-- The changes with a log after them. A log is alone or follows the one change that a log can
follow, a clear. -/
def withLog (changes : List Operation) (op : Operation) (ps : Points) :
    Except MergeError (List Operation) :=
  match changes with
  | [] => .ok [op]
  | [only] =>
    if only.isLog then (only.extendLog op ps).map fun merged => [merged] else .ok [only, op]
  | [first, last] =>
    if last.isLog then (last.extendLog op ps).map fun merged => [first, merged]
    else .error (.unexpectedPending op.path (changes.map Operation.kind))
  | _ => .error (.unexpectedPending op.path (changes.map Operation.kind))

/-- The changes with tracked files after them. -/
def withTrack (changes : List Operation) (op : Operation) (entries : List TrackedFile) :
    List Operation :=
  match changes with
  | [] => [op]
  | [⟨path, .trackFiles projectId existing⟩] =>
    [⟨path, .trackFiles projectId (existing ++ entries)⟩]
  | change :: rest => change :: withTrack rest op entries

/-- Combines a change with the pending ones. -/
def combine (p : Pending) (op : Operation) (c : Combination) : Pending × Except MergeError Visit :=
  match c with
  | .replace => (⟨p.dataType, p.deletes, [op], p.configs, p.errors, p.points⟩, .ok .accepted)
  | .append =>
    (⟨p.dataType, p.deletes, p.changes ++ [op], p.configs, p.errors, p.points⟩, .ok .accepted)
  | .clear =>
    (⟨p.dataType, p.deletes, [op], p.configs, p.errors, p.points - totalPoints p.changes⟩,
      .ok .accepted)
  | .log ps =>
    let points := p.points + ps.length
    match withLog p.changes op ps with
    | .ok changes =>
      (⟨p.dataType, p.deletes, changes, p.configs, p.errors, points⟩, .ok .accepted)
    | .error e => (⟨p.dataType, p.deletes, p.changes, p.configs, p.errors, points⟩, .error e)
  | .track entries =>
    (⟨p.dataType, p.deletes, withTrack p.changes op entries, p.configs, p.errors, p.points⟩,
      .ok .accepted)

/-! ### Types -/

/-- Whether the attribute has another type. -/
def conflicts (p : Pending) (expected : DataType) : Bool :=
  p.dataType.any fun current => current != expected

/-- Reports an operation that implies another type than the attribute has. -/
def reject (p : Pending) (op : Operation) (expected : DataType) : Pending :=
  { p with errors := p.errors ++ [.typeMismatch op.path op.kind expected] }

/-- Sets the type of the attribute. -/
def setType (p : Pending) (t : DataType) : Pending :=
  { p with dataType := some t }

/-- Takes a change. Files are sent before everything else, so those of an attribute that is to be
deleted wait until the deletion was sent. -/
def modify (p : Pending) (op : Operation) (expected : DataType) (c : Combination) :
    Pending × Except MergeError Visit :=
  if p.conflicts expected then (p.reject op expected, .ok .rejected)
  else if (op.isUpload || op.isTrack) && !p.deletes.isEmpty then (p, .ok .waits)
  else (p.setType expected).combine op c

/-- Takes a configuration, which replaces the pending one. -/
def configure (p : Pending) (op : Operation) (expected : DataType) : Pending × Visit :=
  if p.conflicts expected then (p.reject op expected, .rejected)
  else ({ p.setType expected with configs := [op] }, .accepted)

/-! ### Deletion -/

/-- Takes a deletion. What was pending is dropped, but for one change: deleting an attribute that
does not exist fails, so the first pending change is sent before. -/
def delete (p : Pending) (op : Operation) : Pending :=
  match p.dataType, p.deletes with
  | none, [] => ⟨none, [op], p.changes, p.configs, p.errors, 0⟩
  | none, d :: ds => ⟨none, d :: ds, p.changes, p.configs, p.errors, 0⟩
  | some _, [] => ⟨none, (p.changes ++ p.configs).take 1 ++ [op], [], [], p.errors, 0⟩
  | some _, d :: ds => ⟨none, d :: ds, [], [], p.errors, 0⟩

/-! ### Operations -/

/-- Takes one more operation of the attribute. -/
def visit (p : Pending) (op : Operation) : Pending × Except MergeError Visit :=
  match op.mutation.role with
  | .change t c => p.modify op t c
  | .configure t =>
    match p.configure op t with
    | (p', v) => (p', .ok v)
  | .delete => (p.delete op, .ok .accepted)
  | .copy => (p, .error (.unresolvedCopy op.path))

end Pending

end Outbox
