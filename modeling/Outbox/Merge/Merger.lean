import Outbox.Merge.Pending

/-!
# Merging a batch

Operations of many attributes are merged attribute by attribute. The result lists the attributes in
order, whatever order the operations came in.

* `Bundle` is a merged batch: uploads, tracked files and the other operations in lists of their own,
  and what was found inconsistent;
* `Merger` holds the pending changes of every attribute of a batch, sorted by path;
* `Merger.process` takes one operation, `Merger.processAll` as many as can join the batch, and
  `Merger.finish` gives the bundle.
-/

namespace Outbox

/-- A merged batch. -/
structure Bundle where
  uploads : List Operation
  tracks : List Operation
  others : List Operation
  errors : List Inconsistency
  /-- The number of operations that the batch was merged from, rejected ones included. -/
  sourceCount : Nat
deriving DecidableEq

namespace Bundle

/-- A batch without operations. -/
def empty : Bundle :=
  ⟨[], [], [], [], 0⟩

/-- The operations in the order in which they take effect. -/
def operations (b : Bundle) : List Operation :=
  b.uploads ++ b.tracks ++ b.others

/-- The number of operations to send. -/
def length (b : Bundle) : Nat :=
  b.uploads.length + b.tracks.length + b.others.length

/-- Whether there is nothing to send and nothing to report. -/
def isEmpty (b : Bundle) : Bool :=
  b.length == 0 && b.errors.isEmpty

/-- Adds an operation to the list it travels in. -/
def push (b : Bundle) (op : Operation) : Bundle :=
  if op.isUpload then { b with uploads := b.uploads ++ [op] }
  else if op.isTrack then { b with tracks := b.tracks ++ [op] }
  else { b with others := b.others ++ [op] }

/-- Adds operations in turn. -/
def pushAll (b : Bundle) (ops : List Operation) : Bundle :=
  ops.foldl push b

/-- Operations that nothing was merged for. -/
def ofOperations (ops : List Operation) : Bundle :=
  { empty.pushAll ops with sourceCount := ops.length }

theorem length_operations (b : Bundle) : b.operations.length = b.length := by
  simp [operations, length, Nat.add_assoc]

end Bundle

/-! ### Attributes by path -/

/-- The pending changes of the attributes of a batch, in the order of their paths. -/
abbrev PendingTable := List (AttributePath × Pending)

namespace PendingTable

/-- The pending changes of an attribute. -/
def get? (table : PendingTable) (path : AttributePath) : Option Pending :=
  match table with
  | [] => none
  | (path', p) :: rest => if path' = path then some p else get? rest path

/-- Sets the pending changes of an attribute. -/
def set (table : PendingTable) (path : AttributePath) (p : Pending) : PendingTable :=
  match table with
  | [] => [(path, p)]
  | (path', p') :: rest =>
    match path.order path' with
    | .lt => (path, p) :: (path', p') :: rest
    | .eq => (path, p) :: rest
    | .gt => (path', p') :: set rest path p

end PendingTable

/-- A batch in the making. -/
structure Merger where
  table : PendingTable
  sourceCount : Nat
  /-- The number of series points pending on all attributes. -/
  points : Nat
deriving DecidableEq

namespace Merger

/-- Nothing was merged. -/
def empty : Merger :=
  ⟨[], 0, 0⟩

/-- Whether the attribute occurs in the batch. -/
def has (m : Merger) (path : AttributePath) : Bool :=
  (m.table.get? path).isSome

/-- The pending changes of an attribute, none if it does not occur. -/
def pending (m : Merger) (path : AttributePath) : Pending :=
  (m.table.get? path).getD .empty

/-- The number of attributes. -/
def attributes (m : Merger) : Nat :=
  m.table.length

/-- The number of series points pending on one attribute. -/
def pointsOf (m : Merger) (path : AttributePath) : Nat :=
  (m.pending path).points

/-- The number of operations to send. -/
def length (m : Merger) : Nat :=
  (m.table.map fun entry => entry.2.operations.length).foldr (· + ·) 0

/-- Takes one operation, and tells whether it joined the batch. One that did not has to wait for the
next batch. -/
def process (m : Merger) (op : Operation) : Merger × Except MergeError Bool :=
  let before := m.pending op.path
  match before.visit op with
  | (after, .error e) => ({ m with table := m.table.set op.path after }, .error e)
  | (after, .ok v) =>
    let table := m.table.set op.path after
    let points := m.points - before.points + after.points
    if v = .waits then (⟨table, m.sourceCount, points⟩, .ok false)
    else (⟨table, m.sourceCount + 1, points⟩, .ok true)

/-- Takes operations up to the first that does not join the batch, and tells how many did. -/
def processAll (m : Merger) (ops : List Operation) : Merger × Except MergeError Nat :=
  match ops with
  | [] => (m, .ok 0)
  | op :: rest =>
    match m.process op with
    | (m', .error e) => (m', .error e)
    | (m', .ok false) => (m', .ok 0)
    | (m', .ok true) =>
      match m'.processAll rest with
      | (m'', .error e) => (m'', .error e)
      | (m'', .ok n) => (m'', .ok (n + 1))

/-- The merged batch. The errors given come before those of the attributes. -/
def finish (m : Merger) (errors : List Inconsistency) : Bundle :=
  let ops := m.table.flatMap fun entry => entry.2.operations
  { Bundle.empty.pushAll ops with
    errors := errors ++ m.table.flatMap fun entry => entry.2.errors
    sourceCount := m.sourceCount }

end Merger

end Outbox
