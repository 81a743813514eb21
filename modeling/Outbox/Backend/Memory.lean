import Outbox.Backend.Service

/-!
# A service in memory

A service that keeps the attributes in memory and records every batch it takes. Failures can be
arranged beforehand: failed connections come first, then the errors in the order they were arranged,
then rejections for the batches that do go through.

* `AttributeStore` keeps the assignments by container and path, and `AttributeStore.apply` is the
  effect of one operation on it;
* `MemoryBackend` is the state of the service, and `MemoryBackend.service` its interface.
-/

namespace Outbox

/-- The assignments that recreate the attributes, by container and path. -/
abbrev AttributeStore := List ((String × AttributePath) × Operation)

namespace AttributeStore

/-- The assignment of an attribute. -/
def get? (store : AttributeStore) (id : String) (path : AttributePath) : Option Operation :=
  List.lookup (id, path) store

/-- Sets the assignment of an attribute. -/
def set (store : AttributeStore) (id : String) (path : AttributePath) (op : Operation) :
    AttributeStore :=
  match store with
  | [] => [((id, path), op)]
  | (key, op') :: rest =>
    if key = (id, path) then (key, op) :: rest else (key, op') :: set rest id path op

/-- Forgets an attribute. -/
def remove (store : AttributeStore) (id : String) (path : AttributePath) : AttributeStore :=
  store.filter fun entry => entry.1 ≠ (id, path)

/-- Changes the strings of a set of strings; other attributes stay what they are. -/
def mapStrings (store : AttributeStore) (id : String) (path : AttributePath)
    (f : List String → List String) : AttributeStore :=
  match store.get? id path with
  | some ⟨path', .addStrings vs⟩ => store.set id path ⟨path', .addStrings (f vs)⟩
  | _ => store

/-- The effect of one operation. Series and files are not kept. -/
def apply (store : AttributeStore) (id : String) (op : Operation) : AttributeStore :=
  match op.mutation with
  | .assign _ => store.set id op.path op
  | .addStrings vs =>
    match store.get? id op.path with
    | some ⟨path, .addStrings old⟩ => store.set id op.path ⟨path, .addStrings (old ++ vs)⟩
    | _ => store.set id op.path op
  | .removeStrings vs => store.mapStrings id op.path fun old => old.filter fun v => !vs.contains v
  | .clearStringSet => store.mapStrings id op.path fun _ => []
  | .delete => store.remove id op.path
  | _ => store

/-- The effect of operations in turn. -/
def applyAll (store : AttributeStore) (id : String) (ops : List Operation) : AttributeStore :=
  ops.foldl (fun s op => s.apply id op) store

end AttributeStore

/-- A batch that the service took. -/
structure Delivery where
  container : Container
  bundle : Bundle
deriving DecidableEq

/-- The state of the service. -/
structure MemoryBackend where
  store : AttributeStore
  deliveries : List Delivery
  /-- The number of executions begun, failed ones included. -/
  calls : Nat
  /-- How many of the next connections fail. -/
  failedConnections : Nat
  failures : List BackendError
  fetchFailures : List BackendError
  rejections : List (List Rejection)
  /-- How long an execution takes, in milliseconds. -/
  delay : Nat
deriving DecidableEq

namespace MemoryBackend

/-- A service without attributes, and with no failures arranged. -/
def empty : MemoryBackend :=
  ⟨[], [], 0, 0, [], [], [], 0⟩

/-- The operations of all batches taken, in order. -/
def operations (m : MemoryBackend) : List Operation :=
  m.deliveries.flatMap fun d => d.bundle.operations

/-! ### Arrangements -/

/-- Sets an attribute from outside. -/
def setAttribute (m : MemoryBackend) (id : String) (op : Operation) : MemoryBackend :=
  { m with store := m.store.set id op.path op }

/-- Makes more connections fail. -/
def failConnections (m : MemoryBackend) (n : Nat) : MemoryBackend :=
  { m with failedConnections := m.failedConnections + n }

/-- Makes one more execution fail. -/
def failNext (m : MemoryBackend) (e : BackendError) : MemoryBackend :=
  { m with failures := m.failures ++ [e] }

/-- Makes one more fetch fail. -/
def failNextFetch (m : MemoryBackend) (e : BackendError) : MemoryBackend :=
  { m with fetchFailures := m.fetchFailures ++ [e] }

/-- Makes one more batch be taken with these rejections. -/
def rejectNext (m : MemoryBackend) (rs : List Rejection) : MemoryBackend :=
  { m with rejections := m.rejections ++ [rs] }

/-- Sets how long an execution takes. -/
def setDelay (m : MemoryBackend) (millis : Nat) : MemoryBackend :=
  { m with delay := millis }

/-! ### Requests -/

/-- An execution begins. -/
def begin (m : MemoryBackend) : MemoryBackend × Nat :=
  ({ m with calls := m.calls + 1 }, m.delay)

/-- Takes a batch, refusing the operations that were arranged to be refused. -/
def take (m : MemoryBackend) (c : Container) (batch : Bundle) : MemoryBackend × Receipt :=
  let rejected := m.rejections.headD []
  ({ m with
      store := m.store.applyAll c.id batch.operations
      deliveries := m.deliveries ++ [⟨c, batch⟩]
      rejections := m.rejections.tail },
    ⟨batch.length - rejected.length, rejected⟩)

/-- The answer to a batch. -/
def answer (m : MemoryBackend) (c : Container) (batch : Bundle) :
    MemoryBackend × Except BackendError Receipt :=
  match m.failedConnections, m.failures with
  | n + 1, _ =>
    ({ m with failedConnections := n }, .error (.connection "injected connection failure"))
  | 0, e :: rest => ({ m with failures := rest }, .error e)
  | 0, [] =>
    match m.take c batch with
    | (m', receipt) => (m', .ok receipt)

/-- The assignment of an attribute. -/
def fetch (m : MemoryBackend) (source : CopySource) : MemoryBackend × Except BackendError Operation :=
  match m.fetchFailures with
  | e :: rest => ({ m with fetchFailures := rest }, .error e)
  | [] =>
    match m.store.get? source.containerId source.path with
    | some op => (m, .ok op)
    | none => (m, .error (.inconsistent ⟨source.path, "Attribute " ++ source.path.display ++
        " not found in " ++ source.containerType.name ++ " " ++ source.containerId⟩))

/-- The interface of the service. -/
def service : Backend MemoryBackend :=
  ⟨begin, answer, fetch⟩

end MemoryBackend

end Outbox
