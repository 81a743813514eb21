import Outbox.Merge.Merger

/-!
# The remote service

What delivery needs of the service that keeps the attributes. A service has a state of some type of
its own; all that is asked of it is to apply merged batches and to tell the value of an attribute.

* `BackendError` is why a request failed; only a failed connection is worth another attempt;
* `Rejection` is one operation that the service refused within a batch that it took;
* `Backend` is the interface, over any type of states;
* `Backend.resolve` replaces a copy by the assignment of the value that its source has.
-/

namespace Outbox

/-- Why a request to the service failed. -/
inductive BackendError where
  /-- The service was not reached. -/
  | connection (reason : String)
  | inconsistent (report : Inconsistency)
  | other (reason : String)
deriving DecidableEq

namespace BackendError

/-- Whether the same request may succeed later. -/
def isRetryable : BackendError → Bool
  | .connection _ => true
  | _ => false

/-- The text of an error. -/
def message : BackendError → String
  | .connection reason => "connection to the backend failed: " ++ reason
  | .inconsistent report => report.message
  | .other reason => "backend request failed: " ++ reason

end BackendError

/-- An operation that the service refused. -/
structure Rejection where
  path : AttributePath
  message : String
deriving DecidableEq

/-- The text of a rejection. -/
def Rejection.display (r : Rejection) : String :=
  r.path.display ++ ": " ++ r.message

/-- The answer to a batch that the service took. -/
structure Receipt where
  accepted : Nat
  rejected : List Rejection
deriving DecidableEq

/-- The object whose attributes a batch changes. -/
structure Container where
  id : String
  type : ContainerType
deriving DecidableEq

/-- A service with states of type `σ`. -/
structure Backend (σ : Type) where
  /-- A batch is on its way; the number is the time in milliseconds until the answer. -/
  begin : σ → σ × Nat
  /-- The answer to a batch. -/
  answer : σ → Container → Bundle → σ × Except BackendError Receipt
  /-- The assignment that would recreate the value of an attribute. -/
  fetch : σ → CopySource → σ × Except BackendError Operation

namespace Backend

/-- Sends a batch and waits for the answer. -/
def execute {σ : Type} (b : Backend σ) (s : σ) (c : Container) (batch : Bundle) :
    σ × Except BackendError Receipt :=
  b.answer (b.begin s).1 c batch

end Backend

/-! ### Copies -/

/-- Whether a mutation sets a value that a copy of this kind can take over. -/
def CopyKind.fits : CopyKind → Mutation → Bool
  | .float, .assign (.float _) => true
  | .int, .assign (.int _) => true
  | .bool, .assign (.bool _) => true
  | .string, .assign (.string _) => true
  | .datetime, .assign (.datetime _) => true
  | .artifact, .assign (.artifact _) => true
  | .stringSet, .addStrings _ => true
  | _, _ => false

/-- The operation that a copy to `path` stands for, given what recreates the value of its source. -/
def CopySource.retarget (source : CopySource) (path : AttributePath) (fetched : Operation) :
    Except BackendError Operation :=
  if source.kind.fits fetched.mutation then .ok ⟨path, fetched.mutation⟩
  else .error (.inconsistent ⟨path, "Cannot copy " ++ source.path.display ++ " as " ++
    source.kind.name ++ ": source holds " ++ fetched.kind⟩)

namespace Backend

/-- Replaces a copy by the assignment it stands for. Other operations stay what they are. -/
def resolve {σ : Type} (b : Backend σ) (s : σ) (op : Operation) :
    σ × Except BackendError Operation :=
  match op.mutation with
  | .copy source =>
    match b.fetch s source with
    | (s', .error e) => (s', .error e)
    | (s', .ok fetched) => (s', source.retarget op.path fetched)
  | _ => (s, .ok op)

end Backend

end Outbox
