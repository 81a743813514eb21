import Outbox.Backend.Service
import Outbox.Queue.Segment

/-!
# Collecting batches

Records are read from a source one by one and merged until a batch is full or the source is drained.
A record that does not fit is kept for the next batch.

* `Limits` bound a batch, and `Limits.admit` tells whether an operation may join it;
* `Source` is where the records come from;
* `Collecting` is a batch in the making, and `Collecting.take` deals with one record: a copy is
  replaced by the assignment it stands for, and because that depends on what was sent before, a
  copy begins a batch;
* `collect` gives the next `Batch`, and what it leaves behind (`Collected`).
-/

namespace Outbox

/-- Why operations could not be delivered. -/
inductive DeliveryError where
  | queue (e : QueueError)
  | merge (e : MergeError)
  | backend (e : BackendError)
  /-- The service refused some operations of a batch that it took. -/
  | rejected (rs : List Rejection)
  /-- Nothing is delivered any more. -/
  | stopped
  | storage
  | metadata
deriving DecidableEq

/-- The text of an error; none where it would tell about the system. -/
def DeliveryError.message? : DeliveryError → Option String
  | .merge e => some ("preprocessing error: " ++ e.message)
  | .backend e => some ("backend error: " ++ e.message)
  | .rejected rs => some (toString rs.length ++ " operation(s) rejected by the backend")
  | .stopped => some "synchronization with the backend has already stopped"
  | .queue _ => none
  | .storage => none
  | .metadata => none

/-- The bounds of a batch. -/
structure Limits where
  points : Nat
  attributes : Nat
  pointsPerAttribute : Nat
deriving DecidableEq

/-- The default bounds. -/
def Limits.default : Limits :=
  ⟨100000, 1000, 10000⟩

/-- Whether an operation may join a batch. An empty one takes everything. -/
def Limits.admit (limits : Limits) (m : Merger) (op : Operation) : Bool :=
  m.sourceCount == 0 ||
    ((m.has op.path || decide (m.attributes + 1 ≤ limits.attributes)) &&
      (!op.isLog || (decide (m.points + op.points ≤ limits.points) &&
        decide (m.pointsOf op.path + op.points ≤ limits.pointsPerAttribute))))

/-! ### Records and batches -/

/-- A record to be delivered. -/
structure Queued where
  version : Nat
  op : Operation
deriving DecidableEq

/-- Where records come from. -/
structure Source (ρ : Type) where
  /-- The next record; none when all were read. -/
  next : ρ → ρ × Except QueueError (Option Queued)
  /-- A number that the records left do not exceed. -/
  bound : ρ → Nat

/-- A batch that is ready to be sent. -/
structure Batch where
  bundle : Bundle
  /-- The number of copies that could not be resolved. -/
  dropped : Nat
  /-- The last version that the batch covers. -/
  version : Nat
deriving DecidableEq

/-! ### One record -/

/-- A batch in the making. -/
structure Collecting where
  merger : Merger
  errors : List Inconsistency
  dropped : Nat
  /-- The last version covered so far. -/
  version : Option Nat
deriving DecidableEq

/-- What became of a record. -/
inductive Taken where
  /-- It is covered by the batch. -/
  | covered (c : Collecting)
  /-- It has to wait for the next batch. -/
  | kept (c : Collecting)
  /-- It has to wait because the service was not reached. -/
  | unreached (e : BackendError)
  /-- It cannot be merged. -/
  | failed (e : MergeError)

namespace Collecting

/-- Nothing was read. -/
def empty : Collecting :=
  ⟨.empty, [], 0, none⟩

/-- The report of a copy that could not be resolved. -/
def copyFailure (path : AttributePath) : BackendError → Inconsistency
  | .inconsistent report => report
  | e => ⟨path, "Cannot copy attribute " ++ path.display ++ ": " ++ e.message⟩

/-- Leaves out a copy that cannot be resolved. -/
def drop (c : Collecting) (r : Queued) (e : BackendError) : Collecting :=
  ⟨c.merger, c.errors ++ [copyFailure r.op.path e], c.dropped + 1, some r.version⟩

/-- Merges an operation, which a record stands for, unless the batch is full. -/
def join (limits : Limits) (c : Collecting) (r : Queued) (op : Operation) : Taken :=
  if limits.admit c.merger op then
    match c.merger.process op with
    | (_, .error e) => .failed e
    | (m, .ok false) => .kept { c with merger := m }
    | (m, .ok true) => .covered { c with merger := m, version := some r.version }
  else .kept c

/-- Deals with one record. -/
def take {σ : Type} (b : Backend σ) (limits : Limits) (s : σ) (c : Collecting) (r : Queued) :
    σ × Taken :=
  if r.op.isCopy then
    if c.merger.sourceCount = 0 then
      match b.resolve s r.op with
      | (s', .ok op) => (s', c.join limits r op)
      | (s', .error e) => (s', if e.isRetryable then .unreached e else .covered (c.drop r e))
    else (s, .kept c)
  else (s, c.join limits r r.op)

/-- The batch, if it covers any record. -/
def finish (c : Collecting) : Option Batch :=
  c.version.map fun version => ⟨c.merger.finish c.errors, c.dropped, version⟩

end Collecting

/-! ### Batches -/

/-- What collecting leaves behind and answers. -/
structure Collected (ρ σ : Type) where
  /-- A record that was read and has to wait for the next batch. -/
  stash : Option Queued
  source : ρ
  backend : σ
  result : Except DeliveryError (Option Batch)

variable {ρ σ : Type}

/-- The next record: the one that was kept, or else one from the source. -/
def nextRecord (src : Source ρ) (stash : Option Queued) (source : ρ) :
    ρ × Except QueueError (Option Queued) :=
  match stash with
  | some r => (source, .ok (some r))
  | none => src.next source

/-- Goes on collecting, with at most so many records. -/
def collectFrom (src : Source ρ) (b : Backend σ) (limits : Limits) (fuel : Nat) (c : Collecting)
    (stash : Option Queued) (source : ρ) (s : σ) : Collected ρ σ :=
  match fuel with
  | 0 => ⟨stash, source, s, .ok c.finish⟩
  | fuel + 1 =>
    match nextRecord src stash source with
    | (source', .error e) => ⟨none, source', s, .error (.queue e)⟩
    | (source', .ok none) => ⟨none, source', s, .ok c.finish⟩
    | (source', .ok (some r)) =>
      match c.take b limits s r with
      | (s', .covered c') => collectFrom src b limits fuel c' none source' s'
      | (s', .kept c') => ⟨some r, source', s', .ok c'.finish⟩
      | (s', .failed e) => ⟨none, source', s', .error (.merge e)⟩
      | (s', .unreached e) =>
        match c.finish with
        | some batch => ⟨some r, source', s', .ok (some batch)⟩
        | none => ⟨some r, source', s', .error (.backend e)⟩

/-- Collects the next batch; none when there is no record. -/
def collect (src : Source ρ) (b : Backend σ) (limits : Limits) (stash : Option Queued)
    (source : ρ) (s : σ) : Collected ρ σ :=
  collectFrom src b limits (src.bound source + 2) .empty stash source s

end Outbox
