import Outbox.Delivery.Offline
import Outbox.Delivery.Timeline

/-!
# Processors

A processor accepts operations and gets them to the service in one of three ways. Whichever it is,
it understands the same calls.
-/

namespace Outbox

/-- Takes operations for a service with states of type `σ`. -/
inductive Processor (σ : Type) where
  | direct (service : Backend σ) (p : Direct σ)
  /-- The service is only carried along. -/
  | offline (p : Offline) (backend : σ) (now : Nat)
  | background (t : Timeline σ)

namespace Processor

variable {σ : Type}

/-- The state of the service. -/
def backend : Processor σ → σ
  | .direct _ p => p.backend
  | .offline _ s _ => s
  | .background t => t.system.backend

/-- Changes the state of the service from outside. -/
def setBackend (s : σ) : Processor σ → Processor σ
  | .direct b p => .direct b { p with backend := s }
  | .offline p _ now => .offline p s now
  | .background t => .background { t with system := { t.system with backend := s } }

/-- The disk. -/
def disk : Processor σ → Disk
  | .direct _ p => p.disk
  | .offline p _ _ => p.disk
  | .background t => t.system.disk

/-- Changes the disk from outside. -/
def setDisk (d : Disk) : Processor σ → Processor σ
  | .direct b p => .direct b { p with disk := d }
  | .offline p s now => .offline { p with disk := d } s now
  | .background t => .background { t with system := { t.system with disk := d } }

/-- The folder of the execution, if it has one. -/
def execution? : Processor σ → Option Execution
  | .direct _ _ => none
  | .offline p _ _ => some p.execution
  | .background t => some t.system.execution

/-- Begins an execution. -/
def create (service : Backend σ) (mode : Mode) (d : Disk) (s : σ) (c : Container)
    (settings : BackgroundSettings) (wall process : Nat) : Except DeliveryError (Processor σ) :=
  match mode with
  | .sync => .ok (.direct service ⟨c, d, s⟩)
  | .offline =>
    (Offline.create d settings.dataDir c settings.maxSegment wall process).2.map
      fun p => .offline p s wall
  | .async =>
    (Background.create d s c settings wall process 0).2.map
      fun p => .background ⟨service, wall, moment, p⟩

/-! ### Calls -/

/-- Accepts an operation; with `waits`, once it was delivered as far as it will be. -/
def enqueue (p : Processor σ) (op : Operation) (waits : Bool) : Processor σ × Timeline.Answer :=
  match p with
  | .direct b q =>
    match q.enqueue b op with
    | (q', r) => (.direct b q', some r)
  | .offline q s now =>
    match q.enqueue now op waits with
    | (q', r) => (.offline q' s now, some r)
  | .background t =>
    match t.enqueue op waits with
    | (t', r) => (.background t', r)

/-- Waits until everything enqueued so far was delivered as far as it will be. -/
def wait (p : Processor σ) : Processor σ × Timeline.Answer :=
  match p with
  | .direct b q => (.direct b q, some (.ok ()))
  | .offline q s now => (.offline q.flush s now, some (.ok ()))
  | .background t =>
    match t.wait with
    | (t', r) => (.background t', r)

/-- Hands to the disk what was written. -/
def flush : Processor σ → Processor σ
  | .direct b q => .direct b q
  | .offline q s now => .offline q.flush s now
  | .background t => .background t.flush

/-- Starts delivery. -/
def start : Processor σ → Processor σ
  | .background t => .background t.start
  | p => p

/-- Suspends delivery. -/
def pause : Processor σ → Processor σ
  | .background t => .background t.pause
  | p => p

/-- Resumes delivery. -/
def resume : Processor σ → Processor σ
  | .background t => .background t.resume
  | p => p

/-- Ends delivery; what is not delivered within the given time stays on disk. -/
def stop (p : Processor σ) (timeout : Option Nat) : Processor σ × Timeline.Answer :=
  match p with
  | .direct b q => (.direct b q, some (.ok ()))
  | .offline q s now => (.offline q.close s now, some (.ok ()))
  | .background t =>
    match t.stop timeout with
    | (t', r) => (.background t', r)

/-- Lets go of the queue. -/
def close : Processor σ → Processor σ
  | .direct b q => .direct b q
  | .offline q s now => .offline q.close s now
  | .background t => .background t.close

end Processor

end Outbox
