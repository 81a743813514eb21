import Outbox.Batch.Sources
import Outbox.Delivery.Direct
import Outbox.Delivery.Storage

/-!
# Delivery in the background

Operations are put into a queue on disk; a consumer takes them out and sends them in batches. The
producer and the consumer share the queue and a few words of control, each behind a lock of its own,
and neither lock is ever taken while the other is held. What happens under a lock is one function
here, so any interleaving of producers and the consumer is a sequence of these functions.

* `Background` is everything: the disk, the queue, the service, the control words (`Control`) and the
  consumer (`Consumer`), which is in one of the phases of `Phase`;
* `Background.create` begins an execution;
* `putSection`, `publish`, `checkProgress` make up an enqueued operation; `flush`, `wake`, `start`,
  `suspend`, `resume`, `askToStop`, `interrupt`, `markStopped`, `cleanUp` and `close` are the others;
* `enqueue`, `beginWait`, `pause`, `beginStop` and `finishStop` are what calls do with nothing
  happening in between;
* the sections of the consumer are in the module on the consumer.

Times are in nanoseconds on a clock that does not go back. They are arguments: every section says at
what time it happens.
-/

namespace Outbox

/-- How operations are delivered in the background. Times are in nanoseconds. -/
structure BackgroundSettings where
  dataDir : String
  /-- How long the consumer rests when nothing wakes it. -/
  sleepTime : Nat
  limits : Limits
  maxSegment : Nat
  /-- How often a request is repeated after the first that did not reach the service. -/
  maxRetries : Nat
  retryWait : Nat
  /-- How long a stop waits if it is not told. -/
  stopTimeout : Nat
  lagThreshold : Nat
  noProgressThreshold : Nat
deriving DecidableEq

/-- How far the consumer is. -/
inductive Status where
  | idle
  | running
  /-- Running without taking batches. -/
  | paused
  /-- Told to come to an end. -/
  | stopping
  | stopped
deriving DecidableEq, Repr

namespace Status

/-- The name of a status. -/
def name : Status → String
  | .idle => "Idle"
  | .running => "Running"
  | .paused => "Paused"
  | .stopping => "Stopping"
  | .stopped => "Stopped"

/-- Whether there is a consumer. -/
def isAlive : Status → Bool
  | .running => true
  | .paused => true
  | .stopping => true
  | _ => false

/-- The status after a pause. -/
def afterPause : Status → Status
  | .running => .paused
  | s => s

/-- The status after a pause is over. -/
def afterResume : Status → Status
  | .paused => .running
  | s => s

/-- The status after a call to come to an end. -/
def afterInterrupt (s : Status) : Status :=
  if s.isAlive then .stopping else s

end Status

/-- The words that producers and the consumer share. -/
structure Control where
  status : Status
  /-- Every operation wakes the consumer. -/
  sleepDisabled : Bool
  wakeRequested : Bool
  interrupted : Bool
  lastPut : Nat
  /-- The last version that was acknowledged. -/
  consumed : Nat
  /-- When something was acknowledged, or the execution began. -/
  lastAckTime : Nat
  /-- When the consumer last began to wait for another attempt. -/
  lastBackoff : Option Nat
  lagReported : Bool
  noProgressReported : Bool
deriving DecidableEq

/-! ### The consumer's state -/

/-- What is attempted again after a pause, with the number of attempts that failed. -/
inductive Attempt where
  | collect (retries : Nat)
  | send (batch : Batch) (retries : Nat)
deriving DecidableEq

/-- What the consumer does next. -/
inductive Phase where
  /-- There is no consumer yet. -/
  | absent
  /-- Begins a round. -/
  | starting
  /-- Looks whether it may take a batch. -/
  | checking (retries : Nat)
  | collecting (retries : Nat)
  | sending (batch : Batch) (retries : Nat)
  /-- Waits for the answer to a batch. -/
  | awaiting (batch : Batch) (retries deadline : Nat)
  | acknowledging (batch : Batch)
  /-- Tells that everything up to a version was delivered. -/
  | publishing (version : Nat)
  | backingOff (deadline : Nat) (next : Attempt)
  /-- Has nothing to send. -/
  | resting
  | sleeping (deadline : Nat) (notified : Bool)
  /-- Comes to an end. -/
  | ending
  | ended
deriving DecidableEq

/-- The state of the consumer. -/
structure Consumer where
  phase : Phase
  /-- A record that was read and has to wait for the next batch. -/
  stash : Option Queued
  /-- When it last handed the queue to the disk, or began. -/
  lastFlush : Nat
deriving DecidableEq

/-- Everything that takes part in delivery in the background. -/
structure Background (σ : Type) where
  container : Container
  settings : BackgroundSettings
  execution : Execution
  disk : Disk
  queue : Queue
  backend : σ
  control : Control
  consumer : Consumer
  /-- Whether there is a consumer that no stop has asked for yet. -/
  handle : Bool
  lagReports : Nat
  noProgressReports : Nat
deriving DecidableEq

namespace Background

variable {σ : Type}

/-! ### Beginning -/

/-- Begins an execution, with the disk it leaves behind also if it fails. The first time is that of
the wall clock in milliseconds. -/
def create (d : Disk) (s : σ) (c : Container) (settings : BackgroundSettings)
    (wall process now : Nat) : Disk × Except DeliveryError (Background σ) :=
  match Execution.create d settings.dataDir c wall process with
  | (d₁, .error e) => (d₁, .error e)
  | (d₁, .ok execution) =>
    match Queue.openIn d₁ execution.place settings.maxSegment with
    | (d₂, .error e) => (d₂, .error (.queue e))
    | (d₂, .ok queue) =>
      match execution.writeMetadata d₂ .async c wall with
      | (d₃, .error e) => (d₃, .error e)
      | (d₃, .ok _) =>
        let control : Control :=
          ⟨.idle, false, false, false, queue.lastPut, queue.lastAck, now, none, false, false⟩
        (d₃, .ok ⟨c, settings, execution, d₃, queue, s, control, ⟨.absent, none, now⟩, false, 0, 0⟩)

/-! ### Small steps -/

/-- Hands the queue to the disk. -/
def flush (p : Background σ) : Background σ :=
  match p.queue.flush p.disk with
  | (d, q) => { p with disk := d, queue := q }

/-- Changes the control words. -/
def withControl (p : Background σ) (f : Control → Control) : Background σ :=
  { p with control := f p.control }

/-- The consumer goes over to a phase. -/
def goTo (p : Background σ) (phase : Phase) : Background σ :=
  { p with consumer := { p.consumer with phase := phase } }

/-- Notifies the consumer: if it sleeps, it wakes up. -/
def notify (p : Background σ) : Background σ :=
  match p.consumer.phase with
  | .sleeping deadline _ => p.goTo (.sleeping deadline true)
  | _ => p

/-- Asks the consumer not to sleep. -/
def wake (p : Background σ) : Background σ :=
  (p.withControl fun c => { c with wakeRequested := true }).notify

/-! ### Enqueuing -/

/-- Whether operations are not accepted any more. -/
def isRefusing (p : Background σ) : Bool :=
  p.control.status == .stopped

/-- Puts an operation into the queue, and gives its version and whether the reader is far behind. -/
def putSection (p : Background σ) (wall : Nat) (op : Operation) :
    Background σ × Except DeliveryError (Nat × Bool) :=
  match p.queue.put p.disk wall op with
  | ⟨d, q, .error e⟩ => ({ p with disk := d, queue := q }, .error (.queue e))
  | ⟨d, q, .ok version⟩ => ({ p with disk := d, queue := q }, .ok (version, q.isOverflowing))

/-- Tells the version of the last operation, and wakes the consumer if there is a reason to. -/
def publish (p : Background σ) (version : Nat) (overflowing : Bool) : Background σ :=
  let p' := p.withControl fun c => { c with lastPut := version }
  if overflowing || p.control.sleepDisabled then p'.wake else p'

/-- Looks whether delivery lags or makes no progress. Each is reported once until something is
acknowledged. -/
def checkProgress (p : Background σ) (now : Nat) : Background σ :=
  let c := p.control
  let since := now - c.lastAckTime
  let lag := !c.lagReported && decide (p.settings.lagThreshold < since)
  let failing := c.lastBackoff.any (c.lastAckTime ≤ ·)
  let noProgress := failing && !c.noProgressReported &&
    decide (p.settings.noProgressThreshold < since)
  { p with
    control := { c with
      lagReported := c.lagReported || lag
      noProgressReported := c.noProgressReported || noProgress }
    lagReports := p.lagReports + lag.toNat
    noProgressReports := p.noProgressReports + noProgress.toNat }

/-- Enqueues an operation with nothing happening in between. -/
def enqueue (p : Background σ) (wall now : Nat) (op : Operation) :
    Background σ × Except DeliveryError Unit :=
  if p.isRefusing then (p, .error .stopped)
  else
    match p.putSection wall op with
    | (p', .error e) => (p', .error e)
    | (p', .ok (version, overflowing)) => ((p'.publish version overflowing).checkProgress now, .ok ())

/-! ### Waiting -/

/-- Begins to wait: the queue is handed to the disk and the consumer is woken. Gives the version to
wait for. -/
def beginWait (p : Background σ) : Background σ × Nat :=
  let p' := p.flush.wake
  (p', p'.control.lastPut)

/-- What a wait for a version answers, if it is over: everything was delivered, or there is nobody
to deliver it. -/
def waitAnswer (p : Background σ) (target : Nat) : Option (Except DeliveryError Unit) :=
  if target ≤ p.control.consumed then some (.ok ())
  else if p.control.status.isAlive then none
  else some (.error .stopped)

/-! ### The consumer's life -/

/-- Starts the consumer, unless there was one. -/
def start (p : Background σ) (now : Nat) : Background σ :=
  if p.control.status = .idle then
    { p with
      control := { p.control with status := .running }
      consumer := ⟨.starting, none, now⟩
      handle := true }
  else p

/-- Tells the consumer to take no batches. -/
def suspend (p : Background σ) : Background σ :=
  p.withControl fun c => { c with status := c.status.afterPause }

/-- Keeps the consumer from taking batches. -/
def pause (p : Background σ) : Background σ :=
  p.suspend.flush

/-- Lets the consumer take batches again. -/
def resume (p : Background σ) : Background σ :=
  (p.withControl fun c =>
    { c with status := c.status.afterResume }).wake

/-- Lets go of the queue. -/
def close (p : Background σ) : Background σ :=
  match p.queue.close p.disk with
  | (d, q) => { p with disk := d, queue := q }

/-! ### Stopping -/

/-- Asks the consumer to deliver what there is without sleeping. -/
def askToStop (p : Background σ) : Background σ :=
  ({ p with handle := false }.withControl fun c =>
    { c with sleepDisabled := true, status := c.status.afterResume }).wake

/-- Begins a stop. If there is a consumer that was not told to stop before, it is woken, and the
version up to which it should deliver is given. -/
def beginStop (p : Background σ) : Background σ × Option Nat :=
  let p' := p.flush
  if p'.handle then (p'.askToStop, some p'.control.lastPut) else (p', none)

/-- Whether a stop need not wait for deliveries any more. -/
def isDrained (p : Background σ) (target : Nat) : Bool :=
  decide (target ≤ p.control.consumed) || !p.control.status.isAlive

/-- Tells the consumer to come to an end. -/
def interrupt (p : Background σ) : Background σ :=
  (p.withControl fun c =>
    { c with interrupted := true, status := c.status.afterInterrupt }).notify

/-- Whether the consumer has come to an end. -/
def isStopped (p : Background σ) : Bool :=
  p.control.status == .stopped

/-- Notes that there is no consumer, and will be none. -/
def markStopped (p : Background σ) : Background σ :=
  (p.withControl fun c => { c with status := .stopped }).notify

/-- Lets go of the queue, and removes it if it is empty. -/
def cleanUp (p : Background σ) : Background σ × Except DeliveryError Unit :=
  let p' := p.close
  if p'.disk.has p'.queue.folder then
    match p'.queue.removeIfEmpty p'.disk with
    | ⟨d, q, .ok _⟩ => ({ p' with disk := d, queue := q }, .ok ())
    | ⟨d, q, .error e⟩ => ({ p' with disk := d, queue := q }, .error (.queue e))
  else (p', .ok ())

/-- Ends a stop: if there is no consumer, the queue is closed, and removed if it is empty. -/
def finishStop (p : Background σ) : Background σ × Except DeliveryError Unit :=
  if p.control.status.isAlive then (p, .ok ()) else p.markStopped.cleanUp

end Background

end Outbox
