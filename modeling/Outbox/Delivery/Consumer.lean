import Outbox.Delivery.Background

/-!
# The consumer

The consumer works in rounds. In a round it takes batches and sends them until the queue is drained;
then it sleeps until it is woken or its time is over. A batch is acknowledged once the service took
it or refused it for good; only a service that is not reached is tried again, with a pause before
each attempt and a bounded number of times. When the attempts are used up, the consumer ends and
what it did not deliver stays in the queue.

* `Background.readiness` tells whether the consumer can go on, and when;
* `Background.step` is one section of the consumer.

Collecting a batch is one section, although it takes the lock of the queue anew for every record: what
is put meanwhile goes to the end of the queue, as if it had been put before.
-/

namespace Outbox

/-- A millisecond in nanoseconds. -/
def millisecond : Nat := 1000000

/-- Whether the consumer can go on. -/
inductive Readiness where
  | ready
  /-- Not before this time. -/
  | waits (deadline : Nat)
  /-- There is no consumer. -/
  | gone
deriving DecidableEq, Repr

namespace Background

variable {σ : Type}

/-- Ready from a time on. -/
def readyFrom (now deadline : Nat) : Readiness :=
  if now < deadline then .waits deadline else .ready

/-- Whether the consumer can go on at some time. -/
def readiness (p : Background σ) (now : Nat) : Readiness :=
  match p.consumer.phase with
  | .absent => .gone
  | .ended => .gone
  | .awaiting _ _ deadline => readyFrom now deadline
  | .backingOff deadline _ => if p.control.interrupted then .ready else readyFrom now deadline
  | .sleeping deadline notified => if notified then .ready else readyFrom now deadline
  | _ => .ready

/-- Whether the consumer sleeps and nothing has woken it, however short its sleep may be. -/
def isAsleep (p : Background σ) : Bool :=
  match p.consumer.phase with
  | .sleeping _ notified => !notified
  | _ => false

/-! ### Sections -/

/-- Hands the queue to the disk if that was long ago. -/
def flushIfDue (p : Background σ) (now : Nat) : Background σ :=
  if p.settings.sleepTime ≤ now - p.consumer.lastFlush then
    { p.flush with consumer := { p.consumer with lastFlush := now } }
  else p

/-- Pauses before another attempt, or ends if there were enough. -/
def retry (p : Background σ) (now retries : Nat) (next : Nat → Attempt) : Background σ :=
  if p.settings.maxRetries ≤ retries then p.goTo .ending
  else
    (p.withControl fun c => { c with lastBackoff := some now }).goTo
      (.backingOff (now + p.settings.retryWait) (next (retries + 1)))

/-- Looks whether to take a batch. -/
def check (p : Background σ) (retries : Nat) : Background σ :=
  if p.control.interrupted then p.goTo .ending
  else if p.control.status = .paused then p.goTo .resting
  else p.goTo (.collecting retries)

/-- Notes what collecting left behind. -/
def withCollected (p : Background σ) (r : Collected StoredQueue σ) : Background σ :=
  { p with
    disk := r.source.disk
    queue := r.source.queue
    backend := r.backend
    consumer := { p.consumer with stash := r.stash } }

/-- Goes on with what was collected. A batch with nothing to send is acknowledged at once. -/
def takeUp (p : Background σ) (now retries : Nat) :
    Except DeliveryError (Option Batch) → Background σ
  | .ok none => p.goTo .resting
  | .ok (some batch) =>
    if batch.bundle.length = 0 then p.goTo (.acknowledging batch) else p.goTo (.sending batch 0)
  | .error (.backend e) => if e.isRetryable then p.retry now retries .collect else p.goTo .ending
  | .error _ => p.goTo .ending

/-- What collecting the next batch from the queue gives. -/
def collectNext (b : Backend σ) (p : Background σ) : Collected StoredQueue σ :=
  collect queueSource b p.settings.limits p.consumer.stash ⟨p.disk, p.queue⟩ p.backend

/-- Takes a batch from the queue. -/
def collectSection (b : Backend σ) (p : Background σ) (now retries : Nat) : Background σ :=
  let r := p.collectNext b
  (p.withCollected r).takeUp now retries r.result

/-- Sends a batch. -/
def sendSection (b : Backend σ) (p : Background σ) (now : Nat) (batch : Batch) (retries : Nat) :
    Background σ :=
  match b.begin p.backend with
  | (s, delay) => { p with backend := s }.goTo (.awaiting batch retries (now + delay * millisecond))

/-- Takes the answer to a batch. -/
def answerSection (b : Backend σ) (p : Background σ) (now : Nat) (batch : Batch) (retries : Nat) :
    Background σ :=
  match b.answer p.backend p.container batch.bundle with
  | (s, .ok _) =>
    { p with backend := s, disk := p.disk.removeUploaded batch.bundle }.goTo (.acknowledging batch)
  | (s, .error e) =>
    if e.isRetryable then { p with backend := s }.retry now retries (.send batch)
    else { p with backend := s }.goTo (.acknowledging batch)

/-- Acknowledges a batch in the queue. -/
def ackSection (p : Background σ) (batch : Batch) : Background σ :=
  match p.queue.ack p.disk batch.version with
  | ⟨d, q, .ok ()⟩ => { p with disk := d, queue := q }.goTo (.publishing batch.version)
  | ⟨d, q, .error _⟩ => { p with disk := d, queue := q }.goTo .ending

/-- Tells that everything up to a version was delivered. -/
def publishSection (p : Background σ) (now version : Nat) : Background σ :=
  (p.withControl fun c =>
    { c with
      consumed := version
      lastAckTime := now
      lagReported := false
      noProgressReported := false }).goTo (.checking 0)

/-- What an attempt begins with. -/
def goToAttempt (p : Background σ) : Attempt → Background σ
  | .collect retries => p.goTo (.checking retries)
  | .send batch retries => p.goTo (.sending batch retries)

/-- Wakes up for another round. -/
def wakeSection (p : Background σ) : Background σ :=
  let p' := p.withControl fun c => { c with wakeRequested := false }
  if p.control.interrupted then p'.goTo .ending else p'.goTo .starting

/-- Lies down, unless there was a call to wake up. -/
def restSection (p : Background σ) (now : Nat) : Background σ :=
  if p.control.interrupted then p.goTo .ending
  else if p.control.wakeRequested then p.wakeSection
  else p.goTo (.sleeping (now + p.settings.sleepTime) false)

/-- One section of the consumer, if it can go on. -/
def step (b : Backend σ) (p : Background σ) (now : Nat) : Background σ :=
  match p.readiness now with
  | .ready =>
    match p.consumer.phase with
    | .starting => (p.flushIfDue now).goTo (.checking 0)
    | .checking retries => p.check retries
    | .collecting retries => p.collectSection b now retries
    | .sending batch retries => p.sendSection b now batch retries
    | .awaiting batch retries _ => p.answerSection b now batch retries
    | .acknowledging batch => p.ackSection batch
    | .publishing version => p.publishSection now version
    | .backingOff _ next => if p.control.interrupted then p.goTo .ending else p.goToAttempt next
    | .resting => p.restSection now
    | .sleeping _ _ => p.wakeSection
    | .ending => (p.withControl fun c => { c with status := .stopped }).goTo .ended
    | .absent => p
    | .ended => p
  | _ => p

end Background

end Outbox
