import Outbox.Delivery.Consumer

/-!
# One producer on a timeline

A producer and the consumer taking turns on a virtual clock. Whenever the producer waits for
something, the consumer goes on; when the consumer waits as well, the clock moves on to the time at
which one of them can go on. Every section takes a moment of its own, and waking up without being called
takes longer.

* `Timeline` is delivery in the background together with the clock;
* `Timeline.await` lets time pass until something is the case or a deadline is over;
* `enqueue`, `wait`, `stop` and the other calls of the producer come back with the timeline after
  them. A call that would not come back at all answers nothing; the bound on the number of sections
  is `patience`.
-/

namespace Outbox

/-- How long a section takes, in nanoseconds. -/
def moment : Nat := 1000

/-- How long it takes to wake up by oneself, in nanoseconds. -/
def nap : Nat := millisecond

/-- How many sections a call waits for at most. -/
def patience : Nat := 2000000

/-- Delivery in the background at a time. -/
structure Timeline (σ : Type) where
  service : Backend σ
  /-- The time on the wall clock at which the timeline began, in milliseconds. -/
  epoch : Nat
  clock : Nat
  system : Background σ

namespace Timeline

variable {σ : Type}

/-- The time on the wall clock, in milliseconds. -/
def wall (t : Timeline σ) : Nat :=
  t.epoch + t.clock / millisecond

/-- A section of the producer. -/
def act (t : Timeline σ) (f : Background σ → Background σ) : Timeline σ :=
  { t with clock := t.clock + moment, system := f t.system }

/-- Moves the clock on. -/
def atLeast (t : Timeline σ) (time : Nat) : Timeline σ :=
  { t with clock := max t.clock time }

/-- A section of the consumer. If it sleeps and nothing has woken it, it first takes its time. -/
def advance (t : Timeline σ) : Timeline σ :=
  let t' := if t.system.isAsleep then t.atLeast (t.clock + nap) else t
  t'.act fun p => p.step t.service t'.clock

/-- Lets time pass until something is the case, and tells whether it is, or until a deadline is over.
Without a deadline it gives up when nothing can happen any more. -/
def awaitWithin (fuel : Nat) (t : Timeline σ) (deadline : Option Nat)
    (goal : Background σ → Bool) : Timeline σ × Bool :=
  match fuel with
  | 0 => (t, goal t.system)
  | fuel + 1 =>
    if goal t.system then (t, true)
    else if deadline.any (· ≤ t.clock) then (t, false)
    else
      match t.system.readiness t.clock with
      | .ready => awaitWithin fuel t.advance deadline goal
      | .waits time => awaitWithin fuel (t.atLeast (min time (deadline.getD time))) deadline goal
      | .gone =>
        match deadline with
        | some time => (t.atLeast time, false)
        | none => (t, false)

/-- Lets time pass until something is the case. -/
def await (t : Timeline σ) (deadline : Option Nat) (goal : Background σ → Bool) :
    Timeline σ × Bool :=
  awaitWithin patience t deadline goal

/-- Lets the consumer go on until it sleeps or waits, by so many sections at most. -/
def settleWithin (fuel : Nat) (t : Timeline σ) : Timeline σ :=
  match fuel with
  | 0 => t
  | fuel + 1 =>
    if t.system.isAsleep then t
    else
      match t.system.readiness t.clock with
      | .ready => settleWithin fuel t.advance
      | _ => t

/-- Lets the consumer go on until it sleeps or waits. -/
def settle (t : Timeline σ) : Timeline σ :=
  settleWithin patience t

/-! ### Calls -/

/-- What a call answers; nothing if it does not come back. -/
abbrev Answer := Option (Except DeliveryError Unit)

/-- Lets time pass. -/
def sleep (t : Timeline σ) (nanos : Nat) : Timeline σ :=
  (t.await (some (t.clock + nanos)) fun _ => false).1

/-- Waits until everything enqueued so far was delivered. -/
def wait (t : Timeline σ) : Timeline σ × Answer :=
  let target := t.system.beginWait.2
  match (t.act fun p => p.beginWait.1).await none fun p => (p.waitAnswer target).isSome with
  | (t', _) => (t', t'.system.waitAnswer target)

/-- Enqueues an operation, and waits for its delivery if asked to. -/
def enqueue (t : Timeline σ) (op : Operation) (waits : Bool) : Timeline σ × Answer :=
  let result := (t.system.enqueue t.wall t.clock op).2
  let t' := t.act fun p => (p.enqueue t.wall t.clock op).1
  match result, waits with
  | .ok (), true => t'.wait
  | _, _ => (t'.settle, some result)

/-- Starts the consumer. -/
def start (t : Timeline σ) : Timeline σ :=
  (t.act fun p => p.start t.clock).settle

/-- Keeps the consumer from taking batches. -/
def pause (t : Timeline σ) : Timeline σ :=
  (t.act Background.pause).settle

/-- Lets the consumer take batches again. -/
def resume (t : Timeline σ) : Timeline σ :=
  (t.act Background.resume).settle

/-- Hands the queue to the disk. -/
def flush (t : Timeline σ) : Timeline σ :=
  t.act Background.flush

/-- Lets go of the queue. -/
def close (t : Timeline σ) : Timeline σ :=
  t.act Background.close

/-- The last part of a stop. -/
def finishStop (t : Timeline σ) : Timeline σ × Answer :=
  let result := t.system.finishStop.2
  (t.act fun p => p.finishStop.1, some result)

/-- Delivers what can be delivered in the given time, and then lets go of everything. If the consumer
is still busy when the time is over, it is left to come to an end by itself. -/
def stop (t : Timeline σ) (timeout : Option Nat) : Timeline σ × Answer :=
  let deadline := t.clock + timeout.getD t.system.settings.stopTimeout
  let began := t.act fun p => p.beginStop.1
  match t.system.beginStop.2 with
  | none => began.finishStop
  | some target =>
    match began.await (some deadline) fun p => p.isDrained target with
    | (drained, _) =>
      match (drained.act Background.interrupt).await (some deadline) Background.isStopped with
      | (ended, false) => (ended, some (.ok ()))
      | (ended, true) => ended.finishStop

end Timeline

end Outbox
