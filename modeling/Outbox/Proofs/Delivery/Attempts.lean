import Outbox.Proofs.Delivery.Blocking
import Outbox.Proofs.Delivery.Order

/-!
# Attempts

What the consumer asks of the service and of the queue is kept in journals, which sections are added to one
by one: the requests that the service answered, the answers to calls to collect a batch, and the turns that
the consumer had.

* `Background.journal` is what sections leave behind, and `requests`, `collections` and `turns` are the
  journals;
* `Background.Always` is what holds before and after each of some sections;
* `Background.Undisturbed` is what every section beside the consumer leaves as it is, and
  `Background.SetUpAs` what every section does;
* `Background.Orderly` says that delivery is in order or blocked, and `Orderly.ack` that what the consumer
  acknowledges is acknowledged.
-/

namespace Outbox

/-- A request that the service answered. -/
structure Request where
  container : Container
  bundle : Bundle
  answer : Except BackendError Receipt

/-- Whether the service was not reached. -/
def isUnreached : Except BackendError Receipt → Bool
  | .error e => e.isRetryable
  | .ok _ => false

/-- Whether no batch was collected because the service was not reached. -/
def isUncollected : Except DeliveryError (Option Batch) → Bool
  | .error (.backend e) => e.isRetryable
  | _ => false

namespace Background

variable {σ : Type}

/-! ## Journals -/

/-- What some sections leave behind, if each of them leaves something or nothing. -/
def journal {β : Type} (b : Backend σ) (noted : Background σ → Section σ → Option β)
    (p : Background σ) : List (Section σ) → List β
  | [] => []
  | s :: sections => (noted p s).toList ++ journal b noted (p.after b s) sections

theorem journal_append {β : Type} (b : Backend σ) (noted : Background σ → Section σ → Option β)
    (p : Background σ) (front back : List (Section σ)) :
    p.journal b noted (front ++ back) =
      p.journal b noted front ++ (p.run b front).journal b noted back := by
  induction front generalizing p with
  | nil => rfl
  | cons s front ih =>
    show (noted p s).toList ++ (p.after b s).journal b noted (front ++ back) =
      ((noted p s).toList ++ (p.after b s).journal b noted front) ++ _
    rw [ih, List.append_assoc]
    rfl

/-- The phase in which the consumer goes on, if it does. -/
def turn? (p : Background σ) : Section σ → Option Phase
  | .consumer now => if p.readiness now = .ready then some p.consumer.phase else none
  | _ => none

/-- The request that is answered. -/
def answered? (b : Backend σ) (p : Background σ) (s : Section σ) : Option Request :=
  match p.turn? s with
  | some (.awaiting batch _ _) =>
    some ⟨p.container, batch.bundle, (b.answer p.backend p.container batch.bundle).2⟩
  | _ => none

/-- The answer to a call to collect a batch. -/
def collected? (b : Backend σ) (p : Background σ) (s : Section σ) :
    Option (Except DeliveryError (Option Batch)) :=
  match p.turn? s with
  | some (.collecting _) => some (p.collectNext b).result
  | _ => none

/-- How often the consumer went on. -/
def turns (b : Backend σ) (p : Background σ) (sections : List (Section σ)) : Nat :=
  (p.journal b turn? sections).length

/-- The requests that the service answered. -/
def requests (b : Backend σ) (p : Background σ) (sections : List (Section σ)) : List Request :=
  p.journal b (answered? b) sections

/-- The answers to the calls to collect a batch. -/
def collections (b : Backend σ) (p : Background σ) (sections : List (Section σ)) :
    List (Except DeliveryError (Option Batch)) :=
  p.journal b (collected? b) sections

/-- Something holds before and after each of some sections. -/
def Always (b : Backend σ) (P : Background σ → Prop) (p : Background σ) : List (Section σ) → Prop
  | [] => P p
  | s :: sections => P p ∧ Always b P (p.after b s) sections

instance decidableAlways (b : Backend σ) (P : Background σ → Prop) [DecidablePred P] :
    (p : Background σ) → (sections : List (Section σ)) → Decidable (p.Always b P sections)
  | p, [] => inferInstanceAs (Decidable (P p))
  | p, s :: sections =>
    have := decidableAlways b P (p.after b s) sections
    inferInstanceAs (Decidable (P p ∧ (p.after b s).Always b P sections))

variable {b : Backend σ} {p : Background σ}

/-- The consumer may go on at any time. -/
theorem permitsAll_turns (b : Backend σ) (times : List Nat) : p.PermitsAll b (times.map .consumer) := by
  induction times generalizing p with
  | nil => trivial
  | cons now times ih => exact ⟨trivial, ih⟩

theorem turn?_of_ready {now : Nat} (ready : p.readiness now = .ready) :
    p.turn? (.consumer now) = some p.consumer.phase :=
  if_pos ready

/-- A consumer that cannot go on does nothing. -/
theorem waits_of_not_ready {now : Nat} (waits : p.readiness now ≠ .ready) :
    p.turn? (.consumer now) = none ∧ p.step b now = p := by
  refine ⟨if_neg waits, ?_⟩
  unfold step
  split
  · next ready => exact absurd ready waits
  · rfl

/-- Only the consumer goes on. -/
theorem turn?_eq_none {s : Section σ} (other : ∀ now, s ≠ .consumer now) : p.turn? s = none := by
  cases s with
  | consumer now => exact absurd rfl (other now)
  | _ => rfl

/-- The answer to a call is what the consumer takes up. -/
theorem collected?_eq_some {s : Section σ} {r : Except DeliveryError (Option Batch)}
    (collected : p.collected? b s = some r) :
    ∃ now retries, s = .consumer now ∧ p.consumer.phase = .collecting retries ∧
      p.after b s = (p.withCollected (p.collectNext b)).takeUp now retries r := by
  unfold collected? at collected
  split at collected
  · next retries turn =>
    cases s with
    | consumer now =>
      simp only [turn?] at turn
      split at turn
      · next ready =>
        have phase : p.consumer.phase = .collecting retries := Option.some.inj turn
        rw [Option.some.injEq] at collected
        refine ⟨now, retries, rfl, phase, ?_⟩
        show p.step b now = _
        simp only [Background.step, ready, phase, collectSection, collected]
      · cases turn
    | _ => cases turn
  · cases collected

/-! ## What sections leave as it is -/

/-- The consumer neither went on nor was started, and what was acknowledged and told is what it was. -/
structure Undisturbed (p p' : Background σ) : Prop where
  phase : p.consumer.phase.Nudged p'.consumer.phase
  lastAck : p'.queue.lastAck = p.queue.lastAck
  consumed : p'.control.consumed = p.control.consumed
  stopped : p.control.status = .stopped → p'.control.status = .stopped

theorem Quiet.undisturbed {p' : Background σ} (quiet : p.Quiet p') : p.Undisturbed p' :=
  ⟨quiet.phase, by rw [quiet.queue], quiet.consumed, quiet.status.stopped⟩

/-- A section that touches nothing but the disk and the queue. -/
theorem undisturbed_of_queue {p' : Background σ} (control : p'.control = p.control)
    (consumer : p'.consumer = p.consumer) (lastAck : p'.queue.lastAck = p.queue.lastAck) :
    p.Undisturbed p' := by
  refine ⟨?_, lastAck, by rw [control], fun stopped => control ▸ stopped⟩
  rw [consumer]
  exact .same _

/-- **Only the consumer acknowledges anything.** -/
theorem undisturbed_after (b : Backend σ) {s : Section σ} (other : ∀ now, s ≠ .consumer now)
    (started : ∀ now, s = .start now → p.control.status ≠ .idle) (permitted : p.Permits s) :
    p.Undisturbed (p.after b s) := by
  have closed : p.close.queue.lastAck = p.queue.lastAck := by
    obtain ⟨writer, same, -⟩ := Queue.flush_eq p.disk p.queue
    show (p.queue.flush p.disk).2.lastAck = p.queue.lastAck
    rw [same]
  cases s with
  | consumer now => exact absurd rfl (other now)
  | publish | checkProgress | wake | notify | suspend | resume | askToStop | interrupt | markStopped
  | service => exact Quiet.undisturbed (quiet_after b trivial permitted)
  | put wall op =>
    obtain ⟨segments, writer, lastPut, -, same⟩ := Queue.put_eq p.disk p.queue wall op
    show p.Undisturbed (p.putSection wall op).1
    rw [putSection_fst, same]
    exact undisturbed_of_queue rfl rfl rfl
  | start now =>
    show p.Undisturbed (p.start now)
    unfold start
    rw [if_neg (started now rfl)]
    exact undisturbed_of_queue rfl rfl rfl
  | flush => exact undisturbed_of_queue rfl rfl closed
  | close => exact undisturbed_of_queue rfl rfl closed
  | cleanUp =>
    obtain ⟨control, consumer⟩ := cleanUp_frame p
    refine undisturbed_of_queue control consumer ?_
    show p.cleanUp.1.queue.lastAck = _
    rcases cleanUp_cases p with same | same
    · rw [same]
      exact closed
    · rw [same]
      rcases removeIfEmpty_cases p.close.disk p.close.queue with kept | ⟨-, -, -, lastAck, -⟩
      · rw [kept]
        exact closed
      · exact lastAck.trans closed
  | disk d => exact undisturbed_of_queue rfl rfl rfl

/-- The container and the settings are what they were. -/
structure SetUpAs (p p' : Background σ) : Prop where
  container : p'.container = p.container
  settings : p'.settings = p.settings

theorem setUpAs_retry (p : Background σ) (now retries : Nat) (next : Nat → Attempt) :
    p.SetUpAs (p.retry now retries next) := by
  unfold retry
  split <;> exact ⟨rfl, rfl⟩

theorem setUpAs_wakeSection (p : Background σ) : p.SetUpAs p.wakeSection := by
  unfold wakeSection
  dsimp only
  split <;> exact ⟨rfl, rfl⟩

theorem setUpAs_takeUp (p : Background σ) (now retries : Nat) (r : Except DeliveryError (Option Batch)) :
    p.SetUpAs (p.takeUp now retries r) := by
  unfold takeUp
  split
  · exact ⟨rfl, rfl⟩
  · split <;> exact ⟨rfl, rfl⟩
  · split
    · exact setUpAs_retry p now retries .collect
    · exact ⟨rfl, rfl⟩
  · exact ⟨rfl, rfl⟩

theorem setUpAs_answerSection (b : Backend σ) (p : Background σ) (now : Nat) (batch : Batch)
    (retries : Nat) : p.SetUpAs (p.answerSection b now batch retries) := by
  unfold answerSection
  split
  · exact ⟨rfl, rfl⟩
  · split
    · next s _ _ _ =>
      obtain ⟨container, settings⟩ := setUpAs_retry { p with backend := s } now retries (.send batch)
      exact ⟨container, settings⟩
    · exact ⟨rfl, rfl⟩

theorem setUpAs_step (b : Backend σ) (p : Background σ) (now : Nat) : p.SetUpAs (p.step b now) := by
  unfold step
  cases p.readiness now with
  | waits _ | gone => exact ⟨rfl, rfl⟩
  | ready =>
    cases p.consumer.phase with
    | absent | ended | ending | sending | publishing => exact ⟨rfl, rfl⟩
    | collecting retries =>
      obtain ⟨container, settings⟩ := setUpAs_takeUp (p.withCollected (p.collectNext b)) now retries
        (p.collectNext b).result
      exact ⟨container, settings⟩
    | awaiting batch retries _ => exact setUpAs_answerSection b p now batch retries
    | sleeping => exact setUpAs_wakeSection p
    | starting =>
      show p.SetUpAs ((p.flushIfDue now).goTo (.checking 0))
      unfold flushIfDue
      split <;> exact ⟨rfl, rfl⟩
    | checking retries =>
      show p.SetUpAs (p.check retries)
      unfold check
      split
      · exact ⟨rfl, rfl⟩
      · split <;> exact ⟨rfl, rfl⟩
    | acknowledging batch =>
      show p.SetUpAs (p.ackSection batch)
      unfold ackSection
      split <;> exact ⟨rfl, rfl⟩
    | backingOff _ next =>
      show p.SetUpAs (if _ then _ else _)
      split
      · exact ⟨rfl, rfl⟩
      · cases next <;> exact ⟨rfl, rfl⟩
    | resting =>
      show p.SetUpAs (p.restSection now)
      unfold restSection
      split
      · exact ⟨rfl, rfl⟩
      · split
        · exact setUpAs_wakeSection p
        · exact ⟨rfl, rfl⟩

theorem setUpAs_notify (p : Background σ) : p.SetUpAs p.notify := by
  unfold notify
  split <;> exact ⟨rfl, rfl⟩

/-- **What an execution is about and how it is set up** stays as it is. -/
theorem setUpAs_after (b : Backend σ) (p : Background σ) (s : Section σ) : p.SetUpAs (p.after b s) := by
  -- a call that changes control words and notifies the consumer
  have notified {p' : Background σ} (told : p.SetUpAs p') : p.SetUpAs p'.notify :=
    ⟨(setUpAs_notify p').container.trans told.container, (setUpAs_notify p').settings.trans told.settings⟩
  cases s with
  | consumer now => exact setUpAs_step b p now
  | put wall op =>
    show p.SetUpAs (p.putSection wall op).1
    rw [putSection_fst]
    exact ⟨rfl, rfl⟩
  | publish version overflowing =>
    show p.SetUpAs (if _ then _ else _)
    split
    · exact notified ⟨rfl, rfl⟩
    · exact ⟨rfl, rfl⟩
  | start now =>
    show p.SetUpAs (p.start now)
    unfold start
    split <;> exact ⟨rfl, rfl⟩
  | cleanUp =>
    show p.SetUpAs p.cleanUp.1
    rcases cleanUp_cases p with same | same <;> rw [same] <;> exact ⟨rfl, rfl⟩
  | wake | notify | resume | askToStop | interrupt | markStopped => exact notified ⟨rfl, rfl⟩
  | checkProgress | flush | close | suspend | service | disk => exact ⟨rfl, rfl⟩

/-! ## In order or blocked -/

/-- Delivery is in order, or blocked by an operation that cannot be decoded. -/
def Orderly (p : Background σ) : Prop :=
  p.Blocked ∨ ∃ l shipments flight, p.InOrder l shipments flight

namespace Orderly

/-- **Any section.** -/
theorem after (h : p.Orderly) (b : Backend σ) {s : Section σ} (permitted : p.Permits s) :
    (p.after b s).Orderly := by
  rcases h with blocked | ⟨l, shipments, flight, inOrder⟩
  · exact .inl (blocked.after b permitted)
  · by_cases consumer : ∃ now, s = .consumer now
    · obtain ⟨now, rfl⟩ := consumer
      obtain ⟨l', more, flight', inOrder', -⟩ := inOrder.step b now
      exact .inr ⟨l', _, flight', inOrder'⟩
    · have other : ∀ now, s ≠ .consumer now := fun now same => consumer ⟨now, same⟩
      rcases inOrder.permitted b other permitted with blocked | ⟨l', inOrder', -⟩
      · exact .inl blocked
      · exact .inr ⟨l', shipments, flight, inOrder'⟩

/-- However many sections there are. -/
theorem run (h : p.Orderly) {sections : List (Section σ)} (permitted : p.PermitsAll b sections) :
    (p.run b sections).Orderly := by
  induction sections generalizing p with
  | nil => exact h
  | cons s sections ih => exact ih (h.after b permitted.1) permitted.2

/-- There is no consumer before the start. -/
theorem absent (h : p.Orderly) (idle : p.control.status = .idle) : p.consumer.phase = .absent := by
  rcases h with blocked | ⟨l, shipments, flight, inOrder⟩
  · cases blocked with
    | ahead ahead => exact ahead.idle idle
    | atEnd _ started => exact absurd idle started
  · have lives := inOrder.lives
    rw [idle] at lives
    exact lives.absent

theorem started (h : p.Orderly) (present : p.consumer.phase ≠ .absent) : p.control.status ≠ .idle :=
  fun idle => present (h.absent idle)

/-- **What the consumer acknowledges is acknowledged.** -/
theorem ack (h : p.Orderly) {batch : Batch} (hp : p.consumer.phase = .acknowledging batch) :
    ∃ d' q', p.queue.ack p.disk batch.version = ⟨d', q', .ok ()⟩ ∧
      q'.lastAck = max batch.version p.queue.lastAck := by
  rcases h with blocked | ⟨l, shipments, flight, inOrder⟩
  · cases blocked with
    | ahead ahead =>
      have known := ahead.carried
      rw [hp] at known
      obtain ⟨d', q', acked, holds, -⟩ := ahead.follows.holds.ack known
      have before : p.queue.lastAck = _ := ahead.follows.holds.acked
      refine ⟨d', q', acked, ?_⟩
      rw [before]
      exact holds.acked
    | atEnd phase =>
      rw [hp] at phase
      rcases phase with phase | phase <;> cases phase
  · have lives := inOrder.lives
    have fits := inOrder.phase
    rw [hp] at lives fits
    obtain ⟨rfl, version, -⟩ := fits
    have known : batch.version ≤ l.read := by
      have := inOrder.keeps.read_eq
      omega
    obtain ⟨d', q', acked, holds, -⟩ := (inOrder.keeps.holds lives).ack known
    refine ⟨d', q', acked, ?_⟩
    rw [inOrder.keeps.stores.lastAck]
    exact holds.acked

end Orderly

end Background

end Outbox
