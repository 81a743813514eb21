import Outbox.Proofs.Delivery.Attempts
import Outbox.Proofs.Delivery.Waiting

/-!
# Reports that delivery lags

Whoever enqueues an operation looks whether delivery lags or makes no progress, and reports each once until
something is acknowledged. From one acknowledgement to the next is an episode.

* `Watch` are the words that a check reads and writes, and `Watch.Event` what changes them; `event?` tells
  which of these a section is, and `watch_after` that nothing else matters;
* `Watch.Follows` is the invariant of an episode, `Watch.Follows.after` its step lemma and
  `Watch.Follows.run` the run lemma;
* `Callers.reportsOnce` is the result, for any number of calls beside the consumer and everything else.
-/

namespace Outbox

/-! ## What a check reads and writes -/

/-- The words on how delivery goes on, the thresholds, and how often each report was made. -/
structure Watch where
  lagThreshold : Nat
  noProgressThreshold : Nat
  lastAckTime : Nat
  lastBackoff : Option Nat
  lagReported : Bool
  noProgressReported : Bool
  lagReports : Nat
  noProgressReports : Nat

namespace Watch

/-- What changes these words, with the time that was read. -/
inductive Event where
  | acknowledged (now : Nat)
  /-- The consumer begins to wait for another attempt. -/
  | backedOff (now : Nat)
  /-- An enqueued operation is followed by a look at the words. -/
  | checked (now : Nat)
deriving DecidableEq

namespace Event

/-- Whether an event ends an episode. -/
def isAcknowledged : Event → Bool
  | .acknowledged _ => true
  | _ => false

/-- When something was acknowledged. -/
def ackTime? : Event → Option Nat
  | .acknowledged now => some now
  | _ => none

/-- When the consumer began to wait. -/
def backoffTime? : Event → Option Nat
  | .backedOff now => some now
  | _ => none

end Event

/-- The times at which the consumer began to wait. -/
def backoffs (events : List Event) : List Nat :=
  events.filterMap Event.backoffTime?

/-- When something was acknowledged last, or the execution began. -/
def lastAcknowledged (created : Nat) (events : List Event) : Nat :=
  (events.filterMap Event.ackTime?).getLast?.getD created

/-- Whether a check reports that delivery lags. -/
def lags (w : Watch) (now : Nat) : Bool :=
  !w.lagReported && decide (w.lagThreshold < now - w.lastAckTime)

/-- Whether a check reports that there is no progress. -/
def stalls (w : Watch) (now : Nat) : Bool :=
  w.lastBackoff.any (w.lastAckTime ≤ ·) && !w.noProgressReported &&
    decide (w.noProgressThreshold < now - w.lastAckTime)

/-- The words after an event. -/
def after (w : Watch) : Event → Watch
  | .acknowledged now => { w with lastAckTime := now, lagReported := false, noProgressReported := false }
  | .backedOff now => { w with lastBackoff := some now }
  | .checked now =>
    { w with
      lagReported := w.lagReported || w.lags now
      noProgressReported := w.noProgressReported || w.stalls now
      lagReports := w.lagReports + (w.lags now).toNat
      noProgressReports := w.noProgressReports + (w.stalls now).toNat }

/-- The words after some events. -/
def run (w : Watch) (events : List Event) : Watch :=
  events.foldl after w

/-! ## Episodes -/

/-- A check among these events finds that nothing was acknowledged for too long. -/
def LagsIn (threshold since : Nat) (events : List Event) : Prop :=
  ∃ now, .checked now ∈ events ∧ since + threshold < now

/-- So does one that comes behind an attempt which failed since then. -/
def StallsIn (threshold since : Nat) (past events : List Event) : Prop :=
  ∃ first now second, events = first ++ .checked now :: second ∧ since + threshold < now ∧
    ∃ time ∈ backoffs (past ++ first), since ≤ time

/-- A count goes up by one if something is so, and stays if it is not. -/
def CountsOnce (before after : Nat) (P : Prop) : Prop :=
  P ∧ after = before + 1 ∨ ¬ P ∧ after = before

theorem lagsIn_snoc {threshold since : Nat} {events : List Event} {e : Event} :
    LagsIn threshold since (events ++ [e]) ↔
      LagsIn threshold since events ∨ ∃ now, e = .checked now ∧ since + threshold < now := by
  simp only [LagsIn, List.mem_append, List.mem_singleton, or_and_right, exists_or, eq_comm]

theorem stallsIn_snoc {threshold since : Nat} {past events : List Event} {e : Event} :
    StallsIn threshold since past (events ++ [e]) ↔
      StallsIn threshold since past events ∨ ∃ now, e = .checked now ∧ since + threshold < now ∧
        ∃ time ∈ backoffs (past ++ events), since ≤ time := by
  constructor
  · rintro ⟨first, now, second, split, late, failed⟩
    rcases List.eq_nil_or_concat second with rfl | ⟨second, last, rfl⟩
    · obtain ⟨rfl, same⟩ := List.append_inj' split rfl
      exact .inr ⟨now, List.singleton_inj.1 same, late, failed⟩
    · rw [List.concat_eq_append, ← List.cons_append, ← List.append_assoc] at split
      exact .inl ⟨first, now, second, (List.append_inj' split rfl).1, late, failed⟩
  · rintro (⟨first, now, second, rfl, late, failed⟩ | ⟨now, rfl, late, failed⟩)
    · exact ⟨first, now, second ++ [e], by rw [List.append_assoc]; rfl, late, failed⟩
    · exact ⟨events, now, [], rfl, late, failed⟩

/-- The last of some times that do not decrease is the latest. -/
theorem any_getLast?_iff {times : List Nat} (order : times.Pairwise (· ≤ ·)) (since : Nat) :
    times.getLast?.any (since ≤ ·) = true ↔ ∃ time ∈ times, since ≤ time := by
  rcases List.eq_nil_or_concat times with rfl | ⟨times, last, rfl⟩
  · simp
  · rw [List.concat_eq_append] at order ⊢
    rw [List.getLast?_concat, Option.any_some, decide_eq_true_eq]
    refine ⟨fun late => ⟨last, List.mem_append_right _ List.mem_cons_self, late⟩, ?_⟩
    rintro ⟨time, member, late⟩
    rcases List.mem_append.1 member with before | here
    · exact Nat.le_trans late ((List.pairwise_append.1 order).2.2 time before last List.mem_cons_self)
    · rwa [List.mem_singleton.1 here] at late

/-- What was reported once is not reported again. -/
theorem reported_or {reported reports : Bool} {P Q : Prop} (before : reported = true ↔ P)
    (here : reports = true ↔ ¬ P ∧ Q) :
    ((reported || reports) = true ↔ P ∨ Q) ∧
      (reported || reports).toNat = reported.toNat + reports.toNat := by
  rw [Bool.or_eq_true, before, here]
  refine ⟨⟨Or.imp_right And.right, fun h => ?_⟩, ?_⟩
  · exact Classical.or_iff_not_imp_left.2 fun new => ⟨new, h.resolve_left new⟩
  · cases reports with
    | false => rw [Bool.or_false, Bool.toNat_false, Nat.add_zero]
    | true =>
      have new : reported = false := Bool.eq_false_iff.2 fun already => (here.1 rfl).1 (before.1 already)
      rw [new]
      rfl

variable {w₀ w₁ w : Watch} {past events rest : List Event}

theorem backoffs_append (events rest : List Event) :
    backoffs (events ++ rest) = backoffs events ++ backoffs rest :=
  List.filterMap_append

theorem lastAcknowledged_snoc (created : Nat) (events : List Event) (e : Event) :
    lastAcknowledged created (events ++ [e]) = e.ackTime?.getD (lastAcknowledged created events) := by
  unfold lastAcknowledged
  rw [List.filterMap_append]
  cases e <;> simp [Event.ackTime?]

theorem getLast?_backoffs_snoc (events : List Event) (e : Event) :
    (backoffs (events ++ [e])).getLast? = e.backoffTime?.or (backoffs events).getLast? := by
  rw [backoffs_append]
  cases e <;> simp [backoffs, Event.backoffTime?]

/-- What the words say of all that happened since the execution began. -/
structure Recalls (w₀ : Watch) (events : List Event) (w : Watch) : Prop where
  lagThreshold : w.lagThreshold = w₀.lagThreshold
  noProgressThreshold : w.noProgressThreshold = w₀.noProgressThreshold
  lastAckTime : w.lastAckTime = lastAcknowledged w₀.lastAckTime events
  lastBackoff : w.lastBackoff = (backoffs events).getLast?

theorem Recalls.after (h : Recalls w₀ events w) (e : Event) : Recalls w₀ (events ++ [e]) (w.after e) where
  lagThreshold := by cases e <;> exact h.lagThreshold
  noProgressThreshold := by cases e <;> exact h.noProgressThreshold
  lastAckTime := by
    rw [lastAcknowledged_snoc, ← h.lastAckTime]
    cases e <;> rfl
  lastBackoff := by
    rw [getLast?_backoffs_snoc, ← h.lastBackoff]
    cases e <;> rfl

theorem Recalls.run (h : Recalls w₀ past w) : Recalls w₀ (past ++ rest) (w.run rest) := by
  induction rest generalizing past w with
  | nil => rwa [List.append_nil]
  | cons e rest ih =>
    rw [List.append_cons]
    exact ih (h.after e)

/-- What the words say in an episode that began with `w₁` after `past`. -/
structure Follows (w₀ w₁ : Watch) (past events : List Event) (w : Watch) : Prop
    extends Recalls w₀ (past ++ events) w where
  same : lastAcknowledged w₀.lastAckTime (past ++ events) = lastAcknowledged w₀.lastAckTime past
  lagReported : w.lagReported = true ↔
    LagsIn w₀.lagThreshold (lastAcknowledged w₀.lastAckTime past) events
  noProgressReported : w.noProgressReported = true ↔
    StallsIn w₀.noProgressThreshold (lastAcknowledged w₀.lastAckTime past) past events
  lagReports : w.lagReports = w₁.lagReports + w.lagReported.toNat
  noProgressReports : w.noProgressReports = w₁.noProgressReports + w.noProgressReported.toNat

/-- A check reports that delivery lags just if it does, and none did so before. -/
theorem Follows.lags_iff (h : Follows w₀ w₁ past events w) (now : Nat) :
    w.lags now = true ↔ ¬ LagsIn w₀.lagThreshold (lastAcknowledged w₀.lastAckTime past) events ∧
      lastAcknowledged w₀.lastAckTime past + w₀.lagThreshold < now := by
  rw [lags, Bool.and_eq_true, Bool.not_eq_true', ← Bool.not_eq_true, h.lagReported, decide_eq_true_eq,
    h.lagThreshold, h.lastAckTime, h.same]
  exact and_congr_right' (by omega)

/-- So it is with a lack of progress. -/
theorem Follows.stalls_iff (h : Follows w₀ w₁ past events w)
    (order : (backoffs (past ++ events)).Pairwise (· ≤ ·)) (now : Nat) :
    w.stalls now = true ↔
      ¬ StallsIn w₀.noProgressThreshold (lastAcknowledged w₀.lastAckTime past) past events ∧
        lastAcknowledged w₀.lastAckTime past + w₀.noProgressThreshold < now ∧
        ∃ time ∈ backoffs (past ++ events), lastAcknowledged w₀.lastAckTime past ≤ time := by
  rw [stalls, Bool.and_eq_true, Bool.and_eq_true, Bool.not_eq_true', ← Bool.not_eq_true,
    h.noProgressReported, decide_eq_true_eq, h.noProgressThreshold, h.lastAckTime, h.same, h.lastBackoff,
    any_getLast?_iff order]
  constructor
  · rintro ⟨⟨failed, new⟩, late⟩
    exact ⟨new, by omega, failed⟩
  · rintro ⟨new, late, failed⟩
    exact ⟨⟨failed, new⟩, by omega⟩

/-- **An event in an episode.** -/
theorem Follows.after (h : Follows w₀ w₁ past events w) {e : Event} (lasts : e.isAcknowledged = false)
    (order : (backoffs (past ++ events)).Pairwise (· ≤ ·)) :
    Follows w₀ w₁ past (events ++ [e]) (w.after e) := by
  have recalls : Recalls w₀ (past ++ (events ++ [e])) (w.after e) := by
    rw [← List.append_assoc]
    exact h.toRecalls.after e
  have same : lastAcknowledged w₀.lastAckTime (past ++ (events ++ [e])) =
      lastAcknowledged w₀.lastAckTime past := by
    rw [← List.append_assoc, lastAcknowledged_snoc, ← h.same]
    cases e with
    | acknowledged now => cases lasts
    | backedOff | checked => rfl
  cases e with
  | acknowledged now => cases lasts
  | backedOff now =>
    refine ⟨recalls, same, ?_, ?_, h.lagReports, h.noProgressReports⟩
    · rw [lagsIn_snoc]
      simpa only [Watch.after, reduceCtorEq, false_and, exists_false, or_false] using h.lagReported
    · rw [stallsIn_snoc]
      simpa only [Watch.after, reduceCtorEq, false_and, exists_false, or_false] using h.noProgressReported
  | checked now =>
    obtain ⟨lagReported, lagReports⟩ := reported_or h.lagReported (h.lags_iff now)
    obtain ⟨noProgressReported, noProgressReports⟩ :=
      reported_or h.noProgressReported (h.stalls_iff order now)
    refine ⟨recalls, same, ?_, ?_, ?_, ?_⟩
    · rw [lagsIn_snoc]
      simpa only [Watch.after, Event.checked.injEq, exists_eq_left'] using lagReported
    · rw [stallsIn_snoc]
      simpa only [Watch.after, Event.checked.injEq, exists_eq_left'] using noProgressReported
    · show w.lagReports + _ = _ + (w.lagReported || w.lags now).toNat
      rw [lagReports, h.lagReports, Nat.add_assoc]
    · show w.noProgressReports + _ = _ + (w.noProgressReported || w.stalls now).toNat
      rw [noProgressReports, h.noProgressReports, Nat.add_assoc]

/-- **The course of an episode.** -/
theorem Follows.run (h : Follows w₀ w₁ past events w) (lasts : ∀ e ∈ rest, e.isAcknowledged = false)
    (order : (backoffs (past ++ (events ++ rest))).Pairwise (· ≤ ·)) :
    Follows w₀ w₁ past (events ++ rest) (w.run rest) := by
  induction rest generalizing events w with
  | nil => rwa [List.append_nil]
  | cons e rest ih =>
    obtain ⟨first, lasts⟩ := List.forall_mem_cons.1 lasts
    have before : (backoffs (past ++ events)).Pairwise (· ≤ ·) := by
      rw [← List.append_assoc, backoffs_append] at order
      exact (List.pairwise_append.1 order).1
    rw [List.append_cons] at order ⊢
    exact ih (h.after first before) lasts order

/-- A count that goes up with a flag. -/
theorem countsOnce_of_flag {reported : Bool} {P : Prop} {before after : Nat} (told : reported = true ↔ P)
    (count : after = before + reported.toNat) : CountsOnce before after P := by
  cases reported with
  | false => exact .inr ⟨fun so => Bool.false_ne_true (told.2 so), count⟩
  | true => exact .inl ⟨told.1 rfl, count⟩

/-- Only a check reports that delivery lags. -/
theorem checked_of_lagReports (e? : Option Event) (more : (e?.elim w w.after).lagReports ≠ w.lagReports) :
    ∃ now, e? = some (.checked now) ∧ w.lags now = true := by
  cases e? with
  | none => exact absurd rfl more
  | some e =>
    cases e with
    | acknowledged | backedOff => exact absurd rfl more
    | checked now =>
      cases lags : w.lags now with
      | true => exact ⟨now, rfl, lags⟩
      | false => exact absurd (by simp [Watch.after, lags]) more

/-- Only a check reports that there is no progress. -/
theorem checked_of_noProgressReports (e? : Option Event)
    (more : (e?.elim w w.after).noProgressReports ≠ w.noProgressReports) :
    ∃ now, e? = some (.checked now) ∧ w.stalls now = true := by
  cases e? with
  | none => exact absurd rfl more
  | some e =>
    cases e with
    | acknowledged | backedOff => exact absurd rfl more
    | checked now =>
      cases stalls : w.stalls now with
      | true => exact ⟨now, rfl, stalls⟩
      | false => exact absurd (by simp [Watch.after, stalls]) more

theorem run_append (w : Watch) (events rest : List Event) : w.run (events ++ rest) = (w.run events).run rest :=
  List.foldl_append

/-- At the beginning, and behind an acknowledgement, nothing is reported yet. -/
theorem not_reported_run (h : w₀.lagReported = false ∧ w₀.noProgressReported = false)
    (begins : ∀ e ∈ past.getLast?, e.isAcknowledged = true) :
    (w₀.run past).lagReported = false ∧ (w₀.run past).noProgressReported = false := by
  rcases List.eq_nil_or_concat past with rfl | ⟨front, last, rfl⟩
  · exact h
  · rw [List.concat_eq_append] at begins ⊢
    have acknowledged := begins last List.getLast?_concat
    rw [run_append]
    cases last with
    | acknowledged now => exact ⟨rfl, rfl⟩
    | backedOff | checked => cases acknowledged

/-- **An episode from its beginning.** -/
theorem follows_run (fresh : w₀.lagReported = false ∧ w₀.noProgressReported = false)
    (none_failed : w₀.lastBackoff = none) (begins : ∀ e ∈ past.getLast?, e.isAcknowledged = true)
    (lasts : ∀ e ∈ events, e.isAcknowledged = false)
    (order : (backoffs (past ++ events)).Pairwise (· ≤ ·)) :
    Follows w₀ (w₀.run past) past events ((w₀.run past).run events) := by
  obtain ⟨lag, noProgress⟩ := not_reported_run fresh begins
  have nothing : Recalls w₀ [] w₀ := ⟨rfl, rfl, rfl, none_failed⟩
  have recalls : Recalls w₀ past (w₀.run past) := nothing.run
  have start : Follows w₀ (w₀.run past) past [] (w₀.run past) := by
    refine ⟨?_, ?_, ?_, ?_, ?_, ?_⟩
    · rwa [List.append_nil]
    · rw [List.append_nil]
    · simp [lag, LagsIn]
    · simp [noProgress, StallsIn]
    · rw [lag]
      rfl
    · rw [noProgress]
      rfl
  exact start.run lasts order

end Watch

/-- Whether the consumer waits for another attempt. -/
def Phase.isBackingOff : Phase → Bool
  | .backingOff _ _ => true
  | _ => false

namespace Background

variable {σ : Type}

/-- The words in the state of everything. -/
def watch (p : Background σ) : Watch :=
  ⟨p.settings.lagThreshold, p.settings.noProgressThreshold, p.control.lastAckTime, p.control.lastBackoff,
    p.control.lagReported, p.control.noProgressReported, p.lagReports, p.noProgressReports⟩

/-- The event that a section is, if it is one. -/
def event? (b : Backend σ) (p : Background σ) : Section σ → Option Watch.Event
  | .checkProgress now => some (.checked now)
  | .consumer now =>
    match p.turn? (.consumer now) with
    | none => none
    | some (.publishing _) => some (.acknowledged now)
    | some _ => if (p.step b now).consumer.phase.isBackingOff then some (.backedOff now) else none
  | _ => none

variable {b : Backend σ} {p : Background σ}

theorem watch_notify : p.notify.watch = p.watch := by
  unfold notify
  split <;> rfl

/-- The consumer notes the time just if it begins to wait. -/
def Backs (now : Nat) (p p' : Background σ) : Prop :=
  p'.watch = if p'.consumer.phase.isBackingOff then p.watch.after (.backedOff now) else p.watch

theorem backs_retry (now retries : Nat) (next : Nat → Attempt) :
    p.Backs now (p.retry now retries next) := by
  unfold retry
  split <;> rfl

theorem backs_takeUp (now retries : Nat) (r : Except DeliveryError (Option Batch)) :
    p.Backs now (p.takeUp now retries r) := by
  unfold takeUp
  split
  · rfl
  · split <;> rfl
  · split
    · exact backs_retry now retries .collect
    · rfl
  · rfl

theorem backs_answerSection (now : Nat) (batch : Batch) (retries : Nat) :
    p.Backs now (p.answerSection b now batch retries) := by
  unfold answerSection
  split
  · rfl
  · split
    · exact backs_retry (p := { p with backend := _ }) now retries (.send batch)
    · rfl

theorem backs_wakeSection (now : Nat) : p.Backs now p.wakeSection := by
  unfold wakeSection
  dsimp only
  split <;> rfl

/-- A turn of the consumer other than the one that tells what was delivered. -/
theorem backs_step {now : Nat} (ready : p.readiness now = .ready)
    (other : ∀ version, p.consumer.phase ≠ .publishing version) : p.Backs now (p.step b now) := by
  unfold step
  rw [ready]
  cases phase : p.consumer.phase with
  | publishing version => exact absurd phase (other version)
  | absent | ended => simp [readiness, phase] at ready
  | ending | sending => rfl
  | collecting retries =>
    exact backs_takeUp (p := p.withCollected (p.collectNext b)) now retries (p.collectNext b).result
  | awaiting batch retries _ => exact backs_answerSection now batch retries
  | sleeping => exact backs_wakeSection now
  | starting =>
    show p.Backs now ((p.flushIfDue now).goTo (.checking 0))
    unfold flushIfDue
    split <;> rfl
  | checking retries =>
    show p.Backs now (p.check retries)
    unfold check
    split
    · rfl
    · split <;> rfl
  | acknowledging batch =>
    show p.Backs now (p.ackSection batch)
    unfold ackSection
    split <;> rfl
  | backingOff _ next =>
    show p.Backs now (if _ then _ else _)
    split
    · rfl
    · cases next <;> rfl
  | resting =>
    show p.Backs now (p.restSection now)
    unfold restSection
    split
    · rfl
    · split
      · exact backs_wakeSection now
      · rfl

/-- **Events are all that changes the words.** -/
theorem watch_after (b : Backend σ) (p : Background σ) (s : Section σ) :
    (p.after b s).watch = (p.event? b s).elim p.watch p.watch.after := by
  cases s with
  | consumer now =>
    show (p.step b now).watch = _
    by_cases ready : p.readiness now = .ready
    · simp only [event?, turn?_of_ready ready]
      split
      · next none_there => cases none_there
      · next version turn =>
        have phase : p.consumer.phase = .publishing version := Option.some.inj turn
        simp only [step, ready, phase]
        rfl
      · next other turn =>
        have phase : p.consumer.phase = _ := Option.some.inj turn
        rw [backs_step ready fun version same => other version (phase ▸ same)]
        split <;> rfl
    · obtain ⟨no_turn, same⟩ := waits_of_not_ready (b := b) ready
      simp only [event?, no_turn, same, Option.elim_none]
  | put wall op =>
    show (p.putSection wall op).1.watch = _
    unfold putSection
    split <;> rfl
  | publish version overflowing =>
    show (if _ then _ else _ : Background σ).watch = _
    split
    · exact watch_notify
    · rfl
  | start now =>
    show (p.start now).watch = _
    unfold start
    split <;> rfl
  | cleanUp =>
    show p.cleanUp.1.watch = _
    rcases cleanUp_cases p with same | same <;> rw [same] <;> rfl
  | wake | notify | resume | askToStop | interrupt | markStopped => exact watch_notify
  | checkProgress | flush | suspend | close | service | disk => rfl

/-- The words at the beginning of an execution. -/
theorem watch_create {d d' : Disk} {s : σ} {c : Container} {settings : BackgroundSettings}
    {wall process now : Nat} (created : create d s c settings wall process now = (d', .ok p)) :
    p.watch = ⟨settings.lagThreshold, settings.noProgressThreshold, now, none, false, false, 0, 0⟩ := by
  unfold create at created
  split at created
  · cases created
  · split at created
    · cases created
    · split at created
      · cases created
      · cases created
        rfl

/-- The words after the next section of a call. -/
theorem watch_callStep (p : Background σ) (pt : CallPoint) :
    (p.callStep pt).1.watch = match pt with
      | .told now _ => p.watch.after (.checked now)
      | _ => p.watch := by
  have put (wall : Nat) (op : Operation) : (p.putSection wall op).1.watch = p.watch := by
    unfold putSection
    split <;> rfl
  cases pt with
  | enqueuing =>
    simp only [callStep]
    split <;> rfl
  | accepted wall now op =>
    have here := put wall op
    rcases section_of : p.putSection wall op with ⟨p', e | ⟨version, overflowing⟩⟩ <;>
      simpa only [callStep, section_of] using here
  | stored now version overflowing =>
    show (if _ then _ else _ : Background σ).watch = _
    split
    · exact watch_notify
    · rfl
  | flushed => exact watch_notify
  | told | enqueued | refused | waiting | woken | awaiting | delivered => rfl

end Background

namespace Callers

variable {σ : Type}

/-- The event that a move is, if it is one. A call that enqueues an operation looks at the words behind the
section in which the version is told. -/
def event? (b : Backend σ) (t : Callers σ) : CallMove σ → Option Watch.Event
  | .beside s => t.system.event? b s
  | .call i =>
    match t.calls[i]? with
    | some (.told now _) => some (.checked now)
    | _ => none
  | _ => none

/-- The events among some moves. -/
def events (b : Backend σ) (t : Callers σ) : List (CallMove σ) → List Watch.Event
  | [] => []
  | m :: moves => (t.event? b m).toList ++ events b (t.after b m) moves

variable {b : Backend σ} {t : Callers σ}

theorem watch_after (m : CallMove σ) :
    (t.after b m).system.watch = (t.event? b m).elim t.system.watch t.system.watch.after := by
  cases m with
  | beside s => exact Background.watch_after b t.system s
  | enqueue | wait => rfl
  | call i =>
    cases found : t.calls[i]? with
    | none => simp only [after, event?, found, Option.elim_none]
    | some pt =>
      have here := t.system.watch_callStep pt
      simp only [after, event?, found]
      cases pt <;> exact here

/-- **The words are told from the events.** -/
theorem watch_run (moves : List (CallMove σ)) :
    (t.run b moves).system.watch = t.system.watch.run (t.events b moves) := by
  induction moves generalizing t with
  | nil => rfl
  | cons m moves ih =>
    show ((t.after b m).run b moves).system.watch = t.system.watch.run ((t.event? b m).toList ++ _)
    rw [ih, watch_after]
    cases t.event? b m <;> rfl

theorem events_append (front back : List (CallMove σ)) :
    t.events b (front ++ back) = t.events b front ++ (t.run b front).events b back := by
  induction front generalizing t with
  | nil => rfl
  | cons m front ih =>
    show (t.event? b m).toList ++ (t.after b m).events b (front ++ back) =
      ((t.event? b m).toList ++ (t.after b m).events b front) ++ _
    rw [ih, List.append_assoc]
    rfl

variable (b : Backend σ) (settings : BackgroundSettings) (created : Nat) (t : Callers σ)

/-- When something was acknowledged last, or the execution began. -/
def lastAcknowledged (moves : List (CallMove σ)) : Nat :=
  Watch.lastAcknowledged created (t.events b moves)

/-- A check among the last moves finds that nothing was acknowledged for longer than the threshold. -/
def Lags (front stretch : List (CallMove σ)) : Prop :=
  Watch.LagsIn settings.lagThreshold (t.lastAcknowledged b created front) ((t.run b front).events b stretch)

/-- A check among the last moves finds that nothing was acknowledged for longer than the threshold, and that
an attempt failed since then. -/
def Stalls (front stretch : List (CallMove σ)) : Prop :=
  Watch.StallsIn settings.noProgressThreshold (t.lastAcknowledged b created front) (t.events b front)
    ((t.run b front).events b stretch)

/-- What is promised of the reports in an episode that begins behind `front`. Each is made once if a check
finds a reason to, and not otherwise; and it is made by the first check that does. -/
structure ReportsOnce (front stretch : List (CallMove σ)) : Prop where
  lag : Watch.CountsOnce (t.run b front).system.lagReports
    (t.run b (front ++ stretch)).system.lagReports (t.Lags b settings created front stretch)
  noProgress : Watch.CountsOnce (t.run b front).system.noProgressReports
    (t.run b (front ++ stretch)).system.noProgressReports (t.Stalls b settings created front stretch)
  lagAt : ∀ m, ((t.run b (front ++ stretch)).after b m).system.lagReports ≠
      (t.run b (front ++ stretch)).system.lagReports →
    ∃ now, (t.run b (front ++ stretch)).event? b m = some (.checked now) ∧
      t.lastAcknowledged b created front + settings.lagThreshold < now ∧
      ¬ t.Lags b settings created front stretch
  noProgressAt : ∀ m, ((t.run b (front ++ stretch)).after b m).system.noProgressReports ≠
      (t.run b (front ++ stretch)).system.noProgressReports →
    ∃ now, (t.run b (front ++ stretch)).event? b m = some (.checked now) ∧
      t.lastAcknowledged b created front + settings.noProgressThreshold < now ∧
      (∃ time ∈ Watch.backoffs (t.events b (front ++ stretch)),
        t.lastAcknowledged b created front ≤ time) ∧
      ¬ t.Stalls b settings created front stretch

/-- **Reports are made once in an episode**, however many calls there are, whatever the consumer and all others
do, and whatever the service answers. An episode begins with the execution or behind an acknowledgement and
lasts until the next one. Of the times that are read, only those at which the consumer began to wait must not
decrease. -/
theorem reportsOnce {d d' : Disk} {s : σ} {c : Container} {wall process : Nat} {p : Background σ}
    (made : Background.create d s c settings wall process created = (d', .ok p))
    {front stretch : List (CallMove σ)}
    (begins : ∀ e ∈ ((Callers.mk p []).events b front).getLast?, e.isAcknowledged = true)
    (lasts : ∀ e ∈ ((Callers.mk p []).run b front).events b stretch, e.isAcknowledged = false)
    (clock : (Watch.backoffs ((Callers.mk p []).events b (front ++ stretch))).Pairwise (· ≤ ·)) :
    (Callers.mk p []).ReportsOnce b settings created front stretch := by
  have fresh := Background.watch_create made
  have before : ((Callers.mk p []).run b front).system.watch =
      p.watch.run ((Callers.mk p []).events b front) := watch_run front
  have after : ((Callers.mk p []).run b (front ++ stretch)).system.watch =
      ((Callers.mk p []).run b front).system.watch.run (((Callers.mk p []).run b front).events b stretch) := by
    rw [run_append, watch_run]
  have order := clock
  rw [events_append] at order
  have unreported : p.watch.lagReported = false ∧ p.watch.noProgressReported = false := by
    rw [fresh]
    exact ⟨rfl, rfl⟩
  have follows := Watch.follows_run unreported (by rw [fresh]) begins lasts order
  rw [← before, ← after, fresh] at follows
  refine ⟨Watch.countsOnce_of_flag follows.lagReported follows.lagReports,
    Watch.countsOnce_of_flag follows.noProgressReported follows.noProgressReports, fun m more => ?_,
    fun m more => ?_⟩
  · obtain ⟨now, checked, lags⟩ := Watch.checked_of_lagReports (event? b _ m) fun same =>
      more ((congrArg Watch.lagReports (watch_after m)).trans same)
    obtain ⟨new, late⟩ := (follows.lags_iff now).1 lags
    exact ⟨now, checked, late, new⟩
  · obtain ⟨now, checked, stalls⟩ := Watch.checked_of_noProgressReports (event? b _ m) fun same =>
      more ((congrArg Watch.noProgressReports (watch_after m)).trans same)
    obtain ⟨new, late, failed⟩ := (follows.stalls_iff order now).1 stalls
    rw [events_append]
    exact ⟨now, checked, late, failed, new⟩

open Background in
/-- An attempt to send the first operation fails, and two more are enqueued late. -/
def failAndEnqueue : List (CallMove Nat) :=
  [.beside (.start 0), .enqueue 5 0 (forget "a")] ++ List.replicate 4 (.call 0) ++
    [0, 0, 0, 0, 3000000].map (.beside <| .consumer ·) ++
    [.enqueue 6 4000000 (forget "b"), .enqueue 7 5000000 (forget "c")] ++
    [1, 1, 2, 2, 2, 2, 1, 1].map .call

/-- The second attempt does not fail, and is acknowledged. -/
def sendAgain : List (CallMove Nat) :=
  [5000000, 5000000, 8000000, 8000000, 8000000].map (.beside <| .consumer ·)

open Background in
/-- One more operation is enqueued soon, and another one late. -/
def enqueueLate : List (CallMove Nat) :=
  [.enqueue 8 8000900 (forget "d"), .enqueue 9 8002000 (forget "e")] ++
    [3, 3, 3, 3, 4, 4, 4, 4].map .call

open Background in
/-- Both reports are made in the first episode, by one check of three. In the second one, in which no attempt
fails, delivery lags again. -/
theorem reportsOnce_twoEpisodes :
    ∃ d' p, create Disk.empty 0 ⟨"RUN-1", .run⟩ shortSettings 5 1 0 = (d', .ok p) ∧
      (Callers.mk p []).ReportsOnce secondAttempt shortSettings 0 [] failAndEnqueue ∧
      (Callers.mk p []).ReportsOnce secondAttempt shortSettings 0 (failAndEnqueue ++ sendAgain) enqueueLate ∧
      ((Callers.mk p []).run secondAttempt (failAndEnqueue ++ sendAgain)).system.noProgressReports = 1 ∧
      ((Callers.mk p []).run secondAttempt (failAndEnqueue ++ sendAgain ++ enqueueLate)).system.lagReports = 2 := by
  have facts : (create Disk.empty 0 ⟨"RUN-1", .run⟩ shortSettings 5 1 0).2.toOption.map (fun p =>
      ((Callers.mk p []).events secondAttempt failAndEnqueue,
        (Callers.mk p []).events secondAttempt (failAndEnqueue ++ sendAgain),
        ((Callers.mk p []).run secondAttempt (failAndEnqueue ++ sendAgain)).events secondAttempt enqueueLate,
        ((Callers.mk p []).run secondAttempt (failAndEnqueue ++ sendAgain)).system.noProgressReports,
        ((Callers.mk p []).run secondAttempt
          (failAndEnqueue ++ sendAgain ++ enqueueLate)).system.lagReports)) =
      some ([.checked 0, .backedOff 3000000, .checked 5000000, .checked 4000000],
        [.checked 0, .backedOff 3000000, .checked 5000000, .checked 4000000, .acknowledged 8000000],
        [.checked 8000900, .checked 8002000], 1, 2) := by decide +kernel
  obtain ⟨d', p, made, facts⟩ := exists_created facts
  simp only [Prod.mk.injEq] at facts
  obtain ⟨first, past, second, noProgress, lag⟩ := facts
  refine ⟨d', p, made, reportsOnce _ _ _ made ?_ ?_ ?_, reportsOnce _ _ _ made ?_ ?_ ?_, noProgress, lag⟩
  · exact fun e last => by cases last
  · show ∀ e ∈ (Callers.mk p []).events secondAttempt failAndEnqueue, e.isAcknowledged = false
    rw [first]
    decide
  · rw [List.nil_append, first]
    decide
  · rw [past]
    decide
  · rw [second]
    decide
  · rw [events_append, past, second]
    decide

end Callers

end Outbox
