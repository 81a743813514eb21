import Mathlib.Data.List.DropRight
import Outbox.Proofs.Delivery.Sending

/-!
# How often the consumer tries again

A service that is not reached is asked again, and only so often. There are two counts: one of the requests
with a batch, which ends with the batch, and one of the calls to collect a batch, which begins anew whenever
a batch is collected.

* `inARow` is the number of calls that failed in a row, and `Phase.Counts` says that the consumer knows it;
* `Counting.after` keeps this through any section, as long as there is no pause, and `Counting.run` through
  any number of them;
* `Background.CollectsSoOften` says at which call the consumer gives up;
* `Background.triesSoOften` is the result.
-/

namespace Outbox

/-! ## Calls that fail in a row -/

/-- How many calls to collect a batch failed before the one that the consumer makes next. -/
def Phase.failures : Phase → Nat
  | .checking retries => retries
  | .collecting retries => retries
  | .backingOff _ (.collect retries) => retries
  | _ => 0

/-- The consumer has counted the calls that failed in a row, or is at its end. -/
def Phase.Counts (maxRetries row : Nat) : Phase → Prop
  | .ending => row ≤ maxRetries + 1
  | .ended => row ≤ maxRetries + 1
  | ph => row = ph.failures ∧ row ≤ maxRetries

/-- How many calls to collect a batch failed in a row at the end, because the service was not reached. -/
def inARow (answers : List (Except DeliveryError (Option Batch))) : Nat :=
  (answers.rtakeWhile isUncollected).length

theorem inARow_concat (answers : List (Except DeliveryError (Option Batch)))
    (r : Except DeliveryError (Option Batch)) :
    inARow (answers ++ [r]) = if isUncollected r then inARow answers + 1 else 0 := by
  unfold inARow
  split
  · next missed => rw [List.rtakeWhile_concat_pos _ _ _ missed, List.length_append, List.length_singleton]
  · next other => rw [List.rtakeWhile_concat_neg _ _ _ other, List.length_nil]

namespace Phase.Counts

variable {maxRetries row : Nat} {ph ph' : Phase}

/-- Waking the consumer does not change the count. -/
theorem nudged (h : ph.Counts maxRetries row) (nudged : ph.Nudged ph') : ph'.Counts maxRetries row := by
  cases nudged with
  | same => exact h
  | woken => exact h

end Phase.Counts

namespace Background

variable {σ : Type} {b : Backend σ} {p q : Background σ} {maxRetries row : Nat}
  {answers : List (Except DeliveryError (Option Batch))}

/-- A call that fails is counted, and is the last one if there were enough. -/
theorem counts_retry (settings : p.settings.maxRetries = maxRetries) (few : row ≤ maxRetries) (now : Nat) :
    (p.retry now row .collect).consumer.phase.Counts maxRetries (row + 1) := by
  unfold retry
  split
  · exact Nat.succ_le_succ few
  · next less => exact ⟨rfl, by omega⟩

/-- A call that fails is made again. -/
theorem takeUp_of_missed {r : Except DeliveryError (Option Batch)} (missed : isUncollected r = true)
    (now retries : Nat) : p.takeUp now retries r = p.retry now retries .collect := by
  rcases r with e | r
  · cases e with
    | backend e =>
      have retryable : e.isRetryable = true := missed
      simp only [takeUp, retryable, if_true]
    | _ => cases missed
  · cases missed

/-- What follows from the answer to a call. -/
theorem counts_takeUp (settings : p.settings.maxRetries = maxRetries) (few : row ≤ maxRetries) (now : Nat)
    (r : Except DeliveryError (Option Batch)) :
    (p.takeUp now row r).consumer.phase.Counts maxRetries (if isUncollected r then row + 1 else 0) := by
  split
  · next missed =>
    rw [takeUp_of_missed missed]
    exact counts_retry settings few now
  · next other =>
    unfold takeUp
    split
    · exact ⟨rfl, Nat.zero_le _⟩
    · split <;> exact ⟨rfl, Nat.zero_le _⟩
    · next e =>
      have refused : ¬ e.isRetryable = true := other
      rw [if_neg refused]
      exact Nat.zero_le _
    · exact Nat.zero_le _

/-- The answer to a batch does not count. -/
theorem counts_answerSection (b : Backend σ) (p : Background σ) (now : Nat) (batch : Batch) (retries : Nat) :
    (p.answerSection b now batch retries).consumer.phase.Counts maxRetries 0 := by
  unfold answerSection
  split
  · exact ⟨rfl, Nat.zero_le _⟩
  · split
    · unfold retry
      split
      · exact Nat.zero_le _
      · exact ⟨rfl, Nat.zero_le _⟩
    · exact ⟨rfl, Nat.zero_le _⟩

theorem counts_wakeSection (p : Background σ) : p.wakeSection.consumer.phase.Counts maxRetries 0 := by
  unfold wakeSection
  dsimp only
  split
  · exact Nat.zero_le _
  · exact ⟨rfl, Nat.zero_le _⟩

/-- What else the consumer does, does not count, unless it sees that there is a pause. -/
theorem counts_step_beside (h : p.consumer.phase.Counts maxRetries row)
    (running : p.control.status ≠ .paused) (other : ∀ retries, p.consumer.phase ≠ .collecting retries)
    (b : Backend σ) (now : Nat) : (p.step b now).consumer.phase.Counts maxRetries row := by
  unfold step
  cases p.readiness now with
  | waits _ | gone => exact h
  | ready =>
    generalize phase : p.consumer.phase = ph at h other
    cases ph with
    | absent | ended =>
      show p.consumer.phase.Counts maxRetries row
      rw [phase]
      exact h
    | starting | publishing => exact h
    | sending batch retries => exact h
    | ending => exact h
    | collecting retries => exact absurd rfl (other retries)
    | checking retries =>
      show (p.check retries).consumer.phase.Counts maxRetries row
      unfold check
      split
      · exact Nat.le_add_right_of_le h.2
      · exact h
    | awaiting batch retries deadline =>
      obtain ⟨rfl, -⟩ := h
      exact counts_answerSection b p now batch retries
    | acknowledging batch =>
      show (p.ackSection batch).consumer.phase.Counts maxRetries row
      unfold ackSection
      split
      · exact h
      · exact Nat.le_add_right_of_le h.2
    | backingOff deadline next =>
      show (if _ then p.goTo .ending else p.goToAttempt next).consumer.phase.Counts maxRetries row
      split
      · exact Nat.le_add_right_of_le h.2
      · cases next <;> exact h
    | resting =>
      obtain ⟨rfl, -⟩ := h
      show (p.restSection now).consumer.phase.Counts maxRetries 0
      unfold restSection
      split
      · exact Nat.zero_le _
      · split
        · exact counts_wakeSection p
        · exact ⟨rfl, Nat.zero_le _⟩
    | sleeping deadline notified =>
      obtain ⟨rfl, -⟩ := h
      exact counts_wakeSection p

/-! ## Any section -/

/-- The consumer has counted, since some moment, the calls to collect a batch that failed in a row. -/
structure Counting (q : Background σ) (answers : List (Except DeliveryError (Option Batch)))
    (p : Background σ) : Prop where
  counts : p.consumer.phase.Counts q.settings.maxRetries (inARow answers)
  settings : p.settings = q.settings
  orderly : p.Orderly

namespace Counting

/-- A call is counted if it fails, and begins the count anew if it does not. -/
theorem collected (h : q.Counting answers p) {s : Section σ} {r : Except DeliveryError (Option Batch)}
    (collected : p.collected? b s = some r) :
    (p.after b s).consumer.phase.Counts q.settings.maxRetries (inARow (answers ++ [r])) := by
  obtain ⟨now, retries, -, phase, after_eq⟩ := collected?_eq_some collected
  have counts := h.counts
  rw [phase] at counts
  obtain ⟨row, few⟩ := counts
  obtain rfl : retries = inARow answers := row.symm
  have settings : (p.withCollected (p.collectNext b)).settings.maxRetries = q.settings.maxRetries :=
    congrArg BackgroundSettings.maxRetries h.settings
  rw [after_eq, inARow_concat]
  exact counts_takeUp settings few now r

/-- What else happens does not count. -/
theorem uncollected (h : q.Counting answers p) (running : p.control.status ≠ .paused) {s : Section σ}
    (permitted : p.Permits s) (uncollected : p.collected? b s = none) :
    (p.after b s).consumer.phase.Counts q.settings.maxRetries (inARow answers) := by
  by_cases consumer : ∃ now, s = .consumer now
  · obtain ⟨now, rfl⟩ := consumer
    refine counts_step_beside h.counts running (fun retries phase => ?_) b now
    simp [collected?, turn?, readiness, phase] at uncollected
  · have other : ∀ now, s ≠ .consumer now := fun now same => consumer ⟨now, same⟩
    by_cases idle : p.control.status = .idle
    · -- the consumer may be started
      by_cases start : ∃ now, s = .start now
      · obtain ⟨now, rfl⟩ := start
        have counts := h.counts
        rw [h.orderly.absent idle] at counts
        show (p.start now).consumer.phase.Counts _ _
        unfold start
        rw [if_pos idle]
        exact counts
      · have undisturbed := undisturbed_after b other (fun now same => absurd ⟨now, same⟩ start) permitted
        exact h.counts.nudged undisturbed.phase
    · exact h.counts.nudged (undisturbed_after b other (fun _ _ => idle) permitted).phase

/-- **Any section** while there is no pause. -/
theorem after (h : q.Counting answers p) (running : p.control.status ≠ .paused) {s : Section σ}
    (permitted : p.Permits s) : q.Counting (answers ++ (p.collected? b s).toList) (p.after b s) := by
  refine ⟨?_, (setUpAs_after b p s).settings.trans h.settings, h.orderly.after b permitted⟩
  cases call : p.collected? b s with
  | some r => exact h.collected call
  | none =>
    show (p.after b s).consumer.phase.Counts q.settings.maxRetries (inARow (answers ++ []))
    rw [List.append_nil]
    exact h.uncollected running permitted call

/-- **However many sections there are** while there is no pause. -/
theorem run (h : q.Counting answers p) {sections : List (Section σ)} (permitted : p.PermitsAll b sections)
    (running : p.Always b (fun p => p.control.status ≠ .paused) sections) :
    q.Counting (answers ++ p.collections b sections) (p.run b sections) := by
  induction sections generalizing p answers with
  | nil =>
    show q.Counting (answers ++ []) p
    rw [List.append_nil]
    exact h
  | cons s sections ih =>
    have on := ih (h.after running.1 permitted.1) permitted.2 running.2
    rw [List.append_assoc] at on
    exact on

end Counting

/-! ## When the consumer gives up -/

/-- What becomes of a call to collect a batch that fails because the service is not reached: it is the last
one if so many failed in a row, and not before. -/
structure CollectsSoOften (b : Backend σ) (q : Background σ) (sections : List (Section σ)) (s : Section σ) :
    Prop where
  bounded : inARow (q.collections b (sections ++ [s])) ≤ q.settings.maxRetries + 1
  givesUp : (q.run b (sections ++ [s])).consumer.phase = .ending ↔
    inARow (q.collections b (sections ++ [s])) = q.settings.maxRetries + 1
  /-- Otherwise there is another call after a pause. -/
  goesOn : inARow (q.collections b (sections ++ [s])) ≤ q.settings.maxRetries →
    ∃ deadline, (q.run b (sections ++ [s])).consumer.phase =
      .backingOff deadline (.collect (inARow (q.collections b (sections ++ [s]))))

/-- **The consumer counts the calls that fail in a row**, and gives up when there were enough. -/
theorem Counting.collectsSoOften (start : q.Counting [] q) {sections : List (Section σ)}
    (permitted : q.PermitsAll b sections)
    (running : q.Always b (fun p => p.control.status ≠ .paused) sections) {s : Section σ}
    {r : Except DeliveryError (Option Batch)} (call : (q.run b sections).collected? b s = some r)
    (missed : isUncollected r = true) : q.CollectsSoOften b sections s := by
  have counting := start.run permitted running
  rw [List.nil_append] at counting
  have counts := counting.counts
  obtain ⟨now, retries, -, phase, after_eq⟩ := collected?_eq_some call
  rw [phase] at counts
  obtain ⟨row, few⟩ := counts
  obtain rfl : retries = inARow (q.collections b sections) := row.symm
  have row : inARow (q.collections b (sections ++ [s])) = inARow (q.collections b sections) + 1 := by
    have log : q.collections b (sections ++ [s]) = q.collections b sections ++ [r] := by
      rw [collections, journal_append]
      show _ ++ (((q.run b sections).collected? b s).toList ++ []) = _
      rw [call]
      rfl
    rw [log, inARow_concat, if_pos missed]
  have ran : q.run b (sections ++ [s]) = (q.run b sections).after b s := run_append sections [s]
  rw [after_eq, takeUp_of_missed missed] at ran
  have settings : ((q.run b sections).withCollected ((q.run b sections).collectNext b)).settings =
      q.settings := counting.settings
  unfold retry at ran
  rw [settings] at ran
  by_cases last : q.settings.maxRetries ≤ inARow (q.collections b sections)
  · rw [if_pos last] at ran
    refine ⟨by omega, ?_, fun few => by omega⟩
    rw [ran]
    exact iff_of_true rfl (by omega)
  · rw [if_neg last] at ran
    refine ⟨by omega, ?_, fun _ => ?_⟩
    · rw [ran]
      exact iff_of_false nofun (by omega)
    · rw [ran, row]
      exact ⟨_, rfl⟩

/-! ## The result -/

/-- What is promised of an execution. -/
structure TriesSoOften (b : Backend σ) (p : Background σ) : Prop where
  /-- The number of attempts is the one that the execution was begun with. -/
  settings : ∀ sections, (p.run b sections).settings = p.settings
  /-- A batch that is collected is sent so often, if nobody interrupts the consumer. -/
  sends : ∀ {front sections : List (Section σ)} {s : Section σ} {batch : Batch}
    {script : Nat → Except BackendError Receipt}, p.PermitsAll b (front ++ s :: sections) →
    (p.run b front).collected? b s = some (.ok (some batch)) →
    ((p.run b front).after b s).Always b (fun q => q.control.interrupted = false) sections →
    (∀ i r, (((p.run b front).after b s).requests b sections)[i]? = some r → r.answer = script i) →
    ((p.run b front).after b s).SendsSoOften b batch script sections
  /-- A call to collect a batch is made so often, if there is no pause from when the count begins. -/
  collects : ∀ {front sections : List (Section σ)} {s : Section σ}
    {r : Except DeliveryError (Option Batch)}, p.PermitsAll b (front ++ sections) →
    (p.run b front).consumer.phase.failures = 0 →
    (p.run b front).Always b (fun q => q.control.status ≠ .paused) sections →
    (p.run b (front ++ sections)).collected? b s = some r → isUncollected r = true →
    (p.run b front).CollectsSoOften b sections s

theorem settings_run (sections : List (Section σ)) : (p.run b sections).settings = p.settings := by
  induction sections generalizing p with
  | nil => rfl
  | cons s sections ih => exact ih.trans (setUpAs_after b p s).settings

/-- A consumer that has no call to make again begins to count. -/
theorem counts_zero {ph : Phase} (fresh : ph.failures = 0) : ph.Counts maxRetries 0 := by
  unfold Phase.Counts
  split
  · exact Nat.zero_le _
  · exact Nat.zero_le _
  · exact ⟨fresh.symm, Nat.zero_le _⟩

/-- **Attempts are bounded, and decide what is acknowledged.** An execution begins in a new folder, and then
the sections of producers, of the consumer and of pauses and stops follow each other in any order, with a
service that answers as it likes. A batch without operations is acknowledged without a request. Any other one
is sent once and again as often as the service is not reached, but not more often than the settings say; it
is acknowledged if the service was reached, and if not, the consumer comes to an end without acknowledging
anything. In the same way the consumer gives up when so many calls to collect a batch failed in a row. -/
theorem tries_so_often {d d' : Disk} {s : σ} {c : Container} {settings : BackgroundSettings}
    {wall process now : Nat} (created : create d s c settings wall process now = (d', .ok p))
    (blank : ∀ d₁ e, Execution.create d settings.dataDir c wall process = (d₁, .ok e) →
      d₁.Blank e.place) : p.TriesSoOften b := by
  have orderly {sections : List (Section σ)} (permitted : p.PermitsAll b sections) :
      (p.run b sections).Orderly :=
    Orderly.run (.inr ⟨_, _, _, inOrder_create created blank⟩) permitted
  refine ⟨settings_run, fun permitted collected uninterrupted answers => ?_,
    fun permitted fresh running call missed => ?_⟩
  · obtain ⟨before, permitted, rest⟩ := permitsAll_append.1 permitted
    have start := trying_of_collected collected ((orderly before).after b permitted)
    exact start.sendsSoOften rest uninterrupted answers
  · obtain ⟨before, rest⟩ := permitsAll_append.1 permitted
    rw [run_append] at call
    have start : Counting _ [] _ := ⟨counts_zero fresh, rfl, orderly before⟩
    exact start.collectsSoOften rest running call missed

/-- A service that is reached from the second attempt on, but tells nothing about attributes. -/
def tellsNothing : Backend Nat :=
  { secondAttempt with fetch := fun n _ => (n, .error (.connection "refused")) }

/-- An attribute takes over the value of another one. -/
def takeOver : Operation :=
  ⟨.single "b", .copy ⟨"RUN-2", .run, .single "b", .float⟩⟩

/-- Two operations are enqueued, and the consumer is about to collect a batch. -/
def enqueueBoth : List (Section Nat) :=
  [forget "a", takeOver].map (.put 5) ++ .start 0 :: [0, 0].map .consumer

/-- A batch is sent twice. -/
def sendTwice : List (Section Nat) :=
  [0, 3000000, 4000000, 4000000, 8000000, 8000000].map .consumer

/-- The first operation is delivered. -/
def deliverFirst : List (Section Nat) :=
  enqueueBoth ++ .consumer 0 :: sendTwice ++ [.consumer 8000000]

/-- A call to collect a batch fails, and the consumer is about to make another one. -/
def callAgain : List (Section Nat) :=
  [8000000, 8000000, 9000000, 9000000].map .consumer

/-- Both may be put. -/
theorem permitsAll_enqueueBoth {b : Backend Nat} {p : Background Nat} (lastPut : p.queue.lastPut = 0)
    (times : List Nat) :
    p.PermitsAll b (enqueueBoth ++ times.map .consumer) := by
  have spares : ∀ op ∈ [forget "a", takeOver], op.Spares p.queue.folder := by
    simp only [List.forall_mem_cons]
    exact ⟨fun _ _ upload => Mutation.noConfusion upload, fun _ _ upload => Mutation.noConfusion upload,
      fun _ mem => absurd mem List.not_mem_nil⟩
  have few : p.queue.lastPut + [forget "a", takeOver].length < UInt64.size := by
    rw [lastPut]
    decide
  refine permitsAll_append.2 ⟨permitsAll_append.2 ⟨?_, trivial, permitsAll_turns b [0, 0]⟩,
    permitsAll_turns b times⟩
  exact permitsAll_puts b ⟨by decide, by decide⟩ few spares

/-- The first of two operations is acknowledged after the second request. The other one is a copy, and is
given up with the second call. -/
theorem tries_so_often_twice :
    ∃ d' p, create Disk.empty 0 ⟨"RUN-1", .run⟩ shortSettings 5 1 0 = (d', .ok p) ∧
      (∃ batch script, AcknowledgesAfter tellsNothing
        ((p.run tellsNothing enqueueBoth).after tellsNothing (.consumer 0)) batch
        (asked ((p.run tellsNothing enqueueBoth).after tellsNothing (.consumer 0)) batch script 2)
        sendTwice) ∧
      (p.run tellsNothing deliverFirst).CollectsSoOften tellsNothing callAgain (.consumer 9000000) ∧
      (p.run tellsNothing (deliverFirst ++ callAgain ++ [.consumer 9000000])).consumer.phase = .ending := by
  have facts : (create Disk.empty 0 ⟨"RUN-1", .run⟩ shortSettings 5 1 0).2.toOption.map (fun p =>
      (p.queue.lastPut,
        ((p.run tellsNothing enqueueBoth).collected? tellsNothing (.consumer 0)).bind fun r =>
          r.toOption.map fun batch => batch.map fun batch => batch.bundle.length,
        decide (((p.run tellsNothing enqueueBoth).after tellsNothing (.consumer 0)).Always tellsNothing
          (fun q => q.control.interrupted = false) sendTwice),
        (((p.run tellsNothing enqueueBoth).after tellsNothing (.consumer 0)).requests tellsNothing
          sendTwice).map fun r => isUnreached r.answer,
        ((p.run tellsNothing enqueueBoth).after tellsNothing (.consumer 0)).turns tellsNothing sendTwice)) =
      some (0, some (some 1), true, [true, false], 6) := by
    set_option maxRecDepth 4000 in decide +kernel
  have facts' : (create Disk.empty 0 ⟨"RUN-1", .run⟩ shortSettings 5 1 0).2.toOption.map (fun p =>
      (p.settings.maxRetries, (p.run tellsNothing deliverFirst).consumer.phase.failures,
        decide ((p.run tellsNothing deliverFirst).Always tellsNothing
          (fun q => q.control.status ≠ .paused) callAgain),
        ((p.run tellsNothing (deliverFirst ++ callAgain)).collected? tellsNothing (.consumer 9000000)).map
          isUncollected,
        inARow ((p.run tellsNothing deliverFirst).collections tellsNothing
          (callAgain ++ [.consumer 9000000])))) =
      some (1, 0, true, some true, 2) := by
    set_option maxRecDepth 4000 in decide +kernel
  rcases hc : create Disk.empty 0 ⟨"RUN-1", .run⟩ shortSettings 5 1 0 with ⟨d', e | p⟩
  · rw [hc] at facts
    cases facts
  · rw [hc] at facts facts'
    simp only [Except.toOption, Option.map_some, Option.some.injEq, Prod.mk.injEq, decide_eq_true_eq]
      at facts facts'
    obtain ⟨lastPut, collected, uninterrupted, answers, turns⟩ := facts
    obtain ⟨maxRetries, fresh, running, call, row⟩ := facts'
    have tries := tries_so_often (b := tellsNothing) hc fun _ _ => blank_shortSettings
    refine ⟨d', p, rfl, ?_, ?_⟩
    · have permitted : p.PermitsAll tellsNothing (enqueueBoth ++ .consumer 0 :: sendTwice) :=
        permitsAll_enqueueBoth lastPut [0, 0, 3000000, 4000000, 4000000, 8000000, 8000000]
      obtain ⟨r, collected, size⟩ := Option.bind_eq_some_iff.1 collected
      obtain ⟨batch, rfl, one⟩ : ∃ batch, r = .ok (some batch) ∧ batch.bundle.length = 1 := by
        rcases r with e | _ | batch
        · cases size
        · cases size
        · exact ⟨batch, rfl, Option.some.inj (Option.some.inj size)⟩
      obtain ⟨first, rest, both, unreached, answers⟩ := List.map_eq_cons_iff.1 answers
      obtain ⟨second, rest, rfl, reached, none_left⟩ := List.map_eq_cons_iff.1 answers
      obtain rfl := List.map_eq_nil_iff.1 none_left
      refine ⟨batch, fun i => if i = 0 then first.answer else second.answer, ?_⟩
      refine (tries.sends permitted collected uninterrupted fun i r found => ?_).reached ?_ (c := 1) ?_
        reached ?_ ?_
      · rw [both] at found
        rcases i with _ | _ | i <;> cases found <;> rfl
      · rw [one]
        exact Nat.one_ne_zero
      · intro i less
        obtain rfl : i = 0 := by omega
        exact unreached
      · rw [(setUpAs_after tellsNothing (p.run tellsNothing enqueueBoth) (.consumer 0)).settings,
          tries.settings, maxRetries]
      · rw [turns]
    · have permitted : p.PermitsAll tellsNothing (deliverFirst ++ callAgain) :=
        permitsAll_enqueueBoth lastPut
          [0, 0, 3000000, 4000000, 4000000, 8000000, 8000000, 8000000, 8000000, 8000000, 9000000, 9000000]
      obtain ⟨r, call, missed⟩ := Option.map_eq_some_iff.1 call
      have collects := tries.collects permitted fresh running call missed
      refine ⟨collects, ?_⟩
      have last := collects.givesUp.2
      rw [tries.settings, maxRetries] at last
      rw [List.append_assoc, run_append]
      exact last row

end Background

end Outbox
