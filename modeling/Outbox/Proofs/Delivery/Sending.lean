import Outbox.Proofs.Delivery.Attempts

/-!
# How often a batch is sent

A batch is sent until the service is reached, but only so often. Then the consumer acknowledges it, or gives
up and comes to an end. Three turns of the consumer make up an attempt that fails: the batch is on its way,
there is no answer, and the pause is over.

* `Phase.Course` is how far the consumer is with a batch;
* `Trying.after` keeps it through any section until the batch is acknowledged, and `Trying.run` through any
  number of them;
* `Background.SendsSoOften` is what becomes of a batch, and `Trying.sendsSoOften` says so of every batch that
  the consumer begins with.
-/

namespace Outbox

/-! ## The course of a batch -/

/-- None of some requests reached the service. -/
def AllUnreached (rs : List Request) : Prop :=
  ∀ r ∈ rs, isUnreached r.answer = true

/-- How far the consumer is with a batch after so many requests and turns. Of the requests only the last may
have reached the service, and there is one more of them at most than are repeated. -/
inductive Phase.Course (maxRetries : Nat) (batch : Batch) : List Request → Nat → Phase → Prop
  | nothing : batch.bundle.length = 0 → Course maxRetries batch [] 0 (.acknowledging batch)
  | sending {rs : List Request} : batch.bundle.length ≠ 0 → AllUnreached rs → rs.length ≤ maxRetries →
      Course maxRetries batch rs (3 * rs.length) (.sending batch rs.length)
  | awaiting {rs : List Request} {deadline : Nat} : batch.bundle.length ≠ 0 → AllUnreached rs →
      rs.length ≤ maxRetries →
      Course maxRetries batch rs (3 * rs.length + 1) (.awaiting batch rs.length deadline)
  | backingOff {rs : List Request} {r : Request} {deadline : Nat} : batch.bundle.length ≠ 0 →
      AllUnreached (rs ++ [r]) → rs.length < maxRetries →
      Course maxRetries batch (rs ++ [r]) (3 * rs.length + 2)
        (.backingOff deadline (.send batch (rs.length + 1)))
  | decided {rs : List Request} {r : Request} : batch.bundle.length ≠ 0 → AllUnreached rs →
      rs.length ≤ maxRetries → isUnreached r.answer = false →
      Course maxRetries batch (rs ++ [r]) (3 * rs.length + 2) (.acknowledging batch)
  | givingUp {rs : List Request} : batch.bundle.length ≠ 0 → AllUnreached rs →
      rs.length = maxRetries + 1 → Course maxRetries batch rs (3 * maxRetries + 2) .ending
  | gaveUp {rs : List Request} : batch.bundle.length ≠ 0 → AllUnreached rs →
      rs.length = maxRetries + 1 → Course maxRetries batch rs (3 * maxRetries + 3) .ended

theorem AllUnreached.concat {rs : List Request} (h : AllUnreached rs) {r : Request}
    (unreached : isUnreached r.answer = true) : AllUnreached (rs ++ [r]) := by
  intro r' mem
  rcases List.mem_append.1 mem with old | new
  · exact h r' old
  · rw [List.mem_singleton.1 new]
    exact unreached

namespace Phase.Course

variable {maxRetries turns c : Nat} {batch : Batch} {rs : List Request} {ph ph' : Phase}

/-- Nobody wakes the consumer. -/
theorem nudged (h : ph.Course maxRetries batch rs turns) (nudged : ph.Nudged ph') : ph' = ph := by
  cases nudged with
  | same => rfl
  | woken => cases h

theorem present (h : ph.Course maxRetries batch rs turns) : ph ≠ .absent := by
  rintro rfl
  cases h

/-- A batch with nothing to send waits for its acknowledgement only. -/
theorem of_nothing (h : ph.Course maxRetries batch rs turns) (nothing : batch.bundle.length = 0) :
    rs = [] ∧ turns = 0 := by
  cases h with
  | nothing => exact ⟨rfl, rfl⟩
  | sending present | awaiting present | backingOff present | decided present | givingUp present
  | gaveUp present => exact absurd nothing present

/-- With every three turns a request is made. -/
theorem unreached_of_turns (h : ph.Course maxRetries batch rs turns) (present : batch.bundle.length ≠ 0)
    (many : 3 * c + 3 ≤ turns) : ∃ r, rs[c]? = some r ∧ isUnreached r.answer = true := by
  -- one of the first requests is this one
  have among {front : List Request} (missed : AllUnreached front) (inside : c < front.length)
      (back : List Request) : ∃ r, (front ++ back)[c]? = some r ∧ isUnreached r.answer = true := by
    refine ⟨front[c], ?_, missed _ (List.getElem_mem inside)⟩
    rw [List.getElem?_append_left inside, List.getElem?_eq_getElem inside]
  have whole (missed : AllUnreached rs) (inside : c < rs.length) :
      ∃ r, rs[c]? = some r ∧ isUnreached r.answer = true := by
    have found := among missed inside []
    rwa [List.append_nil] at found
  cases h with
  | nothing none_there => exact absurd none_there present
  | sending _ missed | awaiting _ missed => exact whole missed (by omega)
  | backingOff _ missed =>
    refine whole missed ?_
    rw [List.length_append, List.length_singleton]
    omega
  | decided _ missed => exact among missed (by omega) _
  | givingUp _ missed | gaveUp _ missed => exact whole missed (by omega)

/-- A batch that is to be acknowledged has an answer, behind requests that did not reach the service. -/
theorem of_acknowledging {batch' : Batch} (h : ph.Course maxRetries batch rs turns)
    (present : batch.bundle.length ≠ 0) (acknowledging : ph = .acknowledging batch') :
    ∃ front r, rs = front ++ [r] ∧ AllUnreached front ∧ front.length ≤ maxRetries ∧
      isUnreached r.answer = false := by
  cases h with
  | nothing none_there => exact absurd none_there present
  | decided _ missed few reached => exact ⟨_, _, rfl, missed, few, reached⟩
  | sending | awaiting | backingOff | givingUp | gaveUp => cases acknowledging

/-- After enough turns the consumer gave up, unless the batch is to be acknowledged. -/
theorem of_turns (h : ph.Course maxRetries batch rs turns)
    (undecided : ph ≠ .acknowledging batch) (many : 3 * maxRetries + 2 ≤ turns) :
    rs.length = maxRetries + 1 ∧ (ph = .ending ∧ turns = 3 * maxRetries + 2 ∨ ph = .ended) := by
  cases h with
  | nothing | decided => exact absurd rfl undecided
  | sending _ _ few | awaiting _ _ few | backingOff _ _ few => omega
  | givingUp _ _ length => exact ⟨length, .inl ⟨rfl, rfl⟩⟩
  | gaveUp _ _ length => exact ⟨length, .inr rfl⟩

end Phase.Course

namespace Background

variable {σ : Type} {b : Backend σ} {p p' q : Background σ} {batch : Batch} {rs rs' : List Request}
  {turns turns' : Nat}

/-- A section acknowledges a batch. -/
structure Acknowledges (b : Backend σ) (p : Background σ) (s : Section σ) (batch : Batch) : Prop where
  phase : p.consumer.phase = .acknowledging batch
  done : (p.after b s).consumer.phase = .publishing batch.version
  lastAck : (p.after b s).queue.lastAck = max batch.version p.queue.lastAck

/-- The consumer has been at a batch since some moment. -/
structure Trying (q : Background σ) (batch : Batch) (rs : List Request) (turns : Nat) (p : Background σ) :
    Prop where
  course : p.consumer.phase.Course q.settings.maxRetries batch rs turns
  same : ∀ r ∈ rs, r.container = q.container ∧ r.bundle = batch.bundle
  container : p.container = q.container
  settings : p.settings = q.settings
  lastAck : p.queue.lastAck = q.queue.lastAck
  consumed : p.control.consumed = q.control.consumed
  stopped : p.consumer.phase = .ended → p.control.status = .stopped
  orderly : p.Orderly

/-- The consumer begins with a batch that was collected. -/
theorem trying_of_collected {s : Section σ} (collected : p.collected? b s = some (.ok (some batch)))
    (orderly : (p.after b s).Orderly) : (p.after b s).Trying batch [] 0 (p.after b s) := by
  obtain ⟨now, retries, -, -, after_eq⟩ := collected?_eq_some collected
  simp only [takeUp] at after_eq
  have none_missed : AllUnreached [] := fun _ mem => absurd mem List.not_mem_nil
  have same : ∀ r ∈ ([] : List Request),
      r.container = (p.after b s).container ∧ r.bundle = batch.bundle :=
    fun _ mem => absurd mem List.not_mem_nil
  refine ⟨?_, same, rfl, rfl, rfl, rfl, ?_, orderly⟩
  · rw [after_eq]
    split
    · next nothing => exact .nothing nothing
    · next present => exact .sending present none_missed (Nat.zero_le _)
  · rw [after_eq]
    split <;> exact Phase.noConfusion

namespace Trying

/-- Without a request nothing is added. -/
theorem unasked (h : q.Trying batch rs turns p) : q.Trying batch (rs ++ []) turns p := by
  rw [List.append_nil]
  exact h

/-- A section beside the consumer does not matter. -/
theorem beside (h : q.Trying batch rs turns p) {s : Section σ} (other : ∀ now, s ≠ .consumer now)
    (permitted : p.Permits s) : q.Trying batch rs turns (p.after b s) := by
  have undisturbed := undisturbed_after b other
    (fun _ _ => h.orderly.started h.course.present) permitted
  obtain ⟨container, settings⟩ := setUpAs_after b p s
  have phase := h.course.nudged undisturbed.phase
  exact
    { course := phase ▸ h.course
      same := h.same
      container := container.trans h.container
      settings := settings.trans h.settings
      lastAck := undisturbed.lastAck.trans h.lastAck
      consumed := undisturbed.consumed.trans h.consumed
      stopped := fun ended => undisturbed.stopped (h.stopped (phase ▸ ended))
      orderly := h.orderly.after b permitted }

/-- The consumer goes over to another phase. -/
theorem moves (h : q.Trying batch rs turns p) {now : Nat} (moved : p.step b now = p')
    (course : p'.consumer.phase.Course q.settings.maxRetries batch rs' turns')
    (same : ∀ r ∈ rs', r.container = q.container ∧ r.bundle = batch.bundle)
    (lastAck : p'.queue.lastAck = p.queue.lastAck)
    (consumed : p'.control.consumed = p.control.consumed)
    (stopped : p'.consumer.phase = .ended → p'.control.status = .stopped) :
    q.Trying batch rs' turns' (p.step b now) := by
  obtain ⟨container, settings⟩ := setUpAs_step b p now
  have orderly : (p.step b now).Orderly := h.orderly.after b (s := .consumer now) trivial
  rw [moved] at container settings orderly ⊢
  exact ⟨course, same, container.trans h.container, settings.trans h.settings, lastAck.trans h.lastAck,
    consumed.trans h.consumed, stopped, orderly⟩

/-- The service answers to a batch. -/
theorem answerSection (h : q.Trying batch rs (3 * rs.length + 1) p) {now deadline : Nat}
    (ready : p.readiness now = .ready) (phase : p.consumer.phase = .awaiting batch rs.length deadline)
    (present : batch.bundle.length ≠ 0) (missed : AllUnreached rs)
    (few : rs.length ≤ q.settings.maxRetries) :
    q.Trying batch
      (rs ++ [⟨p.container, batch.bundle, (b.answer p.backend p.container batch.bundle).2⟩])
      (3 * rs.length + 2) (p.step b now) := by
  have same : ∀ r ∈ rs ++
      [⟨p.container, batch.bundle, (b.answer p.backend p.container batch.bundle).2⟩],
      r.container = q.container ∧ r.bundle = batch.bundle := by
    intro r mem
    rcases List.mem_append.1 mem with old | new
    · exact h.same r old
    · rw [List.mem_singleton.1 new]
      exact ⟨h.container, rfl⟩
  have stepped : p.step b now = p.answerSection b now batch rs.length := by
    simp only [Background.step, ready, phase]
  unfold Background.answerSection at stepped
  generalize b.answer p.backend p.container batch.bundle = answer at stepped same ⊢
  rcases answer with ⟨s, e | receipt⟩
  · dsimp only at stepped
    by_cases retryable : e.isRetryable = true
    · rw [if_pos retryable] at stepped
      have missed' := missed.concat (r := ⟨p.container, batch.bundle, .error e⟩) retryable
      unfold Background.retry at stepped
      split at stepped
      · next many =>
        have last : rs.length = q.settings.maxRetries := by
          have many : p.settings.maxRetries ≤ rs.length := many
          rw [h.settings] at many
          omega
        refine h.moves stepped ?_ same rfl rfl Phase.noConfusion
        rw [last]
        refine .givingUp present missed' ?_
        rw [List.length_append, List.length_singleton, last]
      · next some_left =>
        have less : rs.length < q.settings.maxRetries := by
          have some_left : ¬ p.settings.maxRetries ≤ rs.length := some_left
          rw [h.settings] at some_left
          omega
        exact h.moves stepped (.backingOff present missed' less) same rfl rfl Phase.noConfusion
    · rw [if_neg retryable] at stepped
      have refused : isUnreached (.error e) = false := Bool.eq_false_iff.2 retryable
      exact h.moves stepped (.decided present missed few refused) same rfl rfl Phase.noConfusion
  · exact h.moves stepped (.decided present missed few rfl) same rfl rfl Phase.noConfusion

/-- A batch that is to be acknowledged is acknowledged with the next turn. -/
theorem acknowledges (h : q.Trying batch rs turns p) {now : Nat} (ready : p.readiness now = .ready)
    (phase : p.consumer.phase = .acknowledging batch) : p.Acknowledges b (.consumer now) batch := by
  obtain ⟨d', q', acked, lastAck⟩ := h.orderly.ack phase
  have stepped : p.after b (.consumer now) =
      { p with disk := d', queue := q' }.goTo (.publishing batch.version) := by
    show p.step b now = _
    simp only [Background.step, ready, phase, Background.ackSection, acked]
  refine ⟨phase, ?_, ?_⟩
  · rw [stepped]
    rfl
  · rw [stepped]
    exact lastAck

/-- **A section of the consumer** brings it on with the batch, or acknowledges the batch. -/
theorem step (h : q.Trying batch rs turns p) (uninterrupted : p.control.interrupted = false) (now : Nat) :
    q.Trying batch (rs ++ (p.answered? b (.consumer now)).toList)
        (turns + (p.turn? (.consumer now)).toList.length) (p.step b now) ∨
      p.Acknowledges b (.consumer now) batch := by
  unfold answered?
  by_cases ready : p.readiness now = .ready
  · have turn := turn?_of_ready ready
    have course := h.course
    generalize phase : p.consumer.phase = ph at course turn
    rw [turn]
    cases course with
    | nothing | decided => exact .inr (h.acknowledges ready phase)
    | sending present missed few =>
      have stepped : p.step b now = p.sendSection b now batch rs.length := by
        simp only [Background.step, ready, phase]
      exact .inl (h.moves stepped (.awaiting present missed few) h.same rfl rfl Phase.noConfusion).unasked
    | awaiting present missed few => exact .inl (h.answerSection ready phase present missed few)
    | @backingOff front r deadline present missed less =>
      have stepped : p.step b now = p.goTo (.sending batch (front.length + 1)) := by
        simp only [Background.step, ready, phase, uninterrupted, Bool.false_eq_true, if_false, goToAttempt]
      have length : front.length + 1 = (front ++ [r]).length := by simp
      have course : (Phase.sending batch (front.length + 1)).Course q.settings.maxRetries batch (front ++ [r])
          (3 * (front.length + 1)) := by
        rw [Nat.lt_iff_add_one_le, length] at less
        rw [length]
        exact .sending present missed less
      exact .inl (h.moves stepped course h.same rfl rfl Phase.noConfusion).unasked
    | givingUp present missed length =>
      have stepped : p.step b now = (p.withControl fun c => { c with status := .stopped }).goTo .ended := by
        simp only [Background.step, ready, phase]
      exact .inl (h.moves stepped (.gaveUp present missed length) h.same rfl rfl fun _ => rfl).unasked
    | gaveUp =>
      simp only [readiness, phase] at ready
      cases ready
  · obtain ⟨no_turn, unmoved⟩ := waits_of_not_ready (b := b) ready
    rw [no_turn, unmoved]
    exact .inl h.unasked

/-- **Any section** brings the consumer on with the batch, or acknowledges the batch. -/
theorem after (h : q.Trying batch rs turns p) (uninterrupted : p.control.interrupted = false)
    {s : Section σ} (permitted : p.Permits s) :
    q.Trying batch (rs ++ (p.answered? b s).toList) (turns + (p.turn? s).toList.length) (p.after b s) ∨
      p.Acknowledges b s batch := by
  by_cases consumer : ∃ now, s = .consumer now
  · obtain ⟨now, rfl⟩ := consumer
    exact h.step uninterrupted now
  · have other : ∀ now, s ≠ .consumer now := fun now same => consumer ⟨now, same⟩
    rw [answered?, turn?_eq_none other]
    exact .inl (h.beside other permitted).unasked

/-- **However many sections there are**, the consumer is at the batch, or one of them acknowledges it. -/
theorem run (h : q.Trying batch rs turns p) {sections : List (Section σ)}
    (permitted : p.PermitsAll b sections)
    (uninterrupted : p.Always b (fun p => p.control.interrupted = false) sections) :
    q.Trying batch (rs ++ p.requests b sections) (turns + p.turns b sections) (p.run b sections) ∨
      ∃ front s back, sections = front ++ s :: back ∧
        q.Trying batch (rs ++ p.requests b front) (turns + p.turns b front) (p.run b front) ∧
        (p.run b front).Acknowledges b s batch := by
  induction sections generalizing p rs turns with
  | nil => exact .inl h.unasked
  | cons s sections ih =>
    have requests (some_more : List (Section σ)) : rs ++ p.requests b (s :: some_more) =
        rs ++ (p.answered? b s).toList ++ (p.after b s).requests b some_more :=
      (List.append_assoc _ _ _).symm
    have turns (some_more : List (Section σ)) : turns + p.turns b (s :: some_more) =
        turns + (p.turn? s).toList.length + (p.after b s).turns b some_more := by
      show turns + ((p.turn? s).toList ++ _).length = _
      rw [List.length_append, Nat.add_assoc]
      rfl
    rcases h.after uninterrupted.1 permitted.1 with on | acknowledged
    · rcases ih on permitted.2 uninterrupted.2 with on | ⟨front, s', back, rfl, on, acknowledged⟩
      · rw [← requests, ← turns] at on
        exact .inl on
      · rw [← requests, ← turns] at on
        exact .inr ⟨s :: front, s', back, rfl, on, acknowledged⟩
    · exact .inr ⟨[], s, sections, rfl, h.unasked, acknowledged⟩

end Trying

/-! ## What becomes of a batch -/

/-- The first requests with a batch, if the service answers as a script says. -/
def asked (q : Background σ) (batch : Batch) (script : Nat → Except BackendError Receipt) (n : Nat) :
    List Request :=
  (List.range n).map fun i => ⟨q.container, batch.bundle, script i⟩

/-- Some section acknowledges a batch, after these requests, and none before it acknowledges anything. -/
def AcknowledgesAfter (b : Backend σ) (q : Background σ) (batch : Batch) (rs : List Request)
    (sections : List (Section σ)) : Prop :=
  ∃ front s back, sections = front ++ s :: back ∧ q.requests b front = rs ∧
    (q.run b front).queue.lastAck = q.queue.lastAck ∧ (q.run b front).Acknowledges b s batch

/-- What becomes of a batch that was collected, if the service answers to the requests from then on as a
script says. -/
structure SendsSoOften (b : Backend σ) (q : Background σ) (batch : Batch)
    (script : Nat → Except BackendError Receipt) (sections : List (Section σ)) : Prop where
  /-- A batch with nothing to send is acknowledged without a request. -/
  nothing : batch.bundle.length = 0 → 1 ≤ q.turns b sections → q.AcknowledgesAfter b batch [] sections
  /-- A batch is acknowledged if the service was not reached before this request, and not too often. -/
  reached : batch.bundle.length ≠ 0 → ∀ {c : Nat}, (∀ i < c, isUnreached (script i) = true) →
    isUnreached (script c) = false → c ≤ q.settings.maxRetries → 3 * c + 3 ≤ q.turns b sections →
    q.AcknowledgesAfter b batch (q.asked batch script (c + 1)) sections
  /-- The consumer comes to an end if the service was not reached too often, and acknowledges nothing. -/
  unreached : batch.bundle.length ≠ 0 → (∀ i ≤ q.settings.maxRetries, isUnreached (script i) = true) →
    (∀ s batch', ¬ (q.run b sections).Acknowledges b s batch') ∧
    (q.run b sections).queue.lastAck = q.queue.lastAck ∧
    (q.run b sections).control.consumed = q.control.consumed ∧
    (3 * q.settings.maxRetries + 2 ≤ q.turns b sections →
      q.requests b sections = q.asked batch script (q.settings.maxRetries + 1)) ∧
    (3 * q.settings.maxRetries + 3 ≤ q.turns b sections →
      (q.run b sections).consumer.phase = .ended ∧ (q.run b sections).control.status = .stopped)

namespace Trying

variable {script : Nat → Except BackendError Receipt} {sections : List (Section σ)}

theorem eq_asked (h : q.Trying batch rs turns p) {back : List Request}
    (answers : ∀ i r, (rs ++ back)[i]? = some r → r.answer = script i) :
    rs = q.asked batch script rs.length := by
  apply List.ext_getElem?
  intro i
  rw [asked, List.getElem?_map]
  by_cases inside : i < rs.length
  · obtain ⟨container, bundle⟩ := h.same _ (List.getElem_mem inside)
    have found := List.getElem?_eq_getElem inside
    have answer := answers i rs[i] (by rw [List.getElem?_append_left inside, found])
    rw [found, List.getElem?_range inside, Option.map_some, ← container, ← bundle, ← answer]
  · have outside := Nat.le_of_not_lt inside
    rw [List.getElem?_eq_none outside, List.getElem?_eq_none (by rwa [List.length_range]), Option.map_none]

/-- The answer that decides a batch is the first that did not miss the service. -/
theorem decided (h : q.Trying batch rs turns p) (present : batch.bundle.length ≠ 0) {batch' : Batch}
    (acknowledging : p.consumer.phase = .acknowledging batch') {back : List Request}
    (answers : ∀ i r, (rs ++ back)[i]? = some r → r.answer = script i) :
    ∃ n ≤ q.settings.maxRetries, rs.length = n + 1 ∧ (∀ i < n, isUnreached (script i) = true) ∧
      isUnreached (script n) = false := by
  obtain ⟨front, r, rfl, missed, few, reached⟩ := h.course.of_acknowledging present acknowledging
  refine ⟨front.length, few, by simp, fun i inside => ?_, ?_⟩
  · rw [← answers i front[i]]
    · exact missed _ (List.getElem_mem inside)
    · rw [List.append_assoc, List.getElem?_append_left inside, List.getElem?_eq_getElem inside]
  · rw [← answers front.length r (by simp)]
    exact reached

/-- The requests with a batch that is to be acknowledged are those up to the first that reaches the service. -/
theorem eq_asked_of_reached (h : q.Trying batch rs turns p) (present : batch.bundle.length ≠ 0)
    {batch' : Batch} (acknowledging : p.consumer.phase = .acknowledging batch') {back : List Request}
    (answers : ∀ i r, (rs ++ back)[i]? = some r → r.answer = script i) {c : Nat}
    (missed : ∀ i < c, isUnreached (script i) = true) (reached : isUnreached (script c) = false) :
    rs = q.asked batch script (c + 1) := by
  obtain ⟨n, -, length, missed', reached'⟩ := h.decided present acknowledging answers
  have same : n = c := by
    rcases Nat.lt_trichotomy n c with less | same | more
    · rw [missed n less] at reached'
      cases reached'
    · exact same
    · rw [missed' c more] at reached
      cases reached
  rw [h.eq_asked answers, length, same]

/-- A batch is not to be acknowledged while the service was not reached. -/
theorem undecided (h : q.Trying batch rs turns p) (present : batch.bundle.length ≠ 0)
    (missed : ∀ i ≤ q.settings.maxRetries, isUnreached (script i) = true) {back : List Request}
    (answers : ∀ i r, (rs ++ back)[i]? = some r → r.answer = script i) (batch' : Batch) :
    p.consumer.phase ≠ .acknowledging batch' := by
  intro acknowledging
  obtain ⟨n, few, -, -, reached⟩ := h.decided present acknowledging answers
  rw [missed n few] at reached
  cases reached

/-- **A batch is sent until the service is reached**, and only so often. -/
theorem sendsSoOften (start : q.Trying batch [] 0 q) (permitted : q.PermitsAll b sections)
    (uninterrupted : q.Always b (fun p => p.control.interrupted = false) sections)
    (answers : ∀ i r, (q.requests b sections)[i]? = some r → r.answer = script i) :
    q.SendsSoOften b batch script sections := by
  have course := start.run permitted uninterrupted
  simp only [List.nil_append, Nat.zero_add] at course
  -- the requests up to a section are answered as the script says
  have upTo {front back : List (Section σ)} (split : sections = front ++ back) (i : Nat) (r : Request) :
      (q.requests b front ++ (q.run b front).requests b back)[i]? = some r → r.answer = script i := by
    rw [requests, requests, ← journal_append, ← split]
    exact answers i r
  refine ⟨fun nothing many => ?_, fun present c missed reached few many => ?_, fun present missed => ?_⟩
  · rcases course with on | ⟨front, s, back, split, on, acknowledged⟩
    · obtain ⟨-, no_turns⟩ := on.course.of_nothing nothing
      omega
    · exact ⟨front, s, back, split, (on.course.of_nothing nothing).1, on.lastAck, acknowledged⟩
  · rcases course with on | ⟨front, s, back, split, on, acknowledged⟩
    · obtain ⟨r, found, unreached⟩ := on.course.unreached_of_turns present many
      rw [answers c r found, reached] at unreached
      cases unreached
    · have asked := on.eq_asked_of_reached present acknowledged.phase (upTo split) missed reached
      exact ⟨front, s, back, split, asked, on.lastAck, acknowledged⟩
  · rcases course with on | ⟨front, s, back, split, on, acknowledged⟩
    · have answers' : ∀ i r, (q.requests b sections ++ [])[i]? = some r → r.answer = script i := by
        rw [List.append_nil]
        exact answers
      have undecided := on.undecided present missed answers'
      refine ⟨fun s batch' acknowledged => undecided batch' acknowledged.phase, on.lastAck, on.consumed,
        fun many => ?_, fun many => ?_⟩
      · obtain ⟨length, -⟩ := on.course.of_turns (undecided batch) many
        rw [on.eq_asked answers', length]
      · obtain ⟨-, ⟨-, few⟩ | ended⟩ := on.course.of_turns (undecided batch) (by omega)
        · omega
        · exact ⟨ended, on.stopped ended⟩
    · exact absurd acknowledged.phase (on.undecided present missed (upTo split) batch)

end Trying

end Background

end Outbox
