import Outbox.Proofs.Batch.Merged
import Outbox.Proofs.Delivery.Order

/-!
# The consumer keeps step with direct delivery

After every batch the service in memory keeps what it would keep had the records delivered so far been sent
one by one, as long as no batch reports anything and no batch clears what it made itself.

* `runsOf` are the operations that went into each batch, and `LeavesOwn` says of all batches that they do
  not clear what they made;
* `Background.Mirrors` is the invariant: what the service keeps, and what the batch in flight is merged
  from;
* `Mirrors.step` keeps it through the sections of the consumer, and `Mirrors.idles` with `idles_after`
  through all others.
-/

namespace Outbox

open MemoryBackend (service Steady SameAttributes)

/-! ## Batch by batch -/

/-- The operations of a list that went into each batch. -/
def runsOf : List Ended → List Operation → List (List Operation)
  | [], _ => []
  | e :: endings, ops => ops.take e.batch.size :: runsOf endings (ops.drop e.batch.size)

/-- No batch clears what it made itself, where direct delivery is at the same point. -/
def LeavesOwn (t : Direct MemoryBackend) : List (List Operation) → Prop
  | [] => True
  | ops :: runs =>
    (∀ path, ¬ ClearsOwn (t.backend.store.get? t.container.id path) (onPath path (t.sent service ops))) ∧
      LeavesOwn (t.enqueueAll service ops) runs

theorem leavesOwn_append {t : Direct MemoryBackend} {runs runs' : List (List Operation)} :
    LeavesOwn t (runs ++ runs') ↔
      LeavesOwn t runs ∧ LeavesOwn (t.enqueueAll service runs.flatten) runs' := by
  induction runs generalizing t with
  | nil =>
    show LeavesOwn t runs' ↔ True ∧ LeavesOwn t runs'
    rw [true_and]
  | cons ops runs ih =>
    show (_ ∧ LeavesOwn _ (runs ++ runs')) ↔ (_ ∧ LeavesOwn _ runs) ∧ _
    rw [ih, and_assoc, List.flatten_cons, Direct.enqueueAll_append]

/-- The operations of a record in a batch that ended. -/
def Shipment.ops (x : Shipment) : List Operation :=
  x.run.map Queued.op

theorem flatten_ops (shipments : List Shipment) :
    (shipments.map Shipment.ops).flatten = (delivered shipments).map Queued.op := by
  rw [delivered, List.map_flatMap, List.flatMap_def]
  rfl

/-- The batches report nothing, and do not clear what they made. -/
structure Clean (t : Direct MemoryBackend) (shipments : List Shipment) : Prop where
  quiet : ∀ x ∈ shipments, x.ended.batch.bundle.errors = []
  leaves : LeavesOwn t (shipments.map Shipment.ops)

/-- Direct delivery of the records in batches that ended. -/
def Direct.after (t : Direct MemoryBackend) (shipments : List Shipment) : Direct MemoryBackend :=
  t.enqueueAll service ((delivered shipments).map Queued.op)

variable {t : Direct MemoryBackend} {shipments : List Shipment} {x : Shipment}

theorem Direct.after_concat :
    t.after (shipments ++ [x]) = (t.after shipments).enqueueAll service x.ops := by
  rw [Direct.after, delivered_concat, List.map_append, Direct.enqueueAll_append]
  rfl

theorem Clean.concat (h : Clean t (shipments ++ [x])) :
    Clean t shipments ∧ x.ended.batch.bundle.errors = [] ∧
      ∀ path, ¬ ClearsOwn ((t.after shipments).backend.store.get? (t.after shipments).container.id path)
        (onPath path ((t.after shipments).sent service x.ops)) := by
  have leaves := h.leaves
  rw [List.map_append, leavesOwn_append, flatten_ops] at leaves
  refine ⟨⟨fun y mem => h.quiet y (List.mem_append_left _ mem), leaves.1⟩, ?_, leaves.2.1⟩
  exact h.quiet x (List.mem_append_right _ List.mem_cons_self)

/-- The shipments of an account are those of its endings, in turn. -/
theorem runsOf_ended {shipments : List Shipment} (covers : ∀ x ∈ shipments, x.ended.batch.Covers x.run)
    (rest : List Operation) :
    runsOf (shipments.map Shipment.ended) ((delivered shipments).map Queued.op ++ rest) =
      shipments.map Shipment.ops := by
  induction shipments with
  | nil => rfl
  | cons x shipments ih =>
    have size : x.ended.batch.size = x.ops.length := by
      rw [Shipment.ops, List.length_map]
      exact (covers x List.mem_cons_self).counted
    have split : (delivered (x :: shipments)).map Queued.op ++ rest =
        x.ops ++ ((delivered shipments).map Queued.op ++ rest) := by
      rw [delivered, List.flatMap_cons, List.map_append, List.append_assoc]
      rfl
    rw [List.map_cons, List.map_cons, runsOf, split, size, List.take_left, List.drop_left]
    rw [ih fun y mem => covers y (List.mem_cons_of_mem _ mem)]

namespace Background

variable {p p' : Background MemoryBackend} {l l' : ListQueue Operation} {flight flight' : List Queued}

/-! ## Which records are where -/

/-- The batch in flight stands for the first records that are in no batch that ended. -/
theorem Keeps.flight_eq (h : p.Keeps l shipments flight) {batch : Batch} (covers : batch.Covers flight) :
    flight = ((l.records.map queued).drop (delivered shipments).length).take batch.size := by
  have size : batch.size = flight.length := covers.counted
  rw [h.records, List.drop_left, size, List.take_left]

/-- So does a batch when it ends. -/
theorem Keeps.run_eq (h : p.Keeps l (shipments ++ [x]) flight) :
    x.run = ((l.records.map queued).drop (delivered shipments).length).take x.ended.batch.size := by
  have size : x.ended.batch.size = x.run.length :=
    (h.covers x (List.mem_append_right _ List.mem_cons_self)).counted
  rw [h.records, delivered_concat, List.append_assoc, List.drop_left, size, List.take_left]

/-! ## The invariant -/

/-- The service keeps what it would keep had the records in batches that ended been sent one by one, and
the batch in flight is merged from what would be sent next. -/
structure Mirrors (t : Direct MemoryBackend) (p : Background MemoryBackend) (shipments : List Shipment)
    (flight : List Queued) : Prop where
  container : p.container = t.container
  steady : p.backend.Steady
  keeps : Clean t shipments → p.backend.SameAttributes (t.after shipments).backend
  inFlight : Clean t shipments → ∀ batch, p.consumer.phase.unsent? = some batch →
    batch.MergedFrom (t.after shipments) flight

/-- A section that changes nothing that the service keeps, and begins nothing to be sent. -/
structure Idles (p p' : Background MemoryBackend) : Prop where
  container : p'.container = p.container
  steady : p.backend.Steady → p'.backend.Steady
  store : p'.backend.store = p.backend.store
  unsent : ∀ batch, p'.consumer.phase.unsent? = some batch → p.consumer.phase.unsent? = some batch

theorem Mirrors.idles (h : Mirrors t p shipments flight) (idles : p.Idles p')
    (same : ∀ batch, p'.consumer.phase.unsent? = some batch → flight' = flight) :
    Mirrors t p' shipments flight' where
  container := idles.container.trans h.container
  steady := idles.steady h.steady
  keeps clean id path := by
    rw [idles.store]
    exact h.keeps clean id path
  inFlight clean batch unsent := by
    rw [same batch unsent]
    exact h.inFlight clean batch (idles.unsent batch unsent)

/-! ## Sections beside the consumer -/

theorem idles_refl (p : Background MemoryBackend) : p.Idles p :=
  ⟨rfl, id, rfl, fun _ => id⟩

theorem Idles.trans {p'' : Background MemoryBackend} (h : p.Idles p') (h' : p'.Idles p'') : p.Idles p'' :=
  ⟨h'.container.trans h.container, h'.steady ∘ h.steady, h'.store.trans h.store,
    fun batch unsent => h.unsent batch (h'.unsent batch unsent)⟩

/-- A section that leaves the consumer and the service alone. -/
theorem idles_of_eq (container : p'.container = p.container) (backend : p'.backend = p.backend)
    (phase : p'.consumer.phase = p.consumer.phase) : p.Idles p' :=
  ⟨container, fun steady => backend ▸ steady, congrArg _ backend, fun _ unsent => phase ▸ unsent⟩

/-- A section after which nothing is to be sent. -/
theorem idles_goTo (container : p'.container = p.container) (backend : p'.backend = p.backend)
    (nothing : p'.consumer.phase.unsent? = none) : p.Idles p' := by
  refine ⟨container, fun steady => backend ▸ steady, congrArg _ backend, fun batch unsent => ?_⟩
  rw [nothing] at unsent
  cases unsent

theorem idles_notify (p : Background MemoryBackend) : p.Idles p.notify := by
  unfold notify
  split
  · exact idles_goTo rfl rfl rfl
  · exact idles_refl p

theorem Idles.notify (h : p.Idles p') : p.Idles p'.notify :=
  h.trans (idles_notify p')

theorem Idles.wake (h : p.Idles p') : p.Idles p'.wake :=
  Idles.notify (h.trans (idles_of_eq rfl rfl rfl))

theorem idles_after (p : Background MemoryBackend) {s : Section MemoryBackend}
    (other : ∀ now, s ≠ .consumer now) (alone : ∀ m, s ≠ .service m) : p.Idles (p.after service s) := by
  cases s with
  | consumer now => exact absurd rfl (other now)
  | service m => exact absurd rfl (alone m)
  | put wall op =>
    show p.Idles (p.putSection wall op).1
    unfold putSection
    split <;> exact idles_of_eq rfl rfl rfl
  | publish version overflowing =>
    show p.Idles (if _ then _ else _)
    split
    · exact Idles.wake (idles_of_eq rfl rfl rfl)
    · exact idles_of_eq rfl rfl rfl
  | wake => exact (idles_refl p).wake
  | notify => exact idles_notify p
  | start now =>
    show p.Idles (if _ then _ else _)
    split
    · exact idles_goTo rfl rfl rfl
    · exact idles_refl p
  | resume | askToStop => exact Idles.wake (idles_of_eq rfl rfl rfl)
  | interrupt | markStopped => exact Idles.notify (idles_of_eq rfl rfl rfl)
  | cleanUp =>
    rcases cleanUp_cases p with same | same <;>
    · show p.Idles p.cleanUp.1
      rw [same]
      exact idles_of_eq rfl rfl rfl
  | checkProgress | flush | suspend | close | disk => exact idles_of_eq rfl rfl rfl

/-! ## Sections of the consumer -/

theorem idles_retry (container : p'.container = p.container) (backend : p'.backend = p.backend)
    (now retries : Nat) : p.Idles (p'.retry now retries .collect) := by
  unfold retry
  split <;> exact idles_goTo container backend rfl

theorem idles_wakeSection (p : Background MemoryBackend) : p.Idles p.wakeSection := by
  show p.Idles (if _ then _ else _)
  split <;> exact idles_goTo rfl rfl rfl

/-- Sections of the consumer that neither collect a batch nor take the answer to one. -/
theorem idles_step (p : Background MemoryBackend) (now : Nat)
    (collects : ∀ retries, p.consumer.phase ≠ .collecting retries)
    (answers : ∀ batch retries deadline, p.consumer.phase ≠ .awaiting batch retries deadline) :
    p.Idles (p.step service now) := by
  unfold step
  cases p.readiness now with
  | waits _ | gone => exact idles_refl p
  | ready =>
    cases hp : p.consumer.phase with
    | collecting retries => exact absurd hp (collects retries)
    | awaiting batch retries deadline => exact absurd hp (answers batch retries deadline)
    | absent | ended => exact idles_refl p
    | ending | publishing => exact idles_goTo rfl rfl rfl
    | starting =>
      show p.Idles ((p.flushIfDue now).goTo (.checking 0))
      unfold flushIfDue
      split <;> exact idles_goTo rfl rfl rfl
    | checking retries =>
      show p.Idles (p.check retries)
      unfold check
      split
      · exact idles_goTo rfl rfl rfl
      · split <;> exact idles_goTo rfl rfl rfl
    | sending batch retries => exact ⟨rfl, Steady.begin, rfl, fun _ unsent => by rw [hp]; exact unsent⟩
    | acknowledging batch =>
      show p.Idles (p.ackSection batch)
      unfold ackSection
      split <;> exact idles_goTo rfl rfl rfl
    | backingOff deadline next =>
      show p.Idles (if _ then _ else p.goToAttempt next)
      split
      · exact idles_goTo rfl rfl rfl
      · cases next with
        | collect retries => exact idles_goTo rfl rfl rfl
        | send batch retries => exact ⟨rfl, id, rfl, fun _ unsent => by rw [hp]; exact unsent⟩
    | resting =>
      show p.Idles (p.restSection now)
      unfold restSection
      split
      · exact idles_goTo rfl rfl rfl
      · split
        · exact idles_wakeSection p
        · exact idles_goTo rfl rfl rfl
    | sleeping => exact idles_wakeSection p

/-- A section that ends no batch, and begins none to be sent. -/
theorem Mirrors.idles_step (h : Mirrors t p shipments flight) (inOrder : p.InOrder l shipments flight)
    (inOrder' : p'.InOrder l' shipments flight') (records : l'.records = l.records) (idles : p.Idles p') :
    Mirrors t p' shipments flight' := by
  refine h.idles idles fun batch unsent => ?_
  obtain ⟨covers, -⟩ := inOrder.covers_unsent (idles.unsent batch unsent)
  obtain ⟨covers', -⟩ := inOrder'.covers_unsent unsent
  rw [inOrder.keeps.flight_eq covers, inOrder'.keeps.flight_eq covers', records]

/-- A batch ends: the service took it, or there was nothing to send. -/
theorem Mirrors.ends (h : Mirrors t p shipments flight) (steady : t.backend.Steady)
    (idles : ∀ batch, p'.consumer.phase.unsent? ≠ some batch) (container : p'.container = p.container)
    (steady' : p'.backend.Steady)
    (store : p'.backend.store = (p.backend.take p.container x.ended.batch.bundle).1.store)
    (merged : Clean t shipments → x.ended.batch.MergedFrom (t.after shipments) x.run) :
    Mirrors t p' (shipments ++ [x]) flight' where
  container := container.trans h.container
  steady := steady'
  keeps clean := by
    obtain ⟨before, quiet, leaves⟩ := clean.concat
    obtain ⟨same_container, still, -⟩ := Direct.enqueueAll_spec steady ((delivered shipments).map Queued.op)
    have container : (t.after shipments).container = p.container := same_container.trans h.container.symm
    have kept := (merged before).sameAttributes quiet still (h.keeps before) leaves
    rw [container] at kept
    rw [Direct.after_concat]
    intro id path
    rw [store]
    exact kept id path
  inFlight _ batch unsent := absurd unsent (idles batch)

/-- Collecting leaves the service as it is, and the batch is merged from what would be sent next. -/
theorem Mirrors.collectNext (h : Mirrors t p shipments flight) (steady : t.backend.Steady)
    (inOrder : p.InOrder l shipments flight) {retries : Nat}
    (hp : p.consumer.phase = .collecting retries) :
    (p.collectNext service).backend = p.backend ∧
      ∀ batch, (p.collectNext service).result = .ok (some batch) → Clean t shipments →
        batch.MergedFrom (t.after shipments)
          (((l.records.map queued).drop (delivered shipments).length).take batch.size) := by
  have lives := inOrder.lives
  have fits := inOrder.phase
  rw [hp] at lives fits
  obtain ⟨rfl, -⟩ := fits
  have left : StoredQueue.Left l p.queue.folder ⟨p.disk, p.queue⟩
      ((l.records.drop l.read).map queued) := ⟨l.read, inOrder.keeps.holds lives, rfl, rfl⟩
  have yields := queueSource_yields l p.queue.folder
  have unended : (l.records.map queued).drop (delivered shipments).length =
      p.consumer.stash.toList ++ (l.records.drop l.read).map queued := by
    rw [inOrder.keeps.records, List.drop_left, List.nil_append]
  have itself : p.backend.SameAttributes (Direct.mk p.container p.disk p.backend).backend := fun _ _ => rfl
  refine ⟨(mergedFrom_collect yields h.steady h.steady itself _ _ left).1, fun batch answered clean => ?_⟩
  obtain ⟨-, still, -⟩ := Direct.enqueueAll_spec steady ((delivered shipments).map Queued.op)
  rw [unended]
  exact (mergedFrom_collect yields h.steady still (h.keeps clean) _ _ left).2 batch answered

/-- The consumer collects a batch. -/
theorem Mirrors.collect (h : Mirrors t p shipments flight) (steady : t.backend.Steady)
    (inOrder : p.InOrder l shipments flight) {retries : Nat} (hp : p.consumer.phase = .collecting retries)
    (now : Nat) {more : List Shipment}
    (inOrder' : (p.collectSection service now retries).InOrder l' (shipments ++ more) flight')
    (ended : more.map Shipment.ended = (endedCollecting? (p.collectNext service).result).toList)
    (records : l'.records = l.records) :
    Mirrors t (p.collectSection service now retries) (shipments ++ more) flight' := by
  obtain ⟨backend, merged⟩ := h.collectNext steady inOrder hp
  have idles {p' : Background MemoryBackend} (nothing : more = []) (idles : p.Idles p')
      (inOrder' : p'.InOrder l' (shipments ++ more) flight') :
      Mirrors t p' (shipments ++ more) flight' := by
    subst nothing
    rw [List.append_nil] at inOrder' ⊢
    exact h.idles_step inOrder inOrder' records idles
  unfold collectSection at inOrder' ⊢
  dsimp only at inOrder' ⊢
  have container : (p.withCollected (p.collectNext service)).container = p.container := rfl
  replace backend : (p.withCollected (p.collectNext service)).backend = p.backend := backend
  generalize (p.collectNext service).result = result at merged ended inOrder' ⊢
  generalize p.withCollected (p.collectNext service) = q at container backend inOrder' ⊢
  rcases result with e | _ | batch
  · have none_ended := List.map_eq_nil_iff.1 ended
    cases e with
    | backend e =>
      unfold takeUp at inOrder' ⊢
      dsimp only at inOrder' ⊢
      by_cases again : e.isRetryable = true
      · rw [if_pos again] at inOrder' ⊢
        exact idles none_ended (idles_retry container backend now retries) inOrder'
      · rw [if_neg again] at inOrder' ⊢
        exact idles none_ended (idles_goTo container backend rfl) inOrder'
    | _ => exact idles none_ended (idles_goTo container backend rfl) inOrder'
  · exact idles (List.map_eq_nil_iff.1 ended) (idles_goTo container backend rfl) inOrder'
  · have merged := merged batch rfl
    unfold takeUp at inOrder' ⊢
    unfold endedCollecting? at ended
    dsimp only at ended inOrder' ⊢
    by_cases nothing : batch.bundle.length = 0
    · rw [if_pos nothing] at ended inOrder' ⊢
      obtain ⟨x, rfl, x_ended⟩ := List.map_eq_singleton_iff.1 ended
      refine h.ends steady nofun container ?_ ?_ fun clean => ?_
      · show q.backend.Steady
        rw [backend]
        exact h.steady
      · have empty : x.ended.batch.bundle.operations = [] := by
          rw [x_ended, ← List.length_eq_zero_iff, Bundle.length_operations, nothing]
        show q.backend.store = p.backend.store.applyAll _ x.ended.batch.bundle.operations
        rw [empty, backend]
        rfl
      · rw [inOrder'.keeps.run_eq, records, x_ended]
        exact merged clean
    · rw [if_neg nothing] at ended inOrder' ⊢
      obtain rfl := List.map_eq_nil_iff.1 ended
      rw [List.append_nil] at inOrder' ⊢
      refine ⟨container.trans h.container, ?_, fun clean => ?_, fun clean batch' unsent => ?_⟩
      · show q.backend.Steady
        rw [backend]
        exact h.steady
      · show q.backend.SameAttributes _
        rw [backend]
        exact h.keeps clean
      · obtain rfl : batch = batch' := Option.some.inj unsent
        obtain ⟨covers, -⟩ := inOrder'.covers_unsent unsent
        rw [inOrder'.keeps.flight_eq covers, records]
        exact merged clean

/-- The service takes the batch in flight. -/
theorem Mirrors.answer (h : Mirrors t p shipments flight) (steady : t.backend.Steady)
    (inOrder : p.InOrder l shipments flight) {batch : Batch} {retries deadline : Nat}
    (hp : p.consumer.phase = .awaiting batch retries deadline) (now : Nat) {more : List Shipment}
    (inOrder' : (p.answerSection service now batch retries).InOrder l' (shipments ++ more) flight')
    (ended : more.map Shipment.ended = (p.endedAnswering? service batch).toList)
    (records : l'.records = l.records) :
    Mirrors t (p.answerSection service now batch retries) (shipments ++ more) flight' := by
  have unsent : p.consumer.phase.unsent? = some batch := by rw [hp]; rfl
  obtain ⟨covers, -⟩ := inOrder.covers_unsent unsent
  have taken : service.answer p.backend p.container batch.bundle = _ :=
    h.steady.answer p.container batch.bundle
  unfold endedAnswering? at ended
  rw [taken] at ended
  obtain ⟨x, rfl, x_ended⟩ := List.map_eq_singleton_iff.1 ended
  have run : x.run = flight := by
    rw [inOrder'.keeps.run_eq, inOrder.keeps.flight_eq covers, records, x_ended]
  unfold answerSection
  rw [taken]
  refine h.ends steady nofun rfl (h.steady.take _ _) ?_ fun clean => ?_
  · rw [x_ended]
    rfl
  · rw [run, x_ended]
    exact h.inFlight clean batch unsent

/-- **A section of the consumer.** -/
theorem Mirrors.step (h : Mirrors t p shipments flight) (steady : t.backend.Steady)
    (inOrder : p.InOrder l shipments flight) (now : Nat) {more : List Shipment}
    (inOrder' : (p.step service now).InOrder l' (shipments ++ more) flight')
    (ended : more.map Shipment.ended = (p.endedStep? service now).toList)
    (records : l'.records = l.records) :
    Mirrors t (p.step service now) (shipments ++ more) flight' := by
  have idles (nothing : p.endedStep? service now = none) (idles : p.Idles (p.step service now)) :
      Mirrors t (p.step service now) (shipments ++ more) flight' := by
    rw [nothing] at ended
    obtain rfl := List.map_eq_nil_iff.1 ended
    rw [List.append_nil] at inOrder' ⊢
    exact h.idles_step inOrder inOrder' records idles
  cases ready : p.readiness now with
  | waits _ | gone =>
    have still : p.step service now = p := by simp only [Background.step, ready]
    refine idles (by simp only [endedStep?, ready]) ?_
    rw [still]
    exact idles_refl p
  | ready =>
    cases hp : p.consumer.phase with
    | collecting retries =>
      have section_eq : p.step service now = p.collectSection service now retries := by
        simp only [Background.step, ready, hp]
      simp only [endedStep?, ready, hp] at ended
      rw [section_eq] at inOrder' ⊢
      exact h.collect steady inOrder hp now inOrder' ended records
    | awaiting batch retries deadline =>
      have section_eq : p.step service now = p.answerSection service now batch retries := by
        simp only [Background.step, ready, hp]
      simp only [endedStep?, ready, hp] at ended
      rw [section_eq] at inOrder' ⊢
      exact h.answer steady inOrder hp now inOrder' ended records
    | _ =>
      refine idles (by simp only [endedStep?, ready, hp]) (p.idles_step now ?_ ?_)
      · simp [hp]
      · simp [hp]

end Background

end Outbox
