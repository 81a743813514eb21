import Outbox.Proofs.Delivery.Consuming

/-!
# Delivery in order

However the sections of producers, of the consumer and of stops follow each other, and whatever the
service answers, records are delivered in the order in which they were put, and nothing is
acknowledged that did not end in some batch.

* `inOrder_create` says that the invariant holds in the beginning, and `InOrder.run` that it goes on
  to hold;
* `InOrder.rests` says that a consumer that has come to an end acknowledges nothing more;
* `delivers` is the result.
-/

namespace Outbox

theorem not_isOurs_metadataName : ¬ Queue.IsOurs metadataName := by
  rintro (ack | ⟨id, segment⟩)
  · exact absurd ack (by decide)
  · have text := congrArg String.toList segment
    simp [segmentName, metadataName] at text

/-! ## Accounts -/

namespace Accounts

variable {endings : List Ended} {records : List (Record Operation)} {shipments : List Shipment}

/-- The versions in batches go up, within a batch and from one batch to the next. -/
theorem ascending (h : Accounts endings records shipments) :
    (shipments.flatMap Shipment.versions).Pairwise (· < ·) := by
  have versions : shipments.flatMap Shipment.versions =
      (delivered shipments).map Queued.version := List.map_flatMap.symm
  rw [versions, h.consecutive]
  exact List.pairwise_lt_range'

theorem version_mem (h : Accounts endings records shipments) {x : Shipment} (mem : x ∈ shipments) :
    x.ended.batch.version ∈ x.versions := by
  have last := (h.covers x mem).version
  rw [Option.map_eq_some_iff] at last
  obtain ⟨r, hr, version⟩ := last
  exact List.mem_map.2 ⟨r, List.mem_of_getLast? hr, version⟩

/-- Batches end in the order of their versions. -/
theorem ordered (h : Accounts endings records shipments) :
    endings.Pairwise fun e e' => e.batch.version < e'.batch.version := by
  rw [← h.ended, List.pairwise_map]
  refine (List.pairwise_flatMap.1 h.ascending).2.imp_of_mem fun {x y} hx hy less => ?_
  exact less _ (h.version_mem hx) _ (h.version_mem hy)

/-- A version in some batch is in no other one. -/
theorem unique (h : Accounts endings records shipments) {v : Nat} (one : 1 ≤ v)
    (upTo : v ≤ (delivered shipments).length) :
    ∃ (i : Nat) (x : Shipment), shipments[i]? = some x ∧ v ∈ x.versions ∧
      ∀ (j : Nat) (y : Shipment), shipments[j]? = some y → v ∈ y.versions → j = i := by
  have covered : v ∈ (delivered shipments).map Queued.version := by
    rw [h.consecutive, List.mem_range'_1]
    omega
  obtain ⟨r, mem, rfl⟩ := List.mem_map.1 covered
  obtain ⟨x, hx, inside⟩ := List.mem_flatMap.1 mem
  obtain ⟨i, found⟩ := List.getElem?_of_mem hx
  have member : r.version ∈ x.versions := List.mem_map.2 ⟨r, inside, rfl⟩
  have apart := (List.pairwise_flatMap.1 h.ascending).2
  rw [List.pairwise_iff_getElem] at apart
  refine ⟨i, x, found, member, ?_⟩
  intro j y found' member'
  obtain ⟨hi, rfl⟩ := List.getElem?_eq_some_iff.1 found
  obtain ⟨hj, rfl⟩ := List.getElem?_eq_some_iff.1 found'
  rcases Nat.lt_trichotomy i j with before | same | behind
  · exact absurd (apart i j hi hj before _ member _ member') (Nat.lt_irrefl _)
  · exact same.symm
  · exact absurd (apart j i hj hi behind _ member' _ member) (Nat.lt_irrefl _)

/-- No batch is accepted twice. -/
theorem once (h : Accounts endings records shipments) :
    (endings.filterMap Ended.accepted?).Nodup := by
  have batch_of {e : Ended} {batch : Batch} (accepted : e.accepted? = some batch) :
      e.batch = batch := by
    unfold Ended.accepted? at accepted
    split at accepted
    · exact Option.some.inj accepted
    · cases accepted
  refine List.Pairwise.filterMap Ended.accepted? ?_ h.ordered
  intro e e' less batch accepted batch' accepted' same
  rw [batch_of accepted, batch_of accepted', same] at less
  exact Nat.lt_irrefl _ less

end Accounts

namespace Background

variable {σ : Type} {b : Backend σ} {p : Background σ} {l : ListQueue Operation}
  {shipments : List Shipment} {flight : List Queued}

theorem Keeps.accounts (h : p.Keeps l shipments flight) :
    Accounts (shipments.map Shipment.ended) l.records shipments where
  ended := rfl
  covers := h.covers
  first := ⟨_, h.records.symm⟩
  consecutive := by
    apply List.ext_getElem (by simp)
    intro i inside inside'
    rw [List.length_map] at inside
    have lengths := congrArg List.length h.records
    simp only [List.length_map, List.length_append] at lengths
    have here : i < l.records.length := by omega
    have same : (l.records.map queued)[i]? = (delivered shipments)[i]? := by
      rw [h.records, List.getElem?_append_left inside]
    rw [List.getElem?_eq_getElem inside, List.getElem?_map, List.getElem?_eq_getElem here,
      Option.map_some, Option.some.injEq] at same
    have version := h.numbered (List.getElem?_eq_getElem here)
    rw [List.getElem_map, List.getElem_range', ← same]
    show (l.records[i]).version = _
    rw [version]
    omega

/-- Never more is acknowledged than ended. -/
theorem InOrder.acked_le (h : p.InOrder l shipments flight) :
    l.acked ≤ (delivered shipments).length := by
  have fits := h.phase
  generalize p.consumer.phase = ph at fits
  cases ph with
  | acknowledging => exact fits.2.2
  | publishing => exact Nat.le_of_eq fits.2.2
  | ending | ended => exact Nat.le_of_eq fits
  | backingOff deadline next => cases next <;> exact Nat.le_of_eq fits.2
  | _ => exact Nat.le_of_eq fits.2

/-! ## The beginning -/

/-- An execution in a new folder begins in order. -/
theorem inOrder_create {d d' : Disk} {s : σ} {c : Container} {settings : BackgroundSettings}
    {wall process now : Nat} (created : create d s c settings wall process now = (d', .ok p))
    (blank : ∀ d₁ e, Execution.create d settings.dataDir c wall process = (d₁, .ok e) →
      d₁.Blank e.place) : p.InOrder .empty [] [] := by
  unfold create at created
  rcases he : Execution.create d settings.dataDir c wall process with ⟨d₁, _ | execution⟩
  · rw [he] at created
    cases created
  · have empty := blank d₁ execution he
    have made : d₁.makeFolders? execution.place = some d₁ := by
      rw [Disk.makeFolders?, if_pos empty.tidy.isFolder]
    obtain ⟨d₂, q, opened, holds, folder⟩ :=
      holds_create (α := Operation) made empty settings.maxSegment
    simp only [he, opened] at created
    rcases hw : execution.writeMetadata d₂ .async c wall with ⟨d₃, _ | metadata⟩
    · rw [hw] at created
      cases created
    · rw [hw] at created
      cases created
      have holds' : StoredQueue.Holds ⟨d', q⟩ (.empty : ListQueue Operation) := by
        unfold Execution.writeMetadata at hw
        simp only at hw
        split at hw
        · split at hw
          · cases hw
          · next d₄ written =>
            cases hw
            rw [← folder] at written
            exact holds.write not_isOurs_metadataName (by decide) (by decide) written
        · cases hw
      have acked : q.lastAck = 0 := holds.acked
      refine ⟨⟨.held holds', Nat.le_refl _, Nat.le_refl _, ?_, ?_, ?_, rfl, Nat.le_of_eq acked⟩,
        ⟨rfl, rfl⟩, .inl rfl, fun _ => rfl⟩
      · intro i r found
        cases found
      · intro r mem
        cases mem
      · intro x mem
        cases mem

/-! ## Runs -/

/-- One section. -/
theorem InOrder.after (h : p.InOrder l shipments flight) {s : Section σ} (allowed : p.Allows s) :
    ∃ l' more flight', (p.after b s).InOrder l' (shipments ++ more) flight' ∧
      more.map Shipment.ended = (p.ended? b s).toList ∧
      l'.records = l.records ++ (p.stored? s).toList ∧ l.acked ≤ l'.acked ∧
      p.control.consumed ≤ (p.after b s).control.consumed := by
  by_cases consumer : ∃ now, s = .consumer now
  · obtain ⟨now, rfl⟩ := consumer
    obtain ⟨l', more, flight', inOrder, ended, records, acked, consumed⟩ := h.step b now
    refine ⟨l', more, flight', inOrder, ended, ?_, acked, consumed⟩
    show l'.records = l.records ++ []
    rw [records, List.append_nil]
  · have other : ∀ now, s ≠ .consumer now := fun now same => consumer ⟨now, same⟩
    obtain ⟨l', inOrder, records, acked, consumed, -⟩ := h.undisturbed b other allowed
    have none_ended : p.ended? b s = none := by
      cases s with
      | consumer now => exact absurd rfl (other now)
      | _ => rfl
    refine ⟨l', [], flight, ?_, ?_, records, Nat.le_of_eq acked.symm, Nat.le_of_eq consumed.symm⟩
    · rw [List.append_nil]
      exact inOrder
    · rw [none_ended]
      rfl

/-- **The order is kept**, however many sections there are. -/
theorem InOrder.run (h : p.InOrder l shipments flight) {sections : List (Section σ)}
    (allowed : p.AllowsAll b sections) :
    ∃ l' more flight', (p.run b sections).InOrder l' (shipments ++ more) flight' ∧
      more.map Shipment.ended = p.endings b sections ∧
      l'.records = l.records ++ p.puts b sections ∧ l.acked ≤ l'.acked ∧
      p.control.consumed ≤ (p.run b sections).control.consumed := by
  induction sections generalizing p l shipments flight with
  | nil =>
    refine ⟨l, [], flight, ?_, rfl, (List.append_nil _).symm, Nat.le_refl _, Nat.le_refl _⟩
    rw [List.append_nil]
    exact h
  | cons s sections ih =>
    obtain ⟨first, rest⟩ := allowed
    obtain ⟨l₁, more₁, flight₁, inOrder₁, ended₁, records₁, acked₁, consumed₁⟩ := h.after (b := b) first
    obtain ⟨l₂, more₂, flight₂, inOrder₂, ended₂, records₂, acked₂, consumed₂⟩ := ih inOrder₁ rest
    refine ⟨l₂, more₁ ++ more₂, flight₂, ?_, ?_, ?_, Nat.le_trans acked₁ acked₂,
      Nat.le_trans consumed₁ consumed₂⟩
    · rw [← List.append_assoc]
      exact inOrder₂
    · rw [List.map_append, ended₁, ended₂]
      rfl
    · rw [records₂, records₁, List.append_assoc]
      rfl

/-- A consumer that has come to an end does nothing in a section. -/
theorem InOrder.rests_after (h : p.InOrder l shipments flight)
    (atEnd : p.consumer.phase = .ending ∨ p.consumer.phase = .ended) {s : Section σ}
    (allowed : p.Allows s) :
    ∃ l', (p.after b s).InOrder l' shipments flight ∧ l'.acked = l.acked ∧
      l'.records = l.records ++ (p.stored? s).toList ∧
      ((p.after b s).consumer.phase = .ending ∨ (p.after b s).consumer.phase = .ended) := by
  by_cases consumer : ∃ now, s = .consumer now
  · obtain ⟨now, rfl⟩ := consumer
    show ∃ l', (p.step b now).InOrder l' shipments flight ∧ l'.acked = l.acked ∧
      l'.records = l.records ++ [] ∧
      ((p.step b now).consumer.phase = .ending ∨ (p.step b now).consumer.phase = .ended)
    rcases atEnd with ending | ended
    · have last : p.step b now =
          (p.withControl fun c => { c with status := .stopped }).goTo .ended := by
        simp only [Background.step, readiness, ending]
      have fits := h.phase
      rw [ending] at fits
      rw [last]
      refine ⟨l, ?_, rfl, (List.append_nil _).symm, .inr rfl⟩
      exact h.frame rfl rfl rfl rfl (fun _ => rfl) (fun absent => Phase.noConfusion absent) fits rfl
    · have last : p.step b now = p := by
        simp only [Background.step, readiness, ended]
      rw [last]
      exact ⟨l, h, rfl, (List.append_nil _).symm, .inr ended⟩
  · have other : ∀ now, s ≠ .consumer now := fun now same => consumer ⟨now, same⟩
    obtain ⟨l', inOrder, records, acked, -, ends⟩ := h.undisturbed b other allowed
    refine ⟨l', inOrder, acked, records, ?_⟩
    rw [ends atEnd]
    exact atEnd

/-- A consumer that has come to an end does nothing more. -/
theorem InOrder.rests (h : p.InOrder l shipments flight)
    (atEnd : p.consumer.phase = .ending ∨ p.consumer.phase = .ended) {sections : List (Section σ)}
    (allowed : p.AllowsAll b sections) :
    ∃ l', (p.run b sections).InOrder l' shipments flight ∧ l'.acked = l.acked ∧
      l'.records = l.records ++ p.puts b sections := by
  induction sections generalizing p l with
  | nil => exact ⟨l, h, rfl, (List.append_nil _).symm⟩
  | cons s sections ih =>
    obtain ⟨first, rest⟩ := allowed
    obtain ⟨l₁, inOrder₁, acked₁, records₁, atEnd₁⟩ := h.rests_after (b := b) atEnd first
    obtain ⟨l₂, inOrder₂, acked₂, records₂⟩ := ih inOrder₁ atEnd₁ rest
    refine ⟨l₂, inOrder₂, acked₂.trans acked₁, ?_⟩
    rw [records₂, records₁, List.append_assoc]
    rfl

/-! ## Giving up -/

theorem InOrder.covers_unsent (h : p.InOrder l shipments flight) {batch : Batch}
    (unsent : p.consumer.phase.unsent? = some batch) :
    batch.Covers flight ∧ l.acked = (delivered shipments).length := by
  have fits := h.phase
  generalize p.consumer.phase = ph at fits unsent
  cases ph with
  | sending | awaiting =>
    cases unsent
    exact fits
  | backingOff deadline next =>
    cases next with
    | collect => cases unsent
    | send =>
      cases unsent
      exact fits
  | _ => cases unsent

/-- A batch that was not sent does not end with the consumer. -/
theorem endedStep?_eq_none {batch : Batch} (unsent : p.consumer.phase.unsent? = some batch) {now : Nat}
    (ending : (p.step b now).consumer.phase = .ending) : p.endedStep? b now = none := by
  unfold endedStep?
  unfold Background.step at ending
  cases hr : p.readiness now with
  | waits _ | gone => rfl
  | ready =>
    cases hp : p.consumer.phase with
    | awaiting batch' retries deadline =>
      simp only [hr, hp, answerSection] at ending
      simp only [endedAnswering?]
      generalize b.answer p.backend p.container batch'.bundle = answer at ending ⊢
      rcases answer with ⟨s, e | receipt⟩
      · simp only at ending ⊢
        by_cases retryable : e.isRetryable = true
        · rw [if_pos retryable]
        · rw [if_neg retryable] at ending
          cases ending
      · cases ending
    | collecting retries =>
      rw [hp] at unsent
      cases unsent
    | _ => rfl

/-- **What the consumer gives up stays in the queue.** The batch in flight is not acknowledged then or
later, and is followed by all records behind it. -/
theorem InOrder.givenUp (h : p.InOrder l shipments flight) {batch : Batch}
    (unsent : p.consumer.phase.unsent? = some batch) {now : Nat}
    (ending : (p.step b now).consumer.phase = .ending) {back : List (Section σ)}
    (allowed : (p.step b now).AllowsAll b back) :
    ∃ l', ((p.step b now).run b back).Stores l' ∧ l'.acked = l.acked ∧ l'.acked < batch.version ∧
      l'.records = l.records ++ (p.step b now).puts b back ∧
      ∃ run rest, batch.Covers run ∧ (l'.records.drop l'.acked).map queued = run ++ rest := by
  obtain ⟨covers, acked⟩ := h.covers_unsent unsent
  have version := h.keeps.version_flight covers
  have positive : 0 < flight.length := List.length_pos_iff.2 covers.nonempty
  obtain ⟨l₁, more, flight₁, inOrder₁, ended, records₁, -, -⟩ := h.step b now
  rw [endedStep?_eq_none unsent ending] at ended
  obtain rfl : more = [] := List.map_eq_nil_iff.1 ended
  rw [List.append_nil] at inOrder₁
  have acked₁ : l₁.acked = (delivered shipments).length := by
    have fits := inOrder₁.phase
    rwa [ending] at fits
  obtain ⟨l₂, inOrder₂, acked₂, records₂⟩ := inOrder₁.rests (.inl ending) allowed
  rw [records₁] at records₂
  have still : l₂.acked = l.acked := acked₂.trans (acked₁.trans acked.symm)
  refine ⟨l₂, inOrder₂.keeps.stores, still, by omega, records₂, flight, ?_⟩
  refine ⟨p.consumer.stash.toList ++ (l.records.drop l.read).map queued ++
    ((p.step b now).puts b back).map queued, covers, ?_⟩
  have inside : l.acked ≤ (l.records.map queued).length := by
    have := h.keeps.acked_le
    have := h.keeps.read_le
    rw [List.length_map]
    omega
  rw [still, records₂, List.map_drop, List.map_append, List.drop_append_of_le_length inside,
    h.keeps.records, acked, List.drop_left]
  simp only [List.append_assoc]

/-! ## The result -/

/-- Whoever opens the queue later reads what is not acknowledged. -/
theorem Stores.readable (h : p.Stores l) (some_left : l.records.drop l.acked ≠ []) (maxSize n : Nat) :
    ∃ d' q', Queue.openIn (p.queue.drop p.disk) p.queue.folder maxSize = (d', .ok q') ∧
      (q'.getUpTo (α := Operation) d' n).result =
        .ok (((l.records.drop l.acked).take n).map ListQueue.element) := by
  cases h with
  | held holds =>
    obtain ⟨d₁, q₁, opened, holds₁, -⟩ := holds.reopen maxSize
    obtain ⟨d₂, q₂, got, -⟩ := holds₁.getUpTo n
    exact ⟨d₁, q₁, opened, congrArg Outcome.result got⟩
  | removed _ _ _ _ all =>
    rw [all, List.drop_length] at some_left
    exact absurd rfl some_left

/-- The versions go up with any sections. -/
theorem InOrder.monotone (h : p.InOrder l shipments flight) {front back : List (Section σ)}
    (allowed : p.AllowsAll b (front ++ back)) :
    (p.run b front).control.consumed ≤ (p.run b (front ++ back)).control.consumed ∧
    (p.run b front).queue.lastAck ≤ (p.run b (front ++ back)).queue.lastAck ∧
    (p.run b front).queue.lastPut ≤ (p.run b (front ++ back)).queue.lastPut := by
  obtain ⟨first, rest⟩ := allowsAll_append.1 allowed
  obtain ⟨l₁, _, _, inOrder₁, -, -, -, -⟩ := h.run first
  obtain ⟨l₂, _, _, inOrder₂, -, records₂, acked, consumed⟩ := inOrder₁.run rest
  have stores₁ := inOrder₁.keeps.stores
  have stores₂ := inOrder₂.keeps.stores
  rw [run_append, stores₁.lastAck, stores₂.lastAck, stores₁.lastPut, stores₂.lastPut]
  refine ⟨consumed, acked, ?_⟩
  rw [records₂, List.length_append]
  exact Nat.le_add_right _ _

/-- What is promised holds wherever delivery begins in order. -/
theorem InOrder.keepsPromises (h : p.InOrder .empty [] []) {sections : List (Section σ)}
    (allowed : p.AllowsAll b sections) : p.Delivers b sections := by
  obtain ⟨l, shipments, flight, inOrder, ended, records, -, -⟩ := h.run allowed
  rw [List.nil_append] at inOrder
  have records : l.records = p.puts b sections := records
  have stores := inOrder.keeps.stores
  have accounts : Accounts (p.endings b sections) (p.puts b sections) shipments := by
    rw [← ended, ← records]
    exact inOrder.keeps.accounts
  have unacked_eq : p.unacked b sections = l.records.drop l.acked := by
    rw [unacked, stores.lastAck, records]
  refine
    { accounted := ⟨shipments, accounts, fun v one upTo => accounts.unique one ?_⟩
      ordered := accounts.ordered
      once := accounts.once
      consumed_le := ?_
      acked_le := ?_
      put := ?_
      monotone := ?_
      readable := ?_
      givenUp := ?_ }
  · have := inOrder.acked_le
    have := stores.lastAck
    omega
  · rw [stores.lastAck]
    exact inOrder.keeps.consumed
  · rw [stores.lastAck, stores.lastPut]
    exact Nat.le_trans inOrder.keeps.acked_le inOrder.keeps.read_le
  · rw [stores.lastPut, records]
  · rintro front back rfl
    exact h.monotone allowed
  · intro some_left maxSize n
    rw [unacked_eq] at some_left ⊢
    exact stores.readable some_left maxSize n
  · rintro front back now batch rfl unsent ending
    obtain ⟨first, rest⟩ := allowsAll_append.1 allowed
    obtain ⟨l₁, _, _, inOrder₁, -, records₁, -, -⟩ := h.run first
    obtain ⟨l₂, stores₂, acked, below, records₂, run, later, covers, split⟩ :=
      inOrder₁.givenUp unsent ending rest.2
    have same : p.run b (front ++ .consumer now :: back) =
        ((p.run b front).step b now).run b back := run_append front _
    rw [unacked, same, stores₂.lastAck, inOrder₁.keeps.stores.lastAck, puts_append]
    refine ⟨acked, below, run, later, covers, ?_⟩
    have all : p.puts b front ++ (p.run b front).puts b (.consumer now :: back) = l₂.records := by
      rw [records₂, records₁]
      rfl
    rw [all]
    exact split

/-- **Delivery is in order and acknowledges only what ended.** An execution that begins in a new folder
keeps the promises of `Delivers` whatever happens to it: in every order of the sections of a producer,
of the consumer and of pauses and stops, for all bounds of batches and numbers of attempts, and for a
service that answers as it likes. -/
theorem delivers {d d' : Disk} {s : σ} {c : Container} {settings : BackgroundSettings}
    {wall process now : Nat} (created : create d s c settings wall process now = (d', .ok p))
    (blank : ∀ d₁ e, Execution.create d settings.dataDir c wall process = (d₁, .ok e) →
      d₁.Blank e.place) {sections : List (Section σ)} (allowed : p.AllowsAll b sections) :
    p.Delivers b sections :=
  (inOrder_create created blank).keepsPromises allowed

/-- A service that is reached from the second attempt on. Its state counts the attempts. -/
def secondAttempt : Backend Nat where
  begin n := (n, 3)
  answer
    | 0, _, _ => (1, .error (.connection "refused"))
    | n + 1, _, batch => (n + 2, .ok ⟨batch.length, []⟩)
  fetch n _ := (n, .error (.other "nothing there"))

/-- Short times and batches of one operation. -/
def shortSettings : BackgroundSettings :=
  ⟨"data", 1000, ⟨1, 1, 1⟩, 0, 1, 1000, 1000, 1000, 1000⟩

/-- The attribute of a name is deleted. -/
def forget (name : String) : Operation :=
  ⟨.single name, .delete⟩

/-- An operation is enqueued and sent for the first time. -/
def enqueueAndSend : List (Section Nat) :=
  [.put 5 (forget "a"), .publish 1 false, .start 0, .consumer 0, .consumer 0, .consumer 0, .consumer 0]

/-- Before there is an answer, another one is enqueued. After the second attempt the consumer is
interrupted. -/
def enqueueAndInterrupt : List (Section Nat) :=
  [.put 6 (forget "b"), .publish 2 true, .consumer 3000000, .consumer 4000000, .consumer 4000000,
    .consumer 8000000, .consumer 8000000, .consumer 8000000, .interrupt, .consumer 8000000,
    .consumer 8000000, .markStopped]

/-- An execution is there if something is found of it. -/
theorem exists_created {σ β : Type} {d : Disk} {s : σ} {c : Container} {settings : BackgroundSettings}
    {wall process now : Nat} {fact : Background σ → β} {found : β}
    (facts : (create d s c settings wall process now).2.toOption.map fact = some found) :
    ∃ d' p, create d s c settings wall process now = (d', .ok p) ∧ fact p = found := by
  rcases created : create d s c settings wall process now with ⟨d', e | p⟩
  · rw [created] at facts
    cases facts
  · rw [created] at facts
    exact ⟨d', p, rfl, Option.some.inj facts⟩

theorem blank_shortSettings {d : Disk} {e : Execution}
    (made : Execution.create Disk.empty shortSettings.dataDir ⟨"RUN-1", .run⟩ 5 1 = (d, .ok e)) :
    d.Blank e.place := by
  have execution : (Execution.create Disk.empty shortSettings.dataDir ⟨"RUN-1", .run⟩ 5 1).2.toOption =
      some ⟨"data/run__RUN-1/exec-5-1", ["data", "run__RUN-1", "exec-5-1"]⟩ := by decide +kernel
  have disk : d = (Execution.create Disk.empty shortSettings.dataDir ⟨"RUN-1", .run⟩ 5 1).1 :=
    (congrArg Prod.fst made).symm
  rw [made] at execution
  obtain rfl : e = _ := Option.some.inj execution
  rw [disk]
  exact Disk.blank_of_children_eq_nil (by decide +kernel) (by decide +kernel) (by decide +kernel)

/-- The first operation is sent and acknowledged; the second one stays in the queue. -/
theorem delivers_enqueueAndInterrupt :
    ∃ d' p, create Disk.empty 0 ⟨"RUN-1", .run⟩ shortSettings 5 1 0 = (d', .ok p) ∧
      p.Delivers secondAttempt (enqueueAndSend ++ enqueueAndInterrupt) ∧
      (p.run secondAttempt (enqueueAndSend ++ enqueueAndInterrupt)).queue.lastAck = 1 := by
  have facts : (create Disk.empty 0 ⟨"RUN-1", .run⟩ shortSettings 5 1 0).2.toOption.map
      (fun p => (p.queue.lastPut, (p.run secondAttempt enqueueAndSend).queue.lastPut,
        ((p.run secondAttempt enqueueAndSend).run secondAttempt
          (enqueueAndInterrupt.take 11)).control.status,
        (p.run secondAttempt (enqueueAndSend ++ enqueueAndInterrupt)).queue.lastAck)) =
      some (0, 1, .stopped, 1) := by decide +kernel
  rcases hc : create Disk.empty 0 ⟨"RUN-1", .run⟩ shortSettings 5 1 0 with ⟨d', e | p⟩
  · rw [hc] at facts
    cases facts
  · rw [hc] at facts
    simp only [Except.toOption, Option.map_some, Option.some.injEq, Prod.mk.injEq] at facts
    obtain ⟨lastPut, lastPut', status, lastAck⟩ := facts
    have first : Record.Durable ⟨forget "a", p.queue.lastPut + 1, 5⟩ := by
      rw [lastPut]
      exact ⟨by decide +kernel, by decide +kernel⟩
    have second : Record.Durable ⟨forget "b",
        (p.run secondAttempt enqueueAndSend).queue.lastPut + 1, 6⟩ := by
      rw [lastPut']
      exact ⟨by decide +kernel, by decide +kernel⟩
    have spares (name : String) (folder : Place) : (forget name).Spares folder :=
      fun _ _ upload => Mutation.noConfusion upload
    have atEnd : ((p.run secondAttempt enqueueAndSend).run secondAttempt
        (enqueueAndInterrupt.take 11)).control.status.isAlive = false := by
      rw [status]
      rfl
    have allowed : p.AllowsAll secondAttempt (enqueueAndSend ++ enqueueAndInterrupt) :=
      allowsAll_append.2 ⟨⟨⟨fun _ => first, spares _ _⟩, trivial, trivial, trivial, trivial, trivial,
        trivial, trivial⟩, ⟨fun _ => second, spares _ _⟩, trivial, trivial, trivial, trivial, trivial,
        trivial, trivial, trivial, trivial, trivial, atEnd, trivial⟩
    exact ⟨d', p, rfl, delivers hc (fun _ _ => blank_shortSettings) allowed, lastAck⟩

end Background

end Outbox
