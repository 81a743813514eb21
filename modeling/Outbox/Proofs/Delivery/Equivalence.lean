import Outbox.Proofs.Delivery.Blocking
import Outbox.Proofs.Delivery.Mirroring

/-!
# Delivery in the background and one by one

However the sections of delivery in the background follow each other, a service in memory goes on to keep
what it would keep had the delivered records been sent one by one, with their moments in whole milliseconds:
delivery in the background goes by way of a queue, which keeps no finer ones. An operation that cannot be
decoded takes no part in this: nothing behind it is ever acknowledged.

* `Mirrors.after` keeps the invariant through any section, unless delivery is blocked, and `Mirrors.run`
  through any number of them;
* `Background.sameAttributes_direct` is the result;
* `Background.differs_direct` is why batches must not clear what they made, and why moments are cut.
-/

namespace Outbox

open MemoryBackend (service Steady SameAttributes)

namespace Background

variable {t : Direct MemoryBackend} {p : Background MemoryBackend} {l : ListQueue Operation}
  {shipments : List Shipment} {flight : List Queued}

/-! ## Runs -/

/-- **Any section**, unless it blocks delivery. -/
theorem Mirrors.after (h : Mirrors t p shipments flight) (steady : t.backend.Steady)
    (inOrder : p.InOrder l shipments flight) {s : Section MemoryBackend} (permitted : p.Permits s)
    (alone : ∀ m, s ≠ .service m) : (p.after service s).Blocked ∨
    ∃ l' more flight', (p.after service s).InOrder l' (shipments ++ more) flight' ∧
      Mirrors t (p.after service s) (shipments ++ more) flight' ∧
      more.map Shipment.ended = (p.ended? service s).toList ∧
      l'.records = l.records ++ (p.stored? s).toList := by
  by_cases consumer : ∃ now, s = .consumer now
  · obtain ⟨now, rfl⟩ := consumer
    obtain ⟨l', more, flight', inOrder', ended, records, -⟩ := inOrder.step service now
    refine .inr ⟨l', more, flight', inOrder', ?_, ended, records.trans (List.append_nil _).symm⟩
    exact h.step steady inOrder now inOrder' ended records
  · have other : ∀ now, s ≠ .consumer now := fun now same => consumer ⟨now, same⟩
    have none_ended : p.ended? service s = none := by
      cases s with
      | consumer now => exact absurd rfl (other now)
      | _ => rfl
    rcases inOrder.permitted service other permitted with blocked | ⟨l', inOrder', records⟩
    · exact .inl blocked
    · refine .inr ⟨l', [], flight, ?_, ?_, by rw [none_ended]; rfl, records⟩
      · rw [List.append_nil]
        exact inOrder'
      · rw [List.append_nil]
        exact h.idles (p.idles_after other alone) fun _ _ => rfl

/-- However many sections there are. -/
theorem Mirrors.run (h : Mirrors t p shipments flight) (steady : t.backend.Steady)
    (inOrder : p.InOrder l shipments flight) {sections : List (Section MemoryBackend)}
    (permitted : p.PermitsAll service sections) (alone : ∀ m, .service m ∉ sections) :
    (p.run service sections).Blocked ∨
    ∃ l' more flight', (p.run service sections).InOrder l' (shipments ++ more) flight' ∧
      Mirrors t (p.run service sections) (shipments ++ more) flight' ∧
      more.map Shipment.ended = p.endings service sections ∧
      l'.records = l.records ++ p.puts service sections := by
  induction sections generalizing p l shipments flight with
  | nil =>
    refine .inr ⟨l, [], flight, ?_, ?_, rfl, (List.append_nil _).symm⟩
    · rw [List.append_nil]
      exact inOrder
    · rw [List.append_nil]
      exact h
  | cons s sections ih =>
    obtain ⟨first, rest⟩ := permitted
    rcases h.after steady inOrder first fun m same => alone m (same ▸ List.mem_cons_self) with
      blocked | ⟨l₁, more₁, flight₁, inOrder₁, mirrors₁, ended₁, records₁⟩
    · exact .inl (blocked.run rest)
    · rcases ih mirrors₁ inOrder₁ rest fun m mem => alone m (List.mem_cons_of_mem _ mem) with
        blocked | ⟨l₂, more₂, flight₂, inOrder₂, mirrors₂, ended₂, records₂⟩
      · exact .inl blocked
      · rw [List.append_assoc] at inOrder₂ mirrors₂
        refine .inr ⟨l₂, more₁ ++ more₂, flight₂, inOrder₂, mirrors₂, ?_, ?_⟩
        · rw [List.map_append, ended₁, ended₂]
          rfl
        · rw [records₂, records₁, List.append_assoc]
          rfl

/-! ## The result -/

theorem create_spec {d d' : Disk} {s : MemoryBackend} {c : Container} {settings : BackgroundSettings}
    {wall process now : Nat} (created : create d s c settings wall process now = (d', .ok p)) :
    p.container = c ∧ p.backend = s ∧ p.consumer.phase = .absent := by
  unfold create at created
  split at created
  · cases created
  · split at created
    · cases created
    · split at created
      · cases created
      · cases created
        exact ⟨rfl, rfl, rfl⟩

/-- **Delivery in the background is as good as one by one.** An execution begins in a new folder, with a
service in memory for which no failures are arranged, and then the sections of producers, of the consumer
and of pauses and stops follow each other in any order, for all bounds of batches and whatever is enqueued.
Once everything is acknowledged, the service keeps what it would keep had the operations that were enqueued
been sent one by one, each with its moment in whole milliseconds: if no batch reported anything, and no batch
cleared what it made itself. -/
theorem sameAttributes_direct {d d' : Disk} {s : MemoryBackend} {c : Container}
    {settings : BackgroundSettings} {wall process now : Nat}
    (created : create d s c settings wall process now = (d', .ok p))
    (blank : ∀ d₁ e, Execution.create d settings.dataDir c wall process = (d₁, .ok e) →
      d₁.Blank e.place) (steady : s.Steady) {sections : List (Section MemoryBackend)}
    (permitted : p.PermitsAll service sections) (alone : ∀ m, .service m ∉ sections)
    (quiet : ∀ e ∈ p.endings service sections, e.batch.bundle.errors = [])
    (leaves : LeavesOwn ⟨c, d, s⟩
      (runsOf (p.endings service sections) ((p.enqueued service sections).map Operation.cut)))
    (all : (p.run service sections).queue.lastAck = (p.run service sections).queue.lastPut) :
    (p.run service sections).backend.SameAttributes
      ((Direct.mk c d s).enqueueAll service ((p.enqueued service sections).map Operation.cut)).backend := by
  obtain ⟨container, backend, absent⟩ := create_spec created
  have start : Mirrors ⟨c, d, s⟩ p [] [] := by
    refine ⟨container, backend ▸ steady, fun _ _ _ => by rw [backend]; rfl, fun _ batch unsent => ?_⟩
    rw [absent] at unsent
    cases unsent
  obtain ⟨l, shipments, flight, inOrder, mirrors, ended, records⟩ :=
    (start.run steady (inOrder_create created blank) permitted alone).resolve_left
      fun blocked => absurd all (Nat.ne_of_lt blocked.behind)
  rw [List.nil_append] at inOrder mirrors
  have records : l.records = p.puts service sections := records
  have keeps := inOrder.keeps
  -- everything was delivered, so direct delivery is at the same point
  have everything : l.records.map queued = delivered shipments := by
    have lengths := congrArg List.length keeps.records
    have acked := inOrder.acked_le
    have lastAck := keeps.stores.lastAck
    have lastPut := keeps.stores.lastPut
    rw [List.length_append, List.length_map] at lengths
    have nothing : (flight ++ ((p.run service sections).consumer.stash.toList ++
        (l.records.drop l.read).map queued)).length = 0 := by omega
    rw [keeps.records, List.length_eq_zero_iff.1 nothing, List.append_nil]
  have ops : (p.enqueued service sections).map Operation.cut = (delivered shipments).map Queued.op := by
    rw [← p.obj_puts service sections, ← records, ← everything, List.map_map]
    rfl
  have runs := runsOf_ended keeps.covers []
  rw [List.append_nil] at runs
  rw [← ended, ops, runs] at leaves
  rw [ops]
  refine mirrors.keeps ⟨fun x mem => ?_, leaves⟩
  exact quiet x.ended (ended ▸ List.mem_map_of_mem mem)

/-- Operations are enqueued, and delivered in one batch. -/
def enqueueAndDeliver (ops : List Operation) : List (Section MemoryBackend) :=
  ops.map (.put 5) ++ .start 0 :: List.replicate 7 (.consumer 0)

/-- A few operations that hand over no file may be enqueued. -/
theorem permitsAll_enqueueAndDeliver {d' : Disk} (created : create Disk.empty MemoryBackend.empty
      ⟨"RUN-1", .run⟩ shortSettings 5 1 0 = (d', .ok p)) {ops : List Operation} (few : ops.length ≤ 3)
    (spares : ∀ op ∈ ops, op.Spares p.queue.folder) : p.PermitsAll service (enqueueAndDeliver ops) := by
  have lastPut : (create Disk.empty MemoryBackend.empty ⟨"RUN-1", .run⟩ shortSettings 5 1 0).2.toOption.map
      (fun p => p.queue.lastPut) = some 0 := by decide +kernel
  rw [created] at lastPut
  replace lastPut : p.queue.lastPut = 0 := Option.some.inj lastPut
  have puts : p.PermitsAll service (ops.map (.put 5)) := by
    refine permitsAll_puts service ⟨by decide, by decide⟩ ?_ spares
    rw [lastPut, Nat.zero_add]
    exact Nat.lt_of_le_of_lt few (by decide)
  exact permitsAll_append.2 ⟨puts, trivial, trivial, trivial, trivial, trivial, trivial, trivial, trivial,
    trivial⟩

/-- A set of strings is made, cleared and made again, each time without strings. -/
def addAgain : List Operation :=
  [⟨.single "", .addStrings []⟩, ⟨.single "", .clearStringSet⟩, ⟨.single "", .addStrings []⟩]

theorem spares_addAgain (folder : Place) : ∀ op ∈ addAgain, op.Spares folder := by
  simp only [addAgain, List.forall_mem_cons]
  refine ⟨?_, ?_, ?_, fun _ mem => absurd mem List.not_mem_nil⟩ <;>
    exact fun _ _ upload => Mutation.noConfusion upload

theorem steady_empty : MemoryBackend.empty.Steady :=
  ⟨rfl, rfl, rfl⟩

/-- The clear is no matter, because the set is made again. -/
theorem leavesOwn_addAgain :
    LeavesOwn ⟨⟨"RUN-1", .run⟩, Disk.empty, MemoryBackend.empty⟩ [addAgain] := by
  refine ⟨fun path => ?_, trivial⟩
  have sent : Direct.sent service ⟨⟨"RUN-1", .run⟩, Disk.empty, MemoryBackend.empty⟩ addAgain =
      addAgain := by decide +kernel
  rw [sent]
  by_cases here : AttributePath.single "" = path
  · have all : onPath path addAgain = addAgain.take 2 ++ [⟨.single "", .addStrings []⟩] := by
      subst here
      decide +kernel
    rw [all]
    exact not_clearsOwn_concat trivial
  · have none_there : onPath path addAgain = [] := by
      simp [onPath, addAgain, here]
    rw [none_there]
    exact not_clearsOwn_nil

/-- Both ways the set is there in the end. -/
theorem sameAttributes_direct_addAgain :
    ∃ d' p, create Disk.empty MemoryBackend.empty ⟨"RUN-1", .run⟩ shortSettings 5 1 0 = (d', .ok p) ∧
      (p.run service (enqueueAndDeliver addAgain)).backend.SameAttributes
        ((Direct.mk ⟨"RUN-1", .run⟩ Disk.empty MemoryBackend.empty).enqueueAll service
          ((p.enqueued service (enqueueAndDeliver addAgain)).map Operation.cut)).backend ∧
      (p.run service (enqueueAndDeliver addAgain)).backend.store.get? "RUN-1" (.single "") =
        some ⟨.single "", .addStrings []⟩ := by
  have facts : (create Disk.empty MemoryBackend.empty ⟨"RUN-1", .run⟩ shortSettings 5 1 0).2.toOption.map
      (fun p => ((p.endings service (enqueueAndDeliver addAgain)).map fun e => e.batch.bundle.errors,
        runsOf (p.endings service (enqueueAndDeliver addAgain))
          ((p.enqueued service (enqueueAndDeliver addAgain)).map Operation.cut),
        (p.run service (enqueueAndDeliver addAgain)).queue.lastAck,
        (p.run service (enqueueAndDeliver addAgain)).queue.lastPut,
        (p.run service (enqueueAndDeliver addAgain)).backend.store.get? "RUN-1" (.single ""))) =
      some ([[]], [addAgain], 3, 3, some ⟨.single "", .addStrings []⟩) := by decide +kernel
  obtain ⟨d', p, created, facts⟩ := exists_created facts
  simp only [Prod.mk.injEq] at facts
  obtain ⟨errors, runs, lastAck, lastPut, held⟩ := facts
  refine ⟨d', p, created, ?_, held⟩
  have permitted := permitsAll_enqueueAndDeliver created (by decide) (spares_addAgain p.queue.folder)
  refine sameAttributes_direct created (fun _ _ => blank_shortSettings) steady_empty permitted ?_
    (fun e mem => ?_) ?_ (lastAck.trans lastPut.symm)
  · simp [enqueueAndDeliver, addAgain]
  · exact List.mem_singleton.1 (errors ▸ List.mem_map_of_mem mem)
  · rw [runs]
    exact leavesOwn_addAgain

/-- Some operations are enqueued, delivered in one batch of which nothing is reported, and acknowledged, but
the service does not keep what it would keep had they been sent one by one. -/
def DiffersFromDirect (ops : List Operation) : Prop :=
  ∃ d' p, create Disk.empty MemoryBackend.empty ⟨"RUN-1", .run⟩ shortSettings 5 1 0 = (d', .ok p) ∧
    p.PermitsAll service (enqueueAndDeliver ops) ∧
    (∀ e ∈ p.endings service (enqueueAndDeliver ops), e.batch.bundle.errors = []) ∧
    (p.run service (enqueueAndDeliver ops)).queue.lastAck =
      (p.run service (enqueueAndDeliver ops)).queue.lastPut ∧
    p.enqueued service (enqueueAndDeliver ops) = ops ∧
    ¬ (p.run service (enqueueAndDeliver ops)).backend.SameAttributes
      ((Direct.mk ⟨"RUN-1", .run⟩ Disk.empty MemoryBackend.empty).enqueueAll service ops).backend

/-- It is enough that the two differ in one attribute. -/
theorem differsFromDirect {ops : List Operation} (n : Nat) (held : Option Operation) (few : ops.length ≤ 3)
    (spares : ∀ folder, ∀ op ∈ ops, op.Spares folder)
    (facts : (create Disk.empty MemoryBackend.empty ⟨"RUN-1", .run⟩ shortSettings 5 1 0).2.toOption.map
      (fun p => ((p.endings service (enqueueAndDeliver ops)).map fun e => e.batch.bundle.errors,
        p.enqueued service (enqueueAndDeliver ops),
        (p.run service (enqueueAndDeliver ops)).queue.lastAck,
        (p.run service (enqueueAndDeliver ops)).queue.lastPut,
        (p.run service (enqueueAndDeliver ops)).backend.store.get? "RUN-1" (.single ""))) =
      some ([[]], ops, n, n, held))
    (other : ((Direct.mk ⟨"RUN-1", .run⟩ Disk.empty MemoryBackend.empty).enqueueAll service
      ops).backend.store.get? "RUN-1" (.single "") ≠ held) : DiffersFromDirect ops := by
  obtain ⟨d', p, created, facts⟩ := exists_created facts
  simp only [Prod.mk.injEq] at facts
  obtain ⟨errors, enqueued, lastAck, lastPut, there⟩ := facts
  have permitted := permitsAll_enqueueAndDeliver created few (spares p.queue.folder)
  refine ⟨d', p, created, permitted, fun e mem => ?_, lastAck.trans lastPut.symm, enqueued, fun same => ?_⟩
  · exact List.mem_singleton.1 (errors ▸ List.mem_map_of_mem mem)
  · exact other ((same "RUN-1" (.single "")).symm.trans there)

/-- A set of strings is made and cleared. -/
def addAndClear : List Operation :=
  addAgain.take 2

/-- A moment between two milliseconds. -/
def finerMoment : List Operation :=
  [⟨.single "", .assign (.datetime ⟨0, 1500000, by decide, by decide⟩)⟩]

/-- Sent in a batch, a set of strings that was made and cleared is not kept; one by one, an empty one is. Sent by
way of the queue, a moment is kept in whole milliseconds; sent at once, as it is. -/
theorem differs_direct : DiffersFromDirect addAndClear ∧ DiffersFromDirect finerMoment := by
  constructor
  · have directly : ((Direct.mk ⟨"RUN-1", .run⟩ Disk.empty MemoryBackend.empty).enqueueAll service
        addAndClear).backend.store.get? "RUN-1" (.single "") = some ⟨.single "", .addStrings []⟩ := by
      decide +kernel
    refine differsFromDirect 2 none (by decide)
      (fun folder op mem => spares_addAgain folder op (List.mem_of_mem_take mem)) (by decide +kernel) ?_
    rw [directly]
    exact Option.some_ne_none _
  · have directly : ((Direct.mk ⟨"RUN-1", .run⟩ Disk.empty MemoryBackend.empty).enqueueAll service
        finerMoment).backend.store.get? "RUN-1" (.single "") = finerMoment.head? := by decide +kernel
    refine differsFromDirect 1 (finerMoment.head?.map Operation.cut) (by decide) ?_
      (by set_option maxRecDepth 2000 in decide +kernel) ?_
    · intro folder op mem
      obtain rfl := List.mem_singleton.1 mem
      exact fun _ _ upload => Mutation.noConfusion upload
    · rw [directly]
      decide +kernel

end Background

end Outbox
