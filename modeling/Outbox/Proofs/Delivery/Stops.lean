import Outbox.Proofs.Delivery.Stopping

/-!
# Stops

Between the sections of a stop anything may happen: operations are enqueued, delivery is paused and
resumed, the queue is closed, the consumer goes on with whatever the service answers, and other stops are
under way.

* `Stops` is delivery in the background together with the stops that were called, and `Stops.run` is any
  number of moves of the two;
* `Stops.Sound` is the invariant, kept by one move (`Sound.after`) and by all of them (`Sound.run`);
* `Stops.discards_nothing` is the result: no stop loses an operation that was accepted.
-/

namespace Outbox

/-! ## Moves -/

/-- Delivery in the background, and the stops that were called. -/
structure Stops (σ : Type) where
  system : Background σ
  calls : List StopPoint

/-- What may happen next. -/
inductive StopMove (σ : Type) where
  /-- A section of a producer or of the consumer, or something around. -/
  | section (s : Section σ)
  | call
  /-- The next section of a stop. -/
  | stop (i : Nat) (timeIsOver : Bool)

namespace Stops

variable {σ : Type}

/-- Everything after a move. -/
def after (b : Backend σ) (t : Stops σ) : StopMove σ → Stops σ
  | .section s => { t with system := t.system.after b s }
  | .call => { t with calls := t.calls ++ [.begun] }
  | .stop i timeIsOver =>
    match t.calls[i]? with
    | none => t
    | some pt => ⟨(t.system.stopStep timeIsOver pt).1, t.calls.set i (t.system.stopStep timeIsOver pt).2⟩

/-- Whether a move may come next. What is put survives and does not hand the files of the queue over for
removal, there is a version left for it, the sections of stops are left to stops, and the disk changes
only elsewhere. -/
def Permits (t : Stops σ) : StopMove σ → Prop
  | .section (.put wall op) =>
    op.Survives ∧ IsClock wall ∧ t.system.queue.lastPut + 1 < UInt64.size ∧
      op.Spares t.system.queue.folder
  | .section (.disk d) => t.system.disk.Spares d t.system.queue.folder
  | .section .askToStop | .section .interrupt | .section .markStopped | .section .cleanUp => False
  | _ => True

/-- Everything after some moves. -/
def run (b : Backend σ) (t : Stops σ) : List (StopMove σ) → Stops σ
  | [] => t
  | m :: moves => run b (t.after b m) moves

/-- Whether moves may come one after the other. -/
def PermitsAll (b : Backend σ) (t : Stops σ) : List (StopMove σ) → Prop
  | [] => True
  | m :: moves => t.Permits m ∧ PermitsAll b (t.after b m) moves

/-- The record that a move puts. -/
def stored? (t : Stops σ) : StopMove σ → Option (Record Operation)
  | .section s => t.system.stored? s
  | _ => none

/-- The records that moves put: those of the operations that were accepted. -/
def puts (b : Backend σ) (t : Stops σ) : List (StopMove σ) → List (Record Operation)
  | [] => []
  | m :: moves => (t.stored? m).toList ++ puts b (t.after b m) moves

/-! ## What holds at all times -/

/-- The system is in order, and a stop lets go of the queue only where there is no consumer. -/
structure Sound (t : Stops σ) (l : ListQueue Operation) (shipments : List Shipment)
    (flight : List Queued) : Prop where
  inOrder : t.system.InOrder l shipments flight
  closing : .closing ∈ t.calls → t.system.control.status = .stopped

variable {b : Backend σ} {t : Stops σ} {l : ListQueue Operation} {shipments : List Shipment}
  {flight : List Queued}

/-- A section that is no stop's. -/
theorem Sound.after_section (h : t.Sound l shipments flight) {s : Section σ}
    (permitted : t.Permits (.section s)) :
    ∃ l' shipments' flight', (t.system.after b s).InOrder l' shipments' flight' ∧
      l'.records = l.records ++ (t.system.stored? s).toList := by
  have beside (other : ∀ now, s ≠ .consumer now) (allowed : t.system.Allows s) :
      ∃ l' shipments' flight', (t.system.after b s).InOrder l' shipments' flight' ∧
        l'.records = l.records ++ (t.system.stored? s).toList := by
    obtain ⟨l', inOrder, records, -⟩ := h.inOrder.undisturbed b other allowed
    exact ⟨l', shipments, flight, inOrder, records⟩
  cases s with
  | put wall op =>
    obtain ⟨survives, clock, small, spares⟩ := permitted
    obtain ⟨l', inOrder, records, -⟩ := h.inOrder.put_survivor survives clock small spares
    exact ⟨l', shipments, flight, inOrder, records⟩
  | consumer now =>
    obtain ⟨l', more, flight', inOrder, -, records, -⟩ := h.inOrder.step b now
    exact ⟨l', shipments ++ more, flight', inOrder, records.trans (List.append_nil _).symm⟩
  | askToStop | interrupt | markStopped | cleanUp => exact permitted.elim
  | disk d => exact beside nofun permitted
  | publish | checkProgress | flush | wake | notify | start | suspend | resume | close | service =>
    exact beside nofun trivial

/-- Nothing but a stop's section matters to a system that has come to an end. -/
theorem Sound.stopped_after (h : t.Sound l shipments flight) {s : Section σ}
    (permitted : t.Permits (.section s)) (atEnd : t.system.control.status = .stopped) :
    (t.system.after b s).control.status = .stopped := by
  cases s with
  | put wall op =>
    obtain ⟨survives, clock, small, spares⟩ := permitted
    obtain ⟨-, -, -, control⟩ := h.inOrder.put_survivor survives clock small spares
    show (t.system.putSection wall op).1.control.status = .stopped
    rw [control, atEnd]
  | consumer now =>
    show (t.system.step b now).control.status = .stopped
    rw [h.inOrder.rests_stopped atEnd, atEnd]
  | askToStop | interrupt | markStopped | cleanUp => exact permitted.elim
  | publish version overflowing =>
    exact (Background.quiet_publish t.system version overflowing).status.stopped atEnd
  | wake => exact (Background.quiet_wake t.system).status.stopped atEnd
  | notify => exact (Background.quiet_notify t.system).status.stopped atEnd
  | suspend => exact (Background.becomes_afterPause _).stopped atEnd
  | resume =>
    exact (Background.quiet_wake _).status.stopped ((Background.becomes_afterResume _).stopped atEnd)
  | start now =>
    have busy : t.system.control.status ≠ .idle := by
      rw [atEnd]
      exact nofun
    show (t.system.start now).control.status = .stopped
    rw [Background.start, if_neg busy, atEnd]
  | checkProgress | flush | close | service | disk => exact atEnd

/-- **One move** keeps everything in order. -/
theorem Sound.after (h : t.Sound l shipments flight) {m : StopMove σ} (permitted : t.Permits m) :
    ∃ l' shipments' flight', (t.after b m).Sound l' shipments' flight' ∧
      l'.records = l.records ++ (t.stored? m).toList := by
  have nothing : l.records = l.records ++ [] := (List.append_nil _).symm
  cases m with
  | «section» s =>
    obtain ⟨l', shipments', flight', inOrder, records⟩ := h.after_section (b := b) permitted
    have closing (member : .closing ∈ t.calls) := h.stopped_after (b := b) permitted (h.closing member)
    exact ⟨l', shipments', flight', ⟨inOrder, closing⟩, records⟩
  | call =>
    refine ⟨l, shipments, flight, ⟨h.inOrder, fun member => h.closing ?_⟩, nothing⟩
    rcases List.mem_append.1 member with before | new
    · exact before
    · cases List.mem_singleton.1 new
  | stop i timeIsOver =>
    show ∃ l' shipments' flight', Sound (match t.calls[i]? with | none => t | some pt => _) _ _ _ ∧ _
    cases found : t.calls[i]? with
    | none => exact ⟨l, shipments, flight, h, nothing⟩
    | some pt =>
      have member : pt ∈ t.calls := List.mem_of_getElem? found
      obtain ⟨l', inOrder, records, stopped, closing⟩ :=
        h.inOrder.stopStep (fun same => h.closing (same ▸ member)) timeIsOver
      refine ⟨l', shipments, flight, ⟨inOrder, fun now => ?_⟩, records.trans nothing⟩
      rcases List.mem_or_eq_of_mem_set now with before | new
      · exact stopped (h.closing before)
      · exact closing new.symm

/-- All moves. -/
theorem Sound.run (h : t.Sound l shipments flight) {moves : List (StopMove σ)}
    (permitted : t.PermitsAll b moves) :
    ∃ l' shipments' flight', (t.run b moves).Sound l' shipments' flight' ∧
      l'.records = l.records ++ t.puts b moves := by
  induction moves generalizing t l shipments flight with
  | nil => exact ⟨l, shipments, flight, h, (List.append_nil _).symm⟩
  | cons m moves ih =>
    obtain ⟨first, rest⟩ := permitted
    obtain ⟨l₁, shipments₁, flight₁, sound₁, records₁⟩ := h.after (b := b) first
    obtain ⟨l₂, shipments₂, flight₂, sound₂, records₂⟩ := ih sound₁ rest
    refine ⟨l₂, shipments₂, flight₂, sound₂, ?_⟩
    rw [records₂, records₁, List.append_assoc]
    rfl

theorem run_append (front back : List (StopMove σ)) :
    t.run b (front ++ back) = (t.run b front).run b back := by
  induction front generalizing t with
  | nil => rfl
  | cons m front ih => exact ih

theorem permitsAll_append {front back : List (StopMove σ)} :
    t.PermitsAll b (front ++ back) ↔ t.PermitsAll b front ∧ (t.run b front).PermitsAll b back := by
  induction front generalizing t with
  | nil =>
    show t.PermitsAll b back ↔ True ∧ t.PermitsAll b back
    rw [true_and]
  | cons m front ih =>
    show (t.Permits m ∧ (t.after b m).PermitsAll b (front ++ back)) ↔
      (t.Permits m ∧ (t.after b m).PermitsAll b front) ∧ _
    rw [ih, and_assoc]
    rfl

theorem folder_after (m : StopMove σ) : (t.after b m).system.queue.folder = t.system.queue.folder := by
  cases m with
  | «section» s => exact Background.folder_after b t.system s
  | call => rfl
  | stop i timeIsOver =>
    show (match t.calls[i]? with | none => t | some pt => _ : Stops σ).system.queue.folder = _
    cases t.calls[i]? with
    | none => rfl
    | some pt => exact Background.folder_stopStep t.system timeIsOver pt

theorem folder_run (moves : List (StopMove σ)) :
    (t.run b moves).system.queue.folder = t.system.queue.folder := by
  induction moves generalizing t with
  | nil => rfl
  | cons m moves ih => exact ih.trans (folder_after m)

/-! ## The result -/

/-- What stops promise, whatever moves there were. -/
structure DiscardsNothing (b : Backend σ) (t : Stops σ) (folder : Place) (moves : List (StopMove σ)) :
    Prop where
  /-- What was accepted is acknowledged, or comes out of the folder once the queue was dropped or
  closed. -/
  kept : ∀ p, (t.run b moves).system = p → ∀ r ∈ t.puts b moves, r.version ≤ p.queue.lastAck ∨
    (p.queue.drop p.disk).Yields folder (r.version - p.queue.lastAck - 1) r ∧
    (p.queue.close p.disk).1.Yields folder (r.version - p.queue.lastAck - 1) r
  /-- The folder is removed only when everything is acknowledged. -/
  removed : ∀ p, (t.run b moves).system = p → p.disk.lookup? folder ≠ some .folder →
    ∀ r ∈ t.puts b moves, r.version ≤ p.queue.lastAck
  /-- A stop closes the queue only when there is no consumer any more. -/
  closed : ∀ front i timeIsOver back, moves = front ++ .stop i timeIsOver :: back →
    (t.run b front).system.queue.writer ≠ none →
    ((t.run b front).after b (.stop i timeIsOver)).system.queue.writer = none →
    (t.run b front).system.HasNoConsumer

/-- A stop closes the queue only when there is no consumer any more. -/
theorem Sound.closed (h : t.Sound l shipments flight) {i : Nat} {timeIsOver : Bool}
    (wasOpen : t.system.queue.writer ≠ none)
    (closed : (t.after b (.stop i timeIsOver)).system.queue.writer = none) :
    t.system.HasNoConsumer := by
  have isOpen : t.system.queue.writer.isSome = true := Option.isSome_iff_ne_none.2 wasOpen
  cases found : t.calls[i]? with
  | none =>
    have same : t.after b (.stop i timeIsOver) = t := by simp only [Stops.after, found]
    rw [same] at closed
    exact absurd closed wasOpen
  | some pt =>
    have same : (t.after b (.stop i timeIsOver)).system = (t.system.stopStep timeIsOver pt).1 := by
      simp only [Stops.after, found]
    rw [same] at closed
    by_cases closing : pt = .closing
    · exact h.inOrder.hasNoConsumer (h.closing (closing ▸ List.mem_of_getElem? found))
    · have still := t.system.writer_stopStep timeIsOver closing
      rw [closed, isOpen] at still
      cases still

theorem Sound.discardsNothing (h : t.Sound .empty [] []) {moves : List (StopMove σ)}
    (permitted : t.PermitsAll b moves) : t.DiscardsNothing b t.system.queue.folder moves := by
  obtain ⟨l, shipments, flight, sound, records⟩ := h.run permitted
  have records : l.records = t.puts b moves := records
  have keeps := sound.inOrder.keeps
  have place := folder_run (b := b) (t := t) moves
  refine ⟨?_, ?_, ?_⟩
  · rintro p rfl r mem
    rw [← records] at mem
    rcases Nat.lt_or_ge (t.run b moves).system.queue.lastAck r.version with unacked | acked
    · have yields := keeps.yields mem unacked
      rw [place] at yields
      exact .inr ⟨yields, yields⟩
    · exact .inl acked
  · rintro p rfl gone r mem
    rw [← place] at gone
    have all : l.acked = l.records.length :=
      Classical.byContradiction fun some_left => gone (keeps.stores.isFolder some_left)
    rw [← records] at mem
    obtain ⟨i, found⟩ := List.getElem?_of_mem mem
    obtain ⟨inside, -⟩ := List.getElem?_eq_some_iff.1 found
    rw [keeps.numbered found, keeps.stores.lastAck, all]
    exact inside
  · rintro front i timeIsOver back rfl wasOpen closed
    obtain ⟨l', shipments', flight', sound', -⟩ := h.run (permitsAll_append.1 permitted).1
    exact sound'.closed wasOpen closed

/-- **No stop discards an operation that was accepted.** An execution begins in a new folder, and then
anything happens in any order: sections of producers, of the consumer, of pauses and of `close`, and
any number of stops, each of which goes through its sections and may run out of time at each wait.
Whatever the service answers, and at all times, so also when a stop has returned. -/
theorem discards_nothing {p : Background σ} {d d' : Disk} {s : σ} {c : Container}
    {settings : BackgroundSettings} {wall process now : Nat}
    (created : Background.create d s c settings wall process now = (d', .ok p))
    (blank : ∀ d₁ e, Execution.create d settings.dataDir c wall process = (d₁, .ok e) →
      d₁.Blank e.place) {moves : List (StopMove σ)} (permitted : (Stops.mk p []).PermitsAll b moves) :
    (Stops.mk p []).DiscardsNothing b p.execution.place moves := by
  have sound : (Stops.mk p []).Sound .empty [] [] :=
    ⟨Background.inOrder_create created blank, nofun⟩
  have promise := sound.discardsNothing permitted
  rwa [Background.folder_create created] at promise

/-- A stop runs out of time while the first operation is sent. -/
def sendAndStop : List (StopMove Nat) :=
  Background.enqueueAndSend.map .section ++ [.call, .stop 0 false, .stop 0 false, .stop 0 false,
    .stop 0 true]

/-- Another operation is enqueued before the stop returns. The next stop finds the consumer at work, and
the last one lets go of the queue. -/
def enqueueAndStop : List (StopMove Nat) :=
  [.section (.put 6 (Background.forget "b")), .section (.publish 2 true), .stop 0 true, .stop 0 true,
    .call, .stop 1 false, .stop 1 false, .stop 1 false, .section (.consumer 3000000),
    .section (.consumer 3000000), .section (.consumer 3000000), .call, .stop 2 false, .stop 2 false,
    .stop 2 false, .stop 2 false]

open Background in
/-- Three stops keep both operations in the queue, and close it in the end. -/
theorem discards_nothing_enqueueAndStop :
    ∃ d' p, create Disk.empty 0 ⟨"RUN-1", .run⟩ shortSettings 5 1 0 = (d', .ok p) ∧
      (Stops.mk p []).DiscardsNothing secondAttempt p.execution.place (sendAndStop ++ enqueueAndStop) ∧
      ((Stops.mk p []).run secondAttempt (sendAndStop ++ enqueueAndStop)).system.queue.size = 2 ∧
      ((Stops.mk p []).run secondAttempt (sendAndStop ++ enqueueAndStop)).system.queue.writer = none := by
  have facts : (create Disk.empty 0 ⟨"RUN-1", .run⟩ shortSettings 5 1 0).2.toOption.map
      (fun p => (p.queue.lastPut, ((Stops.mk p []).run secondAttempt sendAndStop).system.queue.lastPut,
        ((Stops.mk p []).run secondAttempt (sendAndStop ++ enqueueAndStop)).system.queue.size,
        ((Stops.mk p []).run secondAttempt (sendAndStop ++ enqueueAndStop)).system.queue.writer)) =
      some (0, 1, 2, none) := by decide +kernel
  obtain ⟨d', p, created, facts⟩ := exists_created facts
  simp only [Prod.mk.injEq] at facts
  obtain ⟨first, second, size, closed⟩ := facts
  have survives (name : String) : (forget name).Survives := Operation.parse?_encode_render trivial
  have spares (name : String) (folder : Place) : (forget name).Spares folder :=
    fun _ _ upload => Mutation.noConfusion upload
  have permitted : (Stops.mk p []).PermitsAll secondAttempt (sendAndStop ++ enqueueAndStop) := by
    refine permitsAll_append.2 ⟨⟨⟨survives _, ⟨by decide, by decide⟩, ?_, spares _ _⟩, ?_⟩,
      ⟨survives _, ⟨by decide, by decide⟩, ?_, spares _ _⟩, ?_⟩
    · show p.queue.lastPut + 1 < UInt64.size
      rw [first]
      decide
    · repeat' constructor
    · rw [second]
      decide
    · repeat' constructor
  refine ⟨d', p, created, ?_, size, closed⟩
  exact discards_nothing created (fun _ _ => blank_shortSettings) permitted

end Stops

end Outbox
