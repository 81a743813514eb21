import Outbox.Proofs.Delivery.Invariant

/-!
# Sections beside the consumer

Producers, stops and the world around do not disturb delivery: they may put records behind the others,
hand the queue to the disk, change the control words, or remove a queue that is empty.

* `Quiet` is what sections do that only change control words, and `Quiet.inOrder` their law;
* `InOrder.undisturbed` is the law of all sections but those of the consumer.
-/

namespace Outbox

/-- Sections that change nothing but control words. -/
def Section.Tells {σ : Type} : Section σ → Prop
  | .publish .. | .checkProgress _ | .wake | .notify | .suspend | .resume | .askToStop | .interrupt
  | .markStopped | .service _ => True
  | _ => False

namespace Background

variable {σ : Type} {p p' p'' : Background σ} {l : ListQueue Operation} {shipments : List Shipment}
  {flight : List Queued}

/-! ## Control words -/

/-- Nothing happened but to control words, and the consumer may have been notified. -/
structure Quiet (p p' : Background σ) : Prop where
  disk : p'.disk = p.disk
  queue : p'.queue = p.queue
  stash : p'.consumer.stash = p.consumer.stash
  consumed : p'.control.consumed = p.control.consumed
  status : p.control.status.Becomes p'.control.status
  phase : p.consumer.phase.Nudged p'.consumer.phase

theorem quiet_refl (p : Background σ) : p.Quiet p :=
  ⟨rfl, rfl, rfl, rfl, .inl rfl, .same _⟩

theorem Quiet.trans (h : p.Quiet p') (h' : p'.Quiet p'') : p.Quiet p'' where
  disk := h'.disk.trans h.disk
  queue := h'.queue.trans h.queue
  stash := h'.stash.trans h.stash
  consumed := h'.consumed.trans h.consumed
  status := h.status.trans h'.status
  phase := h.phase.trans h'.phase

theorem Quiet.inOrder (quiet : p.Quiet p') (h : p.InOrder l shipments flight) :
    p'.InOrder l shipments flight := by
  refine h.frame quiet.disk quiet.queue quiet.stash quiet.consumed quiet.status.stopped ?_ ?_
    (h.lives.nudged quiet.status quiet.phase)
  · intro absent
    have nudged := quiet.phase
    rw [absent] at nudged
    generalize p.consumer.phase = ph at nudged
    cases nudged
    rfl
  · have fits := h.phase
    have nudged := quiet.phase
    generalize p.consumer.phase = ph at nudged fits
    generalize p'.consumer.phase = ph' at nudged
    cases nudged with
    | same => exact fits
    | woken => exact fits

theorem quiet_withControl {f : Control → Control}
    (consumed : (f p.control).consumed = p.control.consumed)
    (status : p.control.status.Becomes (f p.control).status) : p.Quiet (p.withControl f) :=
  ⟨rfl, rfl, rfl, consumed, status, .same _⟩

theorem quiet_notify (p : Background σ) : p.Quiet p.notify := by
  unfold notify
  split
  · next deadline notified asleep =>
    refine ⟨rfl, rfl, rfl, rfl, .inl rfl, ?_⟩
    rw [asleep]
    exact .woken deadline notified
  · exact ⟨rfl, rfl, rfl, rfl, .inl rfl, .same _⟩

theorem quiet_wake (p : Background σ) : p.Quiet p.wake :=
  (quiet_withControl rfl (.inl rfl)).trans (quiet_notify _)

theorem quiet_publish (p : Background σ) (version : Nat) (overflowing : Bool) :
    p.Quiet (p.publish version overflowing) := by
  have told : p.Quiet (p.withControl fun c => { c with lastPut := version }) :=
    quiet_withControl rfl (.inl rfl)
  unfold publish
  show p.Quiet (if _ then _ else _)
  split
  · exact told.trans (quiet_wake _)
  · exact told

theorem becomes_afterPause (s : Status) : s.Becomes s.afterPause := by
  cases s <;> simp [Status.Becomes, Status.afterPause, Status.isAlive]

theorem becomes_afterResume (s : Status) : s.Becomes s.afterResume := by
  cases s <;> simp [Status.Becomes, Status.afterResume, Status.isAlive]

theorem becomes_afterInterrupt (s : Status) : s.Becomes s.afterInterrupt := by
  cases s <;> simp [Status.Becomes, Status.afterInterrupt, Status.isAlive]

theorem quiet_askToStop (p : Background σ) : p.Quiet p.askToStop := by
  have asked : p.Quiet ({ p with handle := false }.withControl fun c =>
      { c with sleepDisabled := true, status := c.status.afterResume }) :=
    ⟨rfl, rfl, rfl, rfl, becomes_afterResume _, .same _⟩
  exact asked.trans (quiet_wake _)

theorem quiet_interrupt (p : Background σ) : p.Quiet p.interrupt := by
  have told : p.Quiet (p.withControl fun c =>
      { c with interrupted := true, status := c.status.afterInterrupt }) :=
    quiet_withControl rfl (becomes_afterInterrupt _)
  exact told.trans (quiet_notify _)

theorem quiet_markStopped (gone : p.control.status.isAlive = false) : p.Quiet p.markStopped := by
  have told : p.Quiet (p.withControl fun c => { c with status := .stopped }) :=
    quiet_withControl rfl (.inr (.inr ⟨gone, rfl⟩))
  exact told.trans (quiet_notify _)

/-- **A section that only changes control words** leaves the rest as it is. -/
theorem quiet_after (b : Backend σ) {s : Section σ} (tells : s.Tells) (allowed : p.Allows s) :
    p.Quiet (p.after b s) := by
  cases s with
  | publish version overflowing => exact quiet_publish p version overflowing
  | checkProgress | service => exact ⟨rfl, rfl, rfl, rfl, .inl rfl, .same _⟩
  | wake => exact quiet_wake p
  | notify => exact quiet_notify p
  | suspend =>
    have told : p.Quiet (p.withControl fun c => { c with status := c.status.afterPause }) :=
      quiet_withControl rfl (becomes_afterPause _)
    exact told
  | resume =>
    have resumed : p.Quiet (p.withControl fun c => { c with status := c.status.afterResume }) :=
      quiet_withControl rfl (becomes_afterResume _)
    exact resumed.trans (quiet_wake _)
  | askToStop => exact quiet_askToStop p
  | interrupt => exact quiet_interrupt p
  | markStopped => exact quiet_markStopped allowed
  | put | flush | start | cleanUp | close | consumer | disk => exact tells.elim

/-- A consumer is started only where there was none. -/
theorem InOrder.start (h : p.InOrder l shipments flight) (now : Nat) :
    (p.start now).InOrder l shipments flight ∧
      (p.consumer.phase = .ending ∨ p.consumer.phase = .ended →
        (p.start now).consumer.phase = p.consumer.phase) := by
  unfold Background.start
  split
  · next idle =>
    have absent : p.consumer.phase = .absent := by
      have lives := h.lives
      rw [idle] at lives
      exact lives.absent
    have fits := h.phase
    rw [absent] at fits
    refine ⟨h.frame rfl rfl (h.fresh absent).symm rfl ?_ ?_ fits rfl, ?_⟩
    · intro atEnd
      rw [idle] at atEnd
      cases atEnd
    · intro same
      cases same
    · intro atEnd
      rw [absent] at atEnd
      rcases atEnd with atEnd | atEnd <;> cases atEnd
  · exact ⟨h, fun _ => rfl⟩

/-! ## The queue -/

/-- A queue is removed only if it is empty. -/
theorem removeIfEmpty_cases (d : Disk) (q : Queue) :
    q.removeIfEmpty d = ⟨d, q, .ok false⟩ ∨
      q.lastPut = q.lastAck ∧ (q.removeIfEmpty d).queue.writer = none ∧
        (q.removeIfEmpty d).queue.lastPut = q.lastPut ∧
        (q.removeIfEmpty d).queue.lastAck = q.lastAck ∧
        (q.removeIfEmpty d).queue.folder = q.folder := by
  obtain ⟨writer, same, -⟩ := Queue.flush_eq d q
  unfold Queue.removeIfEmpty
  split
  · next empty =>
    refine .inr ⟨by simpa [Queue.isEmpty] using empty, ?_⟩
    have closed : q.close d =
        ((q.flush d).1, { (q.flush d).2 with writer := none, reader := none }) := rfl
    rw [closed, same]
    simp only
    split <;> exact ⟨rfl, rfl, rfl, rfl⟩
  · exact .inl rfl

theorem Stores.flush (h : p.Stores l) : p.flush.Stores l ∧ p.flush.queue.folder = p.queue.folder := by
  cases h with
  | held holds => exact ⟨.held holds.flush.1, holds.flush.2⟩
  | removed atEnd closed put acked all =>
    have same : p.flush = p := by
      unfold Background.flush Queue.flush
      rw [closed]
    rw [same]
    exact ⟨.removed atEnd closed put acked all, rfl⟩

theorem Stores.close (h : p.Stores l) :
    p.close.Stores { l with isOpen := false } ∧ p.close.queue.folder = p.queue.folder := by
  cases h with
  | held holds => exact ⟨.held holds.close.1, holds.close.2⟩
  | removed atEnd closed put acked all =>
    have same : p.queue.close p.disk =
        (p.disk, { p.queue with writer := none, reader := none }) := by
      unfold Queue.close Queue.flush
      rw [closed]
    unfold Background.close
    rw [same]
    exact ⟨.removed atEnd rfl put acked all, rfl⟩

theorem cleanUp_cases (p : Background σ) :
    p.cleanUp.1 = p.close ∨
      p.cleanUp.1 = { p.close with
        disk := (p.close.queue.removeIfEmpty p.close.disk).disk
        queue := (p.close.queue.removeIfEmpty p.close.disk).queue } := by
  unfold Background.cleanUp
  simp only
  split
  · rcases p.close.queue.removeIfEmpty p.close.disk with ⟨d, q, r⟩
    cases r <;> exact .inr rfl
  · exact .inl rfl

/-- What a stop does to the queue in the end. -/
theorem Stores.cleanUp (h : p.Stores l) (atEnd : p.control.status = .stopped) :
    p.cleanUp.1.Stores { l with isOpen := false } ∧
      p.cleanUp.1.queue.folder = p.queue.folder := by
  obtain ⟨stores, folder⟩ := h.close
  rcases cleanUp_cases p with same | same
  · rw [same]
    exact ⟨stores, folder⟩
  · rw [same]
    rcases removeIfEmpty_cases p.close.disk p.close.queue with
      kept | ⟨empty, closed, put, acked, place⟩
    · rw [kept]
      exact ⟨stores, folder⟩
    · refine ⟨.removed atEnd closed (put.trans stores.lastPut) (acked.trans stores.lastAck) ?_,
        place.trans folder⟩
      rw [← stores.lastPut, ← stores.lastAck, empty]

theorem cleanUp_frame (p : Background σ) :
    p.cleanUp.1.control = p.control ∧ p.cleanUp.1.consumer = p.consumer := by
  rcases cleanUp_cases p with same | same <;> rw [same] <;> exact ⟨rfl, rfl⟩

/-- An operation that is enqueued is put behind the others, or refused. -/
theorem InOrder.put (h : p.InOrder l shipments flight) {wall : Nat} {op : Operation}
    (durable : p.queue.writer.isSome = true → Record.Durable ⟨op.cut, p.queue.lastPut + 1, wall⟩)
    (spares : op.Spares p.queue.folder) :
    ∃ l', (p.putSection wall op).1.InOrder l' shipments flight ∧
      l'.records = l.records ++ (p.stored? (.put wall op)).toList ∧ l'.acked = l.acked ∧
      (p.putSection wall op).1.control = p.control ∧
      (p.putSection wall op).1.consumer = p.consumer := by
  -- nothing happens where the queue is closed
  have refused (closed : p.queue.put p.disk wall op = ⟨p.disk, p.queue, .error .closed⟩) :
      ∃ l', (p.putSection wall op).1.InOrder l' shipments flight ∧
        l'.records = l.records ++ (p.stored? (.put wall op)).toList ∧ l'.acked = l.acked ∧
        (p.putSection wall op).1.control = p.control ∧
        (p.putSection wall op).1.consumer = p.consumer := by
    have same : p.putSection wall op = (p, .error (.queue .closed)) := by
      rw [putSection, closed]
    have nothing : p.stored? (.put wall op) = none := by
      rw [stored?, same]
    rw [same, nothing]
    exact ⟨l, h, (List.append_nil _).symm, rfl, rfl, rfl⟩
  cases hstores : h.keeps.stores with
  | removed atEnd closed put acked all =>
    apply refused
    simp only [Queue.put, closed]
  | held holds =>
    cases isOpen : l.isOpen with
    | false => exact refused (holds.put_closed isOpen _ _)
    | true =>
      have writer := holds.isOpen.trans isOpen
      have durable' := durable writer
      rw [h.keeps.stores.lastPut] at durable'
      obtain ⟨d', q', put, holds', folder⟩ := holds.put isOpen durable'
      rw [Queue.put_cut] at put
      have done : p.putSection wall op =
          ({ p with disk := d', queue := q' }, .ok (l.records.length + 1, q'.isOverflowing)) := by
        rw [putSection, put]
      have new : p.stored? (.put wall op) = some ⟨op.cut, l.records.length + 1, wall⟩ := by
        rw [stored?, done]
      rw [done, new]
      obtain ⟨ids, intact⟩ := holds'.intact
      refine ⟨_, h.stored (.held holds') folder rfl rfl rfl rfl rfl intact.filed.numbered ?_, rfl, rfl,
        rfl, rfl⟩
      intro r mem
      rw [List.mem_singleton.1 mem]
      exact Operation.spares_cut.2 spares

/-! ## All of them -/

/-- A consumer that has come to an end does not notice anything. -/
theorem Quiet.ends (quiet : p.Quiet p') :
    p.consumer.phase = .ending ∨ p.consumer.phase = .ended →
      p'.consumer.phase = p.consumer.phase := by
  have nudged := quiet.phase
  generalize p.consumer.phase = ph at nudged
  generalize p'.consumer.phase = ph' at nudged
  cases nudged with
  | same => exact fun _ => rfl
  | woken => rintro (atEnd | atEnd) <;> cases atEnd

/-- **Only the consumer delivers.** Every other section leaves the batches that ended, the one in
flight and what was acknowledged as they are. -/
theorem InOrder.undisturbed (h : p.InOrder l shipments flight) (b : Backend σ) {s : Section σ}
    (other : ∀ now, s ≠ .consumer now) (allowed : p.Allows s) :
    ∃ l', (p.after b s).InOrder l' shipments flight ∧
      l'.records = l.records ++ (p.stored? s).toList ∧ l'.acked = l.acked ∧
      (p.after b s).control.consumed = p.control.consumed ∧
      (p.consumer.phase = .ending ∨ p.consumer.phase = .ended →
        (p.after b s).consumer.phase = p.consumer.phase) := by
  have nothing : l.records = l.records ++ [] := (List.append_nil _).symm
  have of_quiet {p' : Background σ} (quiet : p.Quiet p') :
      ∃ l', p'.InOrder l' shipments flight ∧ l'.records = l.records ++ [] ∧ l'.acked = l.acked ∧
        p'.control.consumed = p.control.consumed ∧
        (p.consumer.phase = .ending ∨ p.consumer.phase = .ended →
          p'.consumer.phase = p.consumer.phase) :=
    ⟨l, quiet.inOrder h, nothing, rfl, quiet.consumed, quiet.ends⟩
  cases s with
  | consumer now => exact absurd rfl (other now)
  | put wall op =>
    obtain ⟨l', inOrder, records, acked, control, consumer⟩ := h.put allowed.1 allowed.2
    refine ⟨l', inOrder, records, acked, ?_, fun _ => ?_⟩
    · show (p.putSection wall op).1.control.consumed = _
      rw [control]
    · show (p.putSection wall op).1.consumer.phase = _
      rw [consumer]
  | publish | checkProgress | wake | notify | suspend | resume | askToStop | interrupt | markStopped
  | service => exact of_quiet (quiet_after b trivial allowed)
  | start now =>
    obtain ⟨inOrder, ends⟩ := h.start now
    refine ⟨l, inOrder, nothing, rfl, ?_, ends⟩
    show (p.start now).control.consumed = p.control.consumed
    unfold Background.start
    split <;> rfl
  | flush =>
    obtain ⟨stores, folder⟩ := h.keeps.stores.flush
    exact ⟨l, h.kept stores folder rfl rfl rfl rfl rfl, nothing, rfl, rfl, fun _ => rfl⟩
  | close =>
    obtain ⟨stores, folder⟩ := h.keeps.stores.close
    exact ⟨_, h.kept stores folder rfl rfl rfl rfl rfl, nothing, rfl, rfl, fun _ => rfl⟩
  | cleanUp =>
    obtain ⟨stores, folder⟩ := h.keeps.stores.cleanUp allowed
    obtain ⟨control, consumer⟩ := cleanUp_frame p
    refine ⟨_, h.kept stores folder control consumer rfl rfl rfl, nothing, rfl, ?_, fun _ => ?_⟩
    · show p.cleanUp.1.control.consumed = _
      rw [control]
    · show p.cleanUp.1.consumer.phase = _
      rw [consumer]
  | disk d =>
    have stores : Stores { p with disk := d } l := by
      cases h.keeps.stores with
      | held holds => exact .held (holds.spares allowed)
      | removed atEnd closed put acked all => exact .removed atEnd closed put acked all
    exact ⟨l, h.kept stores rfl rfl rfl rfl rfl rfl, nothing, rfl, rfl, fun _ => rfl⟩

end Background

end Outbox
