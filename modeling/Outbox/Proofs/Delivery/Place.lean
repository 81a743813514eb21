import Outbox.Proofs.Delivery.Consuming

/-!
# Where the queue lies

Nothing that happens to a queue moves it to another folder, so an execution has its queue in the same
place from its beginning to the last stop.

* `Queue.folder_put`, `Queue.folder_get` and the like are the laws of the operations of a queue;
* `Background.folder_step` is the law of the consumer, and `Background.folder_after` that of any section;
* `Background.folder_create` says where the queue of a new execution is.
-/

namespace Outbox

/-! ## One operation -/

namespace Queue

variable {α : Type} [Storable α]

@[simp] theorem folder_close (d : Disk) (q : Queue) : (q.close d).2.folder = q.folder :=
  folder_flush d q

@[simp] theorem folder_put (d : Disk) (q : Queue) (now : Int) (obj : α) :
    (q.put d now obj).queue.folder = q.folder := by
  obtain ⟨_, _, _, -, same⟩ := put_eq d q now obj
  rw [same]

@[simp] theorem folder_getThrough (d : Disk) (q : Queue) (later : List Nat) :
    (q.getThrough (α := α) d later).1.folder = q.folder := by
  induction later generalizing q with
  | nil =>
    unfold getThrough
    split
    · rfl
    · split <;> rfl
  | cons next rest ih =>
    unfold getThrough
    split
    · rfl
    · split
      · rfl
      · rfl
      · exact ih _

@[simp] theorem folder_get (d : Disk) (q : Queue) :
    (q.get (α := α) d).queue.folder = q.folder :=
  (folder_getThrough _ _ _).trans (folder_flush d q)

@[simp] theorem folder_ack (d : Disk) (q : Queue) (version : Nat) :
    (q.ack d version).queue.folder = q.folder := by
  unfold ack
  split
  · rfl
  · exact (kept_pruneAlong _ _ _).folder

@[simp] theorem folder_removeIfEmpty (d : Disk) (q : Queue) :
    (q.removeIfEmpty d).queue.folder = q.folder := by
  unfold removeIfEmpty
  split
  · dsimp only
    split <;> exact folder_close d q
  · rfl

/-- A queue that is opened lies in the folder that was asked for. -/
theorem folder_openIn {d d' : Disk} {folder : Place} {maxSize : Nat} {q : Queue}
    (opened : openIn d folder maxSize = (d', .ok q)) : q.folder = folder := by
  unfold openIn at opened
  split at opened
  · cases opened
  · split at opened
    · cases opened
    · dsimp only at opened
      split at opened
      · cases opened
      · split at opened
        · next pruned =>
          cases opened
          have same := congrArg (fun o => o.queue.folder) pruned
          exact same.symm.trans ((kept_pruneAlong _ _ _).folder)
        · cases opened

end Queue

/-! ## Any section -/

variable {σ : Type} (b : Backend σ)

theorem folder_nextRecord (stash : Option Queued) (s : StoredQueue) :
    (nextRecord queueSource stash s).1.queue.folder = s.queue.folder := by
  cases stash with
  | some r => rfl
  | none => exact Queue.folder_get s.disk s.queue

theorem folder_collectFrom (limits : Limits) (fuel : Nat) (c : Collecting) (stash : Option Queued)
    (s : StoredQueue) (backend : σ) :
    (collectFrom queueSource b limits fuel c stash s backend).source.queue.folder = s.queue.folder := by
  induction fuel generalizing c stash s backend with
  | zero => rfl
  | succ fuel ih =>
    have next := folder_nextRecord stash s
    unfold collectFrom
    generalize nextRecord queueSource stash s = read at next ⊢
    rcases read with ⟨s', _ | _ | r⟩
    · exact next
    · exact next
    · dsimp only
      split
      · exact (ih _ _ _ _).trans next
      · exact next
      · exact next
      · split <;> exact next

namespace Background

variable (p : Background σ)

theorem queue_retry (now retries : Nat) (next : Nat → Attempt) :
    (p.retry now retries next).queue = p.queue := by
  unfold retry
  split <;> rfl

theorem folder_collectSection (now retries : Nat) :
    (p.collectSection b now retries).queue.folder = p.queue.folder := by
  have collected : (p.collectNext b).source.queue.folder = p.queue.folder :=
    folder_collectFrom b _ _ _ _ _ _
  unfold collectSection takeUp
  dsimp only
  split
  · exact collected
  · split <;> exact collected
  · split
    · rw [queue_retry]
      exact collected
    · exact collected
  · exact collected

theorem queue_answerSection (now : Nat) (batch : Batch) (retries : Nat) :
    (p.answerSection b now batch retries).queue = p.queue := by
  unfold answerSection
  split
  · rfl
  · split
    · rw [queue_retry]
    · rfl

theorem queue_wakeSection : p.wakeSection.queue = p.queue := by
  unfold wakeSection
  dsimp only
  split <;> rfl

/-- The consumer leaves the queue in its place. -/
theorem folder_step (now : Nat) : (p.step b now).queue.folder = p.queue.folder := by
  unfold step
  cases p.readiness now with
  | waits _ => rfl
  | gone => rfl
  | ready =>
    cases p.consumer.phase with
    | absent | ended | ending | sending | publishing => rfl
    | collecting retries => exact folder_collectSection b p now retries
    | awaiting batch retries _ => exact congrArg Queue.folder (queue_answerSection b p now batch retries)
    | sleeping => exact congrArg Queue.folder (queue_wakeSection p)
    | starting =>
      show (p.flushIfDue now).queue.folder = _
      unfold flushIfDue
      split
      · exact Queue.folder_flush _ _
      · rfl
    | checking retries =>
      show (p.check retries).queue.folder = _
      unfold check
      split
      · rfl
      · split <;> rfl
    | acknowledging batch =>
      show (p.ackSection batch).queue.folder = _
      have acked := Queue.folder_ack p.disk p.queue batch.version
      unfold ackSection
      generalize p.queue.ack p.disk batch.version = o at acked ⊢
      rcases o with ⟨d, q, e | _⟩ <;> exact acked
    | backingOff _ next =>
      show (if _ then _ else _ : Background σ).queue.folder = _
      split
      · rfl
      · cases next <;> rfl
    | resting =>
      show (p.restSection now).queue.folder = _
      unfold restSection
      split
      · rfl
      · split
        · rw [queue_wakeSection]
        · rfl

theorem queue_notify : p.notify.queue = p.queue := by
  unfold notify
  split <;> rfl

theorem folder_cleanUp : p.cleanUp.1.queue.folder = p.queue.folder := by
  have closed : p.close.queue.folder = p.queue.folder := Queue.folder_close p.disk p.queue
  unfold cleanUp
  dsimp only
  split
  · have removed := Queue.folder_removeIfEmpty p.close.disk p.close.queue
    generalize p.close.queue.removeIfEmpty p.close.disk = o at removed ⊢
    rcases o with ⟨d, q, e | _⟩ <;> exact removed.trans closed
  · exact closed

/-- **The queue stays where it is**, whatever happens. -/
theorem folder_after (s : Section σ) : (p.after b s).queue.folder = p.queue.folder := by
  cases s with
  | put wall op =>
    have put := Queue.folder_put p.disk p.queue wall op
    show (p.putSection wall op).1.queue.folder = _
    unfold putSection
    generalize p.queue.put p.disk wall op = o at put ⊢
    rcases o with ⟨d, q, e | version⟩ <;> exact put
  | publish version overflowing =>
    show (if _ then _ else _ : Background σ).queue.folder = _
    split
    · exact congrArg Queue.folder (queue_notify _)
    · rfl
  | start now =>
    show (p.start now).queue.folder = _
    unfold start
    split <;> rfl
  | flush => exact Queue.folder_flush p.disk p.queue
  | close => exact Queue.folder_close p.disk p.queue
  | cleanUp => exact folder_cleanUp p
  | consumer now => exact folder_step b p now
  | wake | notify | resume | askToStop | interrupt | markStopped =>
    exact congrArg Queue.folder (queue_notify _)
  | checkProgress | suspend | service | disk => rfl

variable {p}

/-- The queue of a new execution lies in its folder. -/
theorem folder_create {d d' : Disk} {s : σ} {c : Container} {settings : BackgroundSettings}
    {wall process now : Nat} (created : create d s c settings wall process now = (d', .ok p)) :
    p.queue.folder = p.execution.place := by
  unfold create at created
  split at created
  · cases created
  · split at created
    · cases created
    · next opened =>
      split at created
      · cases created
      · cases created
        exact Queue.folder_openIn opened

end Background

end Outbox
