import Outbox.Proofs.Queue.Acknowledged
import Outbox.Proofs.Queue.Flushing

/-!
# What is seen of a queue

Where the segments of a queue begin is seen from outside in one way only: a segment that goes away takes
along the records in it, also those that were not read. So what matters of all segments is where the first one
begins, and that does not matter any more once the reader is behind it. Two queues with the same records that
differ in their other segments answer the same, as long as no more is acknowledged than was read or
acknowledged before.

* `StoredQueue.Shows` is what is seen of a queue, and `StoredQueue.Even` relates two queues of which the same
  is seen;
* `StoredQueue.Serves` is what may be asked;
* `StoredQueue.Even.call` is the step and `StoredQueue.Even.answers_eq` the run, and `StoredQueue.Shows.run`
  says that a queue always shows some list.
-/

namespace Outbox

variable {α : Type} [Storable α]

namespace Queue

variable {d : Disk} {q : Queue}

/-! ## The first segment -/

variable {ids : List Nat} {records : List (Record α)}

theorem Room.head? {w : SegmentWriter} {id bytes : Nat} {ids' : List Nat} (h : Room q w ids id bytes ids')
    {first : Nat} (head : ids.head? = some first) : ids'.head? = some first := by
  cases h with
  | left => exact head
  | begun => rw [List.head?_append, head, Option.some_or]

/-- A queue has a first segment, which begins at the first version that is not acknowledged at the latest. -/
theorem Intact.head (h : q.Intact d ids records) : ∃ first, ids.head? = some first ∧ first ∈ ids ∧
    (∀ id ∈ ids, first ≤ id) ∧ first ≤ q.lastAck + 1 := by
  obtain ⟨id, member, early⟩ := h.covers
  have ordered := h.ordered
  cases ids with
  | nil => cases member
  | cons first rest =>
    have least : ∀ id ∈ first :: rest, first ≤ id := by
      intro id' member'
      rcases List.mem_cons.1 member' with rfl | later
      · exact Nat.le_refl _
      · exact Nat.le_of_lt ((List.pairwise_cons.1 ordered).1 id' later)
    exact ⟨first, rfl, List.mem_cons_self, least, Nat.le_trans (least id member) early⟩

/-- What was read or acknowledged. -/
def reached (q : Queue) : Nat :=
  max q.lastRead q.lastAck

end Queue

/-! ## What can be seen of a queue -/

/-- An answer, and nothing of it if it is an error. -/
def Answer.told? : Answer α → Option (Answer α)
  | .failed _ => none
  | answer => some answer

namespace StoredQueue

/-- A queue on a disk shows a list: the reader comes to its records from some place on, wherever the segments
begin. That is behind what was read, and behind what was in segments that are gone. -/
structure Shows (s : StoredQueue) (l : ListQueue α) : Prop where
  intact : ∃ ids first, s.queue.Intact s.disk ids l.records ∧ ids.head? = some first ∧
    l.read = max s.queue.lastRead (first - 1)
  lastAck : s.queue.lastAck = l.acked
  isOpen : s.queue.writer.isSome = l.isOpen
  durable : ∀ r ∈ l.records, r.Durable

/-- Two queues on disks of which the same is seen. -/
def Even (α : Type) [Storable α] (s t : StoredQueue) : Prop :=
  ∃ l : ListQueue α, s.Shows l ∧ t.Shows l

/-- What may be asked: versions are acknowledged up to some place, and what is put can be stored or is too
large for a frame. -/
def Serves (upTo : Queue → Nat) (s : StoredQueue) : Call α → Prop
  | .put now obj => s.queue.writer.isSome → s.queue.lastPut + 1 < UInt64.size ∧
      (UInt32.size ≤ (Record.payload ⟨obj, s.queue.lastPut + 1, now⟩).length ∨
        Record.Durable ⟨obj, s.queue.lastPut + 1, now⟩)
  | .ack version => version ≤ upTo s.queue
  | _ => True

/-- What may be asked in turn. -/
def ServesAll (upTo : Queue → Nat) (s : StoredQueue) : List (Call α) → Prop
  | [] => True
  | c :: calls => s.Serves upTo c ∧ ServesAll upTo (s.call c).1 calls

variable {s : StoredQueue} {l : ListQueue α}

theorem Shows.lastPut (h : s.Shows l) : s.queue.lastPut = l.records.length := by
  obtain ⟨ids, first, intact, -⟩ := h.intact
  exact intact.lastPut

/-- What was read or acknowledged, in terms of the list. -/
theorem Shows.reached (h : s.Shows l) : s.queue.reached = max l.read l.acked := by
  obtain ⟨ids, first, intact, head, read⟩ := h.intact
  obtain ⟨first', head', -, -, early⟩ := intact.head
  obtain rfl : first' = first := Option.some.inj (head'.symm.trans head)
  have := h.lastAck
  rw [Queue.reached]
  omega

/-! ### Putting -/

theorem Shows.put_closed (h : s.Shows l) (closed : l.isOpen = false) (now : Int) (obj : α) :
    s.call (.put now obj) = (s, .failed .closed) := by
  have none_open : s.queue.writer = none := by
    have := h.isOpen
    simpa [closed] using this
  simp only [call, after, Queue.put, none_open, Answer.of]

/-- What is too large for a frame is refused, and the same is seen as before. -/
theorem Shows.put_large (h : s.Shows l) (isOpen : l.isOpen = true) (small : l.records.length + 1 < UInt64.size)
    {now : Int} {obj : α} (large : UInt32.size ≤ (Record.payload ⟨obj, l.records.length + 1, now⟩).length) :
    (s.call (.put now obj)).2.told? = none ∧ (s.call (.put now obj)).1.Shows l := by
  obtain ⟨ids, first, intact, head, read⟩ := h.intact
  obtain ⟨w, hw⟩ := Option.isSome_iff_exists.1 (h.isOpen.trans isOpen)
  obtain ⟨d', segments, w', ids', length, put, room, intact'⟩ := Queue.intact_put_large intact hw small large
  simp only [call, after, put]
  exact ⟨rfl, ⟨ids', first, intact', room.head? head, read⟩, h.lastAck, isOpen.symm, h.durable⟩

theorem Shows.put_durable (h : s.Shows l) (isOpen : l.isOpen = true) {now : Int} {obj : α}
    (durable : Record.Durable ⟨obj, l.records.length + 1, now⟩) :
    (s.call (.put now obj)).2 = .version (l.records.length + 1) ∧
      (s.call (.put now obj)).1.Shows { l with records := l.records ++ [⟨obj, l.records.length + 1, now⟩] } := by
  obtain ⟨ids, first, intact, head, read⟩ := h.intact
  obtain ⟨w, hw⟩ := Option.isSome_iff_exists.1 (h.isOpen.trans isOpen)
  obtain ⟨d', segments, w', ids', put, room, intact'⟩ := Queue.intact_put intact hw durable.sized
  simp only [call, after, put]
  exact ⟨rfl, ⟨ids', first, intact', room.head? head, read⟩, h.lastAck, isOpen.symm,
    List.forall_mem_append.2 ⟨h.durable, List.forall_mem_singleton.2 durable⟩⟩

/-- **A put that fails** leaves what is seen. -/
theorem Shows.put_failed (h : s.Shows l) (small : l.records.length + 1 < UInt64.size) {now : Int} {obj : α}
    {e : QueueError} (failed : (s.call (.put now obj)).2 = .failed e) : (s.call (.put now obj)).1.Shows l := by
  cases isOpen : l.isOpen with
  | false => rwa [h.put_closed isOpen]
  | true =>
    by_cases large : UInt32.size ≤ (Record.payload ⟨obj, l.records.length + 1, now⟩).length
    · exact (h.put_large isOpen small large).2
    · obtain ⟨ids, first, intact, -⟩ := h.intact
      obtain ⟨w, hw⟩ := Option.isSome_iff_exists.1 (h.isOpen.trans isOpen)
      obtain ⟨d', segments, w', ids', put, -⟩ := Queue.intact_put intact hw ⟨Nat.lt_of_not_le large, small⟩
      simp only [call, after, put] at failed
      cases failed

/-! ### Getting -/

theorem Shows.get (h : s.Shows l) :
    (s.call (α := α) .get).2 = .element (l.records[l.read]?.map ListQueue.element) ∧
      (s.call (α := α) .get).1.Shows
        { l with read := if l.read < l.records.length then l.read + 1 else l.read } := by
  obtain ⟨ids, first, intact, head, read⟩ := h.intact
  obtain ⟨first', head', listed, least, early⟩ := intact.head
  obtain rfl : first' = first := Option.some.inj (head'.symm.trans head)
  obtain ⟨d', q', result, m, got, intact', gave⟩ := Queue.intact_get intact h.durable
  have next := version_eq_of_gave gave listed least
  have one := intact.one_le _ listed
  obtain rfl : m = l.read := by omega
  simp only [call, after, got]
  refine ⟨?_, ⟨ids, first', intact', head, ?_⟩, gave.passed.lastAck.trans h.lastAck,
    gave.passed.isOpen.trans h.isOpen, h.durable⟩
  · rw [gave.answer]
    rfl
  · dsimp only
    rw [gave.lastRead]
    split <;> omega

/-! ### Acknowledging and opening again -/

/-- What the reader was already behind of does not matter to it, whichever segments go away. -/
theorem Shows.ack (h : s.Shows l) {version : Nat} (behind : version ≤ max l.read l.acked) :
    (s.call (α := α) (.ack version)).2 = .done ∧
      (s.call (α := α) (.ack version)).1.Shows { l with acked := max version l.acked } := by
  by_cases old : version ≤ s.queue.lastAck
  · have same : max version l.acked = l.acked := Nat.max_eq_right (h.lastAck ▸ old)
    rw [call_ack_old old, same]
    exact ⟨rfl, h⟩
  · obtain ⟨ids, first, intact, head, read⟩ := h.intact
    obtain ⟨first', head', listed, least, early⟩ := intact.head
    obtain rfl : first' = first := Option.some.inj (head'.symm.trans head)
    have lastAck := h.lastAck
    have wasRead : version ≤ s.queue.lastRead := by omega
    obtain ⟨d', q', ids', acked, intact', kept⟩ :=
      Queue.intact_ack intact (Nat.le_trans wasRead intact.lastRead)
    obtain ⟨next, head'', -, -, early'⟩ := intact'.head
    have lastAck' : q'.lastAck = max version s.queue.lastAck := kept.lastAck
    have lastRead' : q'.lastRead = s.queue.lastRead := kept.lastRead
    simp only [call, after, acked]
    refine ⟨rfl, ⟨ids', next, intact', head'', ?_⟩, by simp only; omega, ?_, h.durable⟩
    · simp only
      omega
    · simp only [kept.writer, h.isOpen]

theorem Shows.flush (h : s.Shows l) : (s.call (α := α) .flush).1.Shows l := by
  obtain ⟨ids, first, intact, head, read⟩ := h.intact
  obtain ⟨intact', -⟩ := Queue.intact_flush intact
  refine ⟨⟨ids, first, intact', head, ?_⟩, (Queue.lastAck_flush _ _).trans h.lastAck,
    (Queue.isOpen_flush _ _).trans h.isOpen, h.durable⟩
  exact (Queue.lastRead_flush s.disk s.queue).symm ▸ read

theorem Shows.close (h : s.Shows l) : (s.call (α := α) .close).1.Shows { l with isOpen := false } := by
  obtain ⟨ids, first, intact, head, read⟩ := h.intact
  refine ⟨⟨ids, first, Queue.intact_close intact, head, ?_⟩, (Queue.lastAck_flush _ _).trans h.lastAck, rfl,
    h.durable⟩
  exact (Queue.lastRead_flush s.disk s.queue).symm ▸ read

/-- A queue that is opened again goes on behind what was acknowledged. -/
theorem Shows.reopen (h : s.Shows l) (maxSize : Nat) :
    (s.call (α := α) (.reopen maxSize)).2 = .done ∧
      (s.call (α := α) (.reopen maxSize)).1.Shows { l with read := l.acked, isOpen := true } := by
  obtain ⟨ids, first, intact, head, read⟩ := h.intact
  obtain ⟨intact', nothing⟩ := Queue.intact_flush intact
  obtain ⟨d', q', ids', opened, -, intact'', -, folder, -, isOpen, acked, lastRead⟩ :=
    Queue.intact_open (intact'.remains nothing) maxSize
  obtain ⟨next, head', -, -, early⟩ := intact''.head
  rw [Queue.folder_flush] at opened
  rw [Queue.lastAck_flush, h.lastAck] at acked lastRead
  have same : Queue.openIn (s.queue.drop s.disk) s.queue.folder maxSize = (d', .ok q') := opened
  simp only [call, same]
  refine ⟨trivial, ⟨ids', next, intact'', head', ?_⟩, acked, isOpen, h.durable⟩
  simp only
  omega

/-! ## Queues of which the same is seen -/

variable {t : StoredQueue}

theorem Even.get (h : Even α s t) :
    (s.call (α := α) .get).2 = (t.call .get).2 ∧ Even α (s.call (α := α) .get).1 (t.call (α := α) .get).1 := by
  obtain ⟨l, left, right⟩ := h
  exact ⟨left.get.1.trans right.get.1.symm, _, left.get.2, right.get.2⟩

theorem Even.gets (h : Even α s t) (n : Nat) :
    s.answers (List.replicate n (.get : Call α)) = t.answers (List.replicate n .get) ∧
      Even α (s.run (List.replicate n (.get : Call α))) (t.run (List.replicate n (.get : Call α))) := by
  induction n generalizing s t with
  | zero => exact ⟨rfl, h⟩
  | succ n ih =>
    obtain ⟨answer, even⟩ := h.get
    obtain ⟨answers, even'⟩ := ih even
    refine ⟨?_, even'⟩
    rw [List.replicate_succ, StoredQueue.answers, StoredQueue.answers, answer, answers]

/-- Several records are read as they are one by one. -/
theorem Even.getUpTo (h : Even α s t) (n : Nat) :
    (s.call (α := α) (.getUpTo n)).2 = (t.call (.getUpTo n)).2 ∧
      Even α (s.call (α := α) (.getUpTo n)).1 (t.call (α := α) (.getUpTo n)).1 := by
  obtain ⟨left, left'⟩ := call_getUpTo (α := α) s n
  obtain ⟨right, right'⟩ := call_getUpTo (α := α) t n
  rw [left, right, left', right', (h.gets n).1]
  exact ⟨rfl, (h.gets _).2⟩

/-- **Queues of which the same is seen answer the same**, but for the words of an error, and it is the same that
is seen of them afterwards. -/
theorem Even.call (h : Even α s t) {c : Call α} (serves : s.Serves Queue.reached c) :
    (s.call c).2.told? = (t.call c).2.told? ∧ Even α (s.call c).1 (t.call c).1 := by
  cases c with
  | getUpTo n =>
    obtain ⟨answer, even⟩ := h.getUpTo n
    exact ⟨congrArg _ answer, even⟩
  | put now obj =>
    obtain ⟨l, left, right⟩ := h
    cases isOpen : l.isOpen with
    | false =>
      rw [left.put_closed isOpen, right.put_closed isOpen]
      exact ⟨rfl, l, left, right⟩
    | true =>
      obtain ⟨small, fits⟩ := serves (left.isOpen.trans isOpen)
      rw [left.lastPut] at small fits
      rcases fits with large | durable
      · obtain ⟨none_told, left'⟩ := left.put_large isOpen small large
        obtain ⟨none_told', right'⟩ := right.put_large isOpen small large
        exact ⟨none_told.trans none_told'.symm, l, left', right'⟩
      · obtain ⟨answer, left'⟩ := left.put_durable isOpen durable
        obtain ⟨answer', right'⟩ := right.put_durable isOpen durable
        exact ⟨congrArg _ (answer.trans answer'.symm), _, left', right'⟩
  | get =>
    obtain ⟨answer, even⟩ := h.get
    exact ⟨congrArg _ answer, even⟩
  | ack version =>
    obtain ⟨l, left, right⟩ := h
    have behind : version ≤ max l.read l.acked := left.reached ▸ serves
    obtain ⟨answer, left'⟩ := left.ack behind
    obtain ⟨answer', right'⟩ := right.ack behind
    exact ⟨congrArg _ (answer.trans answer'.symm), _, left', right'⟩
  | flush =>
    obtain ⟨l, left, right⟩ := h
    exact ⟨rfl, _, left.flush, right.flush⟩
  | close =>
    obtain ⟨l, left, right⟩ := h
    exact ⟨rfl, _, left.close, right.close⟩
  | reopen maxSize =>
    obtain ⟨l, left, right⟩ := h
    obtain ⟨answer, left'⟩ := left.reopen maxSize
    obtain ⟨answer', right'⟩ := right.reopen maxSize
    exact ⟨congrArg _ (answer.trans answer'.symm), _, left', right'⟩

theorem Even.answers_eq (h : Even α s t) {calls : List (Call α)} (serves : s.ServesAll Queue.reached calls) :
    (s.answers calls).map Answer.told? = (t.answers calls).map Answer.told? := by
  induction calls generalizing s t with
  | nil => rfl
  | cons c calls ih =>
    obtain ⟨answer, even⟩ := h.call serves.1
    rw [answers, answers, List.map_cons, List.map_cons, answer, ih even serves.2]

/-- **Whatever is asked, some list is shown**, also if more is acknowledged than was read. -/
theorem Shows.call (h : s.Shows l) {c : Call α} (serves : s.Serves Queue.lastPut c) :
    ∃ l' : ListQueue α, (s.call c).1.Shows l' := by
  have otherwise (serves : s.Serves Queue.reached c) : ∃ l' : ListQueue α, (s.call c).1.Shows l' := by
    obtain ⟨-, l', shows, -⟩ := Even.call ⟨l, h, h⟩ serves
    exact ⟨l', shows⟩
  cases c with
  | ack version =>
    obtain ⟨ids, first, intact, -⟩ := h.intact
    have known : version ≤ s.queue.lastPut := serves
    obtain ⟨d', q', ids', acked, intact', kept⟩ := Queue.intact_ack intact (h.lastPut ▸ known)
    obtain ⟨first', head', -⟩ := intact'.head
    have left : (s.call (α := α) (.ack version)).1 = ⟨d', q'⟩ := by simp only [StoredQueue.call, after, acked]
    rw [left]
    exact ⟨⟨l.records, max q'.lastRead (first' - 1), q'.lastAck, q'.writer.isSome⟩,
      ⟨ids', first', intact', head', rfl⟩, rfl, rfl, h.durable⟩
  | put now obj => exact otherwise serves
  | get | getUpTo | flush | close | reopen => exact otherwise trivial

theorem Shows.run (h : s.Shows l) {calls : List (Call α)} (serves : s.ServesAll Queue.lastPut calls) :
    ∃ l' : ListQueue α, (s.run calls).Shows l' := by
  induction calls generalizing s l with
  | nil => exact ⟨l, h⟩
  | cons c calls ih =>
    obtain ⟨l', shows⟩ := h.call serves.1
    exact ih shows serves.2

end StoredQueue

end Outbox
