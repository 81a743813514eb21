import Outbox.Proofs.Queue.Corruption
import Outbox.Proofs.Queue.Decoding

/-!
# Reading several records

A call for several records is that many gets, and stops at the first one that gives none. What it has read
it holds until it returns, so where one of the gets fails, the records before the failure are given to
nobody: they count as read, and until the queue is opened again the next record given is behind them.

Nothing is asked of the disk or of the queue here. Segments may be damaged, foreign or missing.

* `Queue.lastRead_get` is the step: a get gives a record above everything that was read;
* `StoredQueue.Rises` says that of a call, and `StoredQueue.rises_call` that all calls but opening do so;
  `StoredQueue.given_answers` is what is given later;
* `StoredQueue.getUpTo_gets` is the result.
-/

namespace Outbox

variable {α : Type} [Storable α]

/-! ## Reading on -/

/-- What a reader finds is above the version that it was asked for. -/
theorem SegmentReader.lt_version_of_seekIn {r r' : SegmentReader} {above : Nat} {w : Window}
    {record : Record α} {size : Nat} (found : r.seekIn above w = (r', .record record size)) :
    above < record.version := by
  fun_induction seekIn (α := α) r above w with
  | case1 => simp at found
  | case2 => simp at found
  | case3 => simp at found
  | case4 r w w' payload rest next size' r₁ record' parsed old ih => exact ih found
  | case5 r w w' payload rest next size' r₁ record' parsed fresh =>
    simp only [Prod.mk.injEq, Reached.record.injEq] at found
    obtain ⟨-, rfl, -⟩ := found
    exact Nat.lt_of_not_le fresh

theorem SegmentReader.lt_version_of_seek {d : Disk} {r r' : SegmentReader} {above : Nat}
    {record : Record α} {size : Nat} (found : r.seek d above = (r', .record record size)) :
    above < record.version := by
  unfold seek at found
  split at found
  · exact lt_version_of_seekIn found
  · simp at found

/-- What an answer has for the caller. -/
def Answer.given : Answer α → List (Element α)
  | .element e => e.toList
  | .elements es => es
  | _ => []

namespace Queue

/-- How far a queue is read after a get: as far as the record that was given, or else as far as before. -/
def Reads (above : Nat) (result : Except QueueError (Option (Element α))) (lastRead : Nat) : Prop :=
  match result with
  | .ok (some e) => above < e.record.version ∧ lastRead = e.record.version
  | _ => lastRead = above

theorem lastRead_getThrough (d : Disk) (q : Queue) (later : List Nat) :
    Reads q.lastRead (q.getThrough (α := α) d later).2 (q.getThrough (α := α) d later).1.lastRead := by
  fun_induction getThrough (α := α) d q later with
  | case1 => rfl
  | case2 => rfl
  | case3 q later r current r' record size seek => exact ⟨SegmentReader.lt_version_of_seek seek, rfl⟩
  | case4 => rfl
  | case5 q r current r' seek next rest ih => exact ih

/-- **A get gives a record above everything that was read**, and the queue is read as far as that record. -/
theorem lastRead_get (d : Disk) (q : Queue) :
    Reads q.lastRead (q.get (α := α) d).result (q.get (α := α) d).queue.lastRead := by
  rw [← lastRead_flush d q]
  exact lastRead_getThrough (q.flush d).1 (q.flush d).2 _

theorem lastRead_put (d : Disk) (q : Queue) (now : Int) (obj : α) :
    (q.put d now obj).queue.lastRead = q.lastRead := by
  obtain ⟨_, _, _, -, same⟩ := put_eq d q now obj
  rw [same]

theorem lastRead_ack (d : Disk) (q : Queue) (version : Nat) :
    (q.ack d version).queue.lastRead = q.lastRead := by
  unfold ack
  split
  · rfl
  · exact (kept_pruneAlong _ _ _).lastRead

end Queue

namespace StoredQueue

/-- A call that gives records above everything that was read, if it gives any, and after which the queue is
read as far as these at least. -/
structure Rises (s s' : StoredQueue) (a : Answer α) : Prop where
  lastRead : s.queue.lastRead ≤ s'.queue.lastRead
  given : ∀ e ∈ a.given, s.queue.lastRead < e.record.version ∧ e.record.version ≤ s'.queue.lastRead

omit [Storable α] in
/-- A call that leaves the reader alone gives nothing. -/
theorem rises_of_eq {s s' : StoredQueue} {a : Answer α} (nothing : a.given = [])
    (same : s'.queue.lastRead = s.queue.lastRead) : s.Rises s' a where
  lastRead := Nat.le_of_eq same.symm
  given e member := by
    rw [nothing] at member
    cases member

/-! ## Several gets -/

/-- The elements that the answers give before the first one that gives none. -/
def readIn : List (Answer α) → List (Element α)
  | .element (some e) :: answers => e :: readIn answers
  | _ => []

/-- The answers taken together: a failure that comes behind the elements that were read, or else these. -/
def together (answers : List (Answer α)) : Answer α :=
  match answers[(readIn answers).length]? with
  | some (.failed e) => .failed e
  | _ => .elements (readIn answers)

omit [Storable α] in
theorem together_cons (e : Element α) (answers : List (Answer α)) :
    together (.element (some e) :: answers) =
      match together answers with
      | .elements es => .elements (e :: es)
      | a => a := by
  simp only [together, readIn, List.length_cons, List.getElem?_cons_succ]
  split <;> rfl

omit [Storable α] in
/-- What is given of answers taken together was read in them. -/
theorem mem_readIn_of_together {answers : List (Answer α)} {e : Element α}
    (given : e ∈ (together answers).given) : e ∈ readIn answers := by
  unfold together at given
  split at given
  · cases given
  · exact given

/-- **A call for several records is answered as that many gets are**, taken together. The queue is left as
after the gets that were made: those that gave a record, and the one behind them. -/
theorem call_getUpTo (s : StoredQueue) (n : Nat) :
    (s.call (.getUpTo n)).2 = together (s.answers (List.replicate n (.get : Call α))) ∧
      (s.call (α := α) (.getUpTo n)).1 = s.run (List.replicate
        (min n ((readIn (s.answers (List.replicate n (.get : Call α)))).length + 1)) (.get : Call α)) := by
  induction n generalizing s with
  | zero => exact ⟨rfl, rfl⟩
  | succ n ih =>
    rw [List.replicate_succ, answers]
    simp only [call, Queue.getUpTo, after]
    generalize got : s.queue.get (α := α) s.disk = o
    have first : (s.call (α := α) .get).1 = ⟨o.disk, o.queue⟩ := by rw [← got]; rfl
    have once (n : Nat) : min (n + 1) (0 + 1) = 1 := by omega
    obtain ⟨d₁, q₁, e | _ | element⟩ := o
    · exact ⟨rfl, (once n).symm ▸ first.symm⟩
    · exact ⟨rfl, (once n).symm ▸ first.symm⟩
    · obtain ⟨answer, left⟩ := ih ⟨d₁, q₁⟩
      rw [Answer.of, together_cons, ← answer, readIn, List.length_cons, Nat.add_min_add_right,
        List.replicate_succ]
      refine ⟨?_, ?_⟩
      · simp only [call, after]
        cases (q₁.getUpTo (α := α) d₁ n).result <;> rfl
      · show _ = run (s.call .get).1 _
        rw [first, ← left]
        rfl

/-- What several gets read lies between what was read before and what is read afterwards. -/
theorem lastRead_getUpTo (s : StoredQueue) (n : Nat) :
    s.queue.lastRead ≤ (s.call (α := α) (.getUpTo n)).1.queue.lastRead ∧
      ∀ e ∈ readIn (s.answers (List.replicate n (.get : Call α))),
        s.queue.lastRead < e.record.version ∧
          e.record.version ≤ (s.call (α := α) (.getUpTo n)).1.queue.lastRead := by
  induction n generalizing s with
  | zero => exact ⟨Nat.le_refl _, fun e member => by cases member⟩
  | succ n ih =>
    have step := Queue.lastRead_get (α := α) s.disk s.queue
    rw [List.replicate_succ, answers]
    simp only [call, Queue.getUpTo, after]
    generalize s.queue.get (α := α) s.disk = o at step
    obtain ⟨d₁, q₁, e | _ | element⟩ := o
    · exact ⟨Nat.le_of_eq step.symm, fun e member => by cases member⟩
    · exact ⟨Nat.le_of_eq step.symm, fun e member => by cases member⟩
    · obtain ⟨above, read⟩ := step
      obtain ⟨further, later⟩ := ih ⟨d₁, q₁⟩
      simp only [call, after] at further later
      rw [read] at further later
      refine ⟨Nat.le_trans (Nat.le_of_lt above) further, fun e member => ?_⟩
      rcases List.mem_cons.1 member with rfl | behind
      · exact ⟨above, further⟩
      · exact ⟨Nat.lt_trans above (later e behind).1, (later e behind).2⟩

/-! ## What comes later -/

/-- The calls that do not open the queue again. -/
def GoesOn : Call α → Prop
  | .reopen _ => False
  | _ => True

/-- **Every call but opening goes on from what was read.** -/
theorem rises_call (s : StoredQueue) {c : Call α} (goesOn : GoesOn c) : s.Rises (s.call c).1 (s.call c).2 := by
  cases c with
  | put now obj =>
    refine rises_of_eq ?_ (Queue.lastRead_put s.disk s.queue now obj)
    simp only [call, after]
    cases (s.queue.put s.disk now obj).result <;> rfl
  | get =>
    have step := Queue.lastRead_get (α := α) s.disk s.queue
    simp only [call, after]
    generalize s.queue.get (α := α) s.disk = o at step
    obtain ⟨d₁, q₁, e | _ | element⟩ := o
    · exact rises_of_eq rfl step
    · exact rises_of_eq rfl step
    · obtain ⟨above, read⟩ := step
      refine ⟨Nat.le_trans (Nat.le_of_lt above) (Nat.le_of_eq read.symm), fun e member => ?_⟩
      obtain rfl : e = element := by simpa [Answer.of, Answer.given] using member
      exact ⟨above, Nat.le_of_eq read.symm⟩
  | getUpTo n =>
    obtain ⟨further, read⟩ := lastRead_getUpTo (α := α) s n
    refine ⟨further, fun e member => read e ?_⟩
    rw [(call_getUpTo s n).1] at member
    exact mem_readIn_of_together member
  | ack version =>
    refine rises_of_eq ?_ (Queue.lastRead_ack s.disk s.queue version)
    simp only [call, after]
    cases (s.queue.ack s.disk version).result <;> rfl
  | flush =>
    exact rises_of_eq rfl (Queue.lastRead_flush s.disk s.queue)
  | close =>
    exact rises_of_eq rfl (Queue.lastRead_flush s.disk s.queue)
  | reopen => exact goesOn.elim

/-- All that is given until the queue is opened again is above what was read. -/
theorem given_answers (s : StoredQueue) {calls : List (Call α)} (goesOn : ∀ c ∈ calls, GoesOn c) :
    ∀ a ∈ s.answers calls, ∀ e ∈ a.given, s.queue.lastRead < e.record.version := by
  induction calls generalizing s with
  | nil => intro a member; cases member
  | cons c calls ih =>
    have rises := s.rises_call (goesOn c List.mem_cons_self)
    intro a member e given
    rcases List.mem_cons.1 member with rfl | later
    · exact (rises.given e given).1
    · exact Nat.lt_of_le_of_lt rises.lastRead
        (ih _ (fun c' inside => goesOn c' (List.mem_cons_of_mem c inside)) a later e given)

/-- A call for several records is that many gets, and what they have read is not read again. -/
structure GetsEach (α : Type) [Storable α] (s : StoredQueue) (n : Nat) : Prop where
  answer : (s.call (.getUpTo n)).2 = together (s.answers (List.replicate n (.get : Call α)))
  left : (s.call (α := α) (.getUpTo n)).1 = s.run (List.replicate
    (min n ((readIn (s.answers (List.replicate n (.get : Call α)))).length + 1)) (.get : Call α))
  /-- Whether the call failed or not, all that is given from then on is behind the records that were read,
  until the queue is opened again. -/
  gone : ∀ calls : List (Call α), (∀ c ∈ calls, GoesOn c) →
    ∀ a ∈ (s.call (α := α) (.getUpTo n)).1.answers calls, ∀ later ∈ a.given,
      ∀ e ∈ readIn (s.answers (List.replicate n (.get : Call α))), e.record.version < later.record.version

/-- **Several records are read one by one.** If a get among them fails, the call fails with what it says, and
the records that were read before are lost to the caller. -/
theorem getUpTo_gets (s : StoredQueue) (n : Nat) : s.GetsEach α n where
  answer := (s.call_getUpTo n).1
  left := (s.call_getUpTo n).2
  gone _ goesOn a member later given e read :=
    Nat.lt_of_le_of_lt ((s.lastRead_getUpTo n).2 e read).2 (given_answers _ goesOn a member later given)

/-- The second of three gets fails. The first record was read, is not given, and comes no more. -/
theorem getUpTo_losesRecord : ∃ d q, Queue.openIn Queue.damagedFolder ["queue"] 1 = (d, .ok q) ∧
    readIn (answers ⟨d, q⟩ [.get, .get, .get]) = [ListQueue.element (⟨"a", 1, 5⟩ : Record String)] ∧
    answers ⟨d, q⟩ [.getUpTo 3, .getUpTo 3] =
      [.failed (.badFrame "data-1.log" 39 .noTerminator),
        .elements [ListQueue.element ⟨"c", 3, 5⟩, ListQueue.element (⟨"d", 4, 5⟩ : Record String)]] := by
  have facts : (Queue.openIn Queue.damagedFolder ["queue"] 1).2.toOption.map (fun q =>
      let s : StoredQueue := ⟨(Queue.openIn Queue.damagedFolder ["queue"] 1).1, q⟩
      (readIn (s.answers [.get, .get, .get]), s.answers [.getUpTo 3, .getUpTo 3])) =
      some ([ListQueue.element (⟨"a", 1, 5⟩ : Record String)],
        [.failed (.badFrame "data-1.log" 39 .noTerminator),
          .elements [ListQueue.element ⟨"c", 3, 5⟩, ListQueue.element ⟨"d", 4, 5⟩]]) := by
    decide +kernel
  rcases opens : Queue.openIn Queue.damagedFolder ["queue"] 1 with ⟨d, e | q⟩
  · rw [opens] at facts
    cases facts
  · rw [opens] at facts
    obtain ⟨read, given⟩ := Prod.mk.inj (Option.some.inj facts)
    exact ⟨d, q, rfl, read, given⟩

end StoredQueue

end Outbox
