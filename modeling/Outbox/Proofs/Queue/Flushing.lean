import Outbox.Proofs.Queue.Refinement

/-!
# What is held back is not to be seen

A queue answers the same whether what its writer holds back was handed to the disk or not, whatever is asked
and whatever happens to the names on the disk meanwhile. The only thing that matters is that the acknowledged
version is in another file than the one that is written.

* `SegmentWriter.flush_writeAll` says what is on the disk after bytes were written and flushed;
* `Outcome.flushed` hands over what is held back after an operation, and `Queue.put_flush` and `Queue.ack_flush`
  say that it might as well have been done before;
* `Move` is a call, or something that happens to the names on the disk, and `StoredQueue.turn` one of them;
* `StoredQueue.Alike.turn` is the step, and `StoredQueue.Alike.replies_eq` the result.
-/

namespace Outbox

/-! ## At the end of a file -/

namespace Disk

variable (d : Disk) (file : Nat)

@[simp] theorem append_nil : d.append file [] = d := by
  rw [append, List.append_nil, update_read]

theorem append_append (a b : List UInt8) : (d.append file a).append file b = d.append file (a ++ b) := by
  by_cases inside : file < d.contents.length
  · rw [append, append, append, read_update_same inside, List.append_assoc]
    simp only [update, List.set_set]
  · -- a file that never was cannot be written
    have same (bytes : List UInt8) : d.append file bytes = d := by
      simp only [append, update, List.set_eq_of_length_le (Nat.le_of_not_lt inside)]
    rw [same, same, same]

theorem read_append_other {file' : Nat} (other : file ≠ file') (bytes : List UInt8) :
    (d.append file bytes).read file' = d.read file' :=
  read_update_other other _

/-- Who writes in one file does not mind what is written in another one. -/
theorem update_append_comm {file' : Nat} (other : file' ≠ file) (bytes more : List UInt8) :
    (d.append file more).update file' bytes = (d.update file' bytes).append file more := by
  rw [append, append, read_update_other other]
  simp only [update, List.set_comm _ _ (Ne.symm other)]

/-- Nor which names are removed. -/
theorem unlink?_append (p : Place) (more : List UInt8) :
    (d.append file more).unlink? p = (d.unlink? p).map (·.append file more) := by
  simp only [unlink?, append, lookup?_update]
  split <;> rfl

end Disk

/-! ## A writer that is flushed -/

namespace SegmentWriter

variable (d : Disk) (w : SegmentWriter)

theorem flush_eq_append : w.flush d = (d.append w.file w.buffer, { w with buffer := [] }) := by
  unfold flush
  split
  · next empty =>
    obtain ⟨id, file, buffer, size⟩ := w
    obtain rfl : buffer = [] := List.isEmpty_iff.1 empty
    rw [Disk.append_nil]
  · rfl

/-- Handing the buffer over early makes no difference. -/
theorem flush_makeRoom (n : Nat) : (w.makeRoom d n).2.flush (w.makeRoom d n).1 = w.flush d := by
  unfold makeRoom
  split
  · rw [flush_eq_append, flush_eq_append d w, Disk.append_nil]
  · rfl

theorem file_makeRoom (n : Nat) : (w.makeRoom d n).2.file = w.file := by
  unfold makeRoom
  split
  · rw [flush_eq_append]
  · rfl

theorem file_write (bytes : List UInt8) : (w.write d bytes).2.file = w.file := by
  unfold write
  dsimp only
  split <;> exact file_makeRoom d w bytes.length

theorem flush_write (bytes : List UInt8) : (w.write d bytes).2.flush (w.write d bytes).1 =
    (d.append w.file (w.buffer ++ bytes), { w with buffer := [] }) := by
  have flushed := flush_makeRoom d w bytes.length
  have emptied := buffer_makeRoom d w (n := bytes.length)
  have file := file_makeRoom d w bytes.length
  unfold write
  generalize w.makeRoom d bytes.length = made at flushed emptied file ⊢
  obtain ⟨d', w'⟩ := made
  dsimp only at flushed emptied file ⊢
  rw [flush_eq_append, flush_eq_append d w, Prod.mk.injEq] at flushed
  obtain ⟨disk, writer⟩ := flushed
  rw [← Disk.append_append, ← disk, ← writer, file]
  split
  · next many =>
    rw [flush_eq_append, emptied many, Disk.append_nil, Disk.append_nil, file]
  · simp only [flush_eq_append, Disk.append_append]

/-- **What was written is on the disk** once it is flushed. -/
theorem flush_writeAll (pieces : List (List UInt8)) :
    (w.writeAll d pieces).2.flush (w.writeAll d pieces).1 =
      (d.append w.file (w.buffer ++ pieces.flatten), { w with buffer := [] }) := by
  induction pieces generalizing d w with
  | nil =>
    rw [List.flatten_nil, List.append_nil, ← flush_eq_append]
    rfl
  | cons piece rest ih =>
    have flushed := flush_write d w piece
    have file := file_write d w piece
    unfold writeAll
    generalize w.write d piece = written at flushed file ⊢
    obtain ⟨d', w'⟩ := written
    dsimp only at flushed file ⊢
    rw [flush_eq_append, Prod.mk.injEq] at flushed
    obtain ⟨disk, writer⟩ := flushed
    rw [ih, writer, List.flatten_cons, ← List.append_assoc, ← Disk.append_append, disk, file,
      Disk.append_append]

theorem file_writeAll (pieces : List (List UInt8)) : (w.writeAll d pieces).2.file = w.file := by
  induction pieces generalizing d w with
  | nil => rfl
  | cons piece rest ih => exact (ih _ _).trans (file_write d w piece)

theorem file_put (payload : List UInt8) : (w.put d payload).2.1.file = w.file := by
  unfold put
  split
  · exact file_writeAll d w (Frame.parts payload)
  · rfl

/-- Nothing but the writer's file is written. -/
theorem onlyChanges_put (payload : List UInt8) : d.OnlyChanges (w.put d payload).1 w.file := by
  unfold put
  split
  · have flushed := flush_writeAll d w (Frame.parts payload)
    have file := file_writeAll d w (Frame.parts payload)
    dsimp only
    generalize w.writeAll d (Frame.parts payload) = o at flushed file ⊢
    obtain ⟨d', w'⟩ := o
    dsimp only at flushed file ⊢
    rw [flush_eq_append, file, Prod.mk.injEq] at flushed
    obtain ⟨disk, -⟩ := flushed
    have before := Disk.OnlyChanges.update d w.file (d.read w.file ++ (w.buffer ++ (Frame.parts payload).flatten))
    have after := Disk.OnlyChanges.update d' w.file (d'.read w.file ++ w'.buffer)
    rw [← Disk.append] at before after
    rw [disk] at after
    exact ⟨after.entries.symm.trans before.entries, after.length.symm.trans before.length,
      fun other => (after.other other).symm.trans (before.other other)⟩
  · exact .refl ..

/-- **A payload may be put before or after what is held back is handed over.** -/
theorem put_flush (payload : List UInt8) :
    let o := w.put d payload
    let o' := (w.flush d).2.put (w.flush d).1 payload
    o'.2.1.flush o'.1 = o.2.1.flush o.1 ∧ o'.2.2 = o.2.2 := by
  rw [flush_eq_append d w]
  have before := flush_writeAll d w (Frame.parts payload)
  have after := flush_writeAll (d.append w.file w.buffer) { w with buffer := [] } (Frame.parts payload)
  dsimp only at after
  rw [List.nil_append, Disk.append_append, ← before] at after
  unfold put
  dsimp only
  split
  · refine ⟨?_, rfl⟩
    rw [flush_eq_append, flush_eq_append, Prod.mk.injEq, mk.injEq] at after
    obtain ⟨disk, id, file, -, -⟩ := after
    simp only [flush_eq_append]
    rw [disk, id, file]
  · refine ⟨?_, rfl⟩
    simp only [flush_eq_append, Disk.append_nil]

end SegmentWriter

/-! ## A queue that is flushed -/

/-- The acknowledged version is in another file than the one that is written. -/
def Queue.Apart (q : Queue) : Prop :=
  ∀ w, q.writer = some w → w.file ≠ q.ackFile

/-- An operation after which nothing is held back. -/
def Outcome.flushed {β : Type} (o : Outcome β) : Outcome β :=
  ⟨(o.queue.flush o.disk).1, (o.queue.flush o.disk).2, o.result⟩

namespace Queue

variable (d : Disk) (q : Queue)

theorem flush_eq_of_writer {w : SegmentWriter} (hw : q.writer = some w) :
    q.flush d = (d.append w.file w.buffer, { q with writer := some { w with buffer := [] } }) := by
  simp only [flush, hw, SegmentWriter.flush_eq_append]

theorem flush_eq_of_closed (closed : q.writer = none) : q.flush d = (d, q) := by
  simp only [flush, closed]

/-- A second time there is nothing left to hand over. -/
theorem flush_flush : (q.flush d).2.flush (q.flush d).1 = q.flush d := by
  cases hw : q.writer with
  | none => rw [flush_eq_of_closed d q hw, flush_eq_of_closed d q hw]
  | some w =>
    rw [flush_eq_of_writer d q hw, flush_eq_of_writer _ _ rfl]
    simp only [Disk.append_nil]

theorem apart_flush : (q.flush d).2.Apart ↔ q.Apart := by
  cases hw : q.writer with
  | none => rw [flush_eq_of_closed d q hw]
  | some w =>
    rw [flush_eq_of_writer d q hw]
    simp [Apart, hw]

theorem roll_flush (id : Nat) : (q.flush d).2.roll (q.flush d).1 id = q.roll d id := by
  simp only [roll, flush_flush, folder_flush]

end Queue

theorem Outcome.flushed_flushed {β : Type} (o : Outcome β) : o.flushed.flushed = o.flushed := by
  simp only [flushed, Queue.flush_flush]

namespace Queue

/-! ### Putting -/

section put

variable {d : Disk} {q : Queue} {α : Type} [Storable α] {now : Int} {obj : α} {w : SegmentWriter}

/-- Where a new segment is begun, everything is handed over anyway. -/
theorem put_flush_of_full (hw : q.writer = some w)
    (full : 0 < w.size ∧ q.maxSize < w.size + Frame.size (Record.payload ⟨obj, q.lastPut + 1, now⟩)) :
    (q.flush d).2.put (q.flush d).1 now obj = q.put d now obj := by
  have rolls := roll_flush d q (q.lastPut + 1)
  rw [flush_eq_of_writer d q hw] at rolls ⊢
  simp only [put, hw, rollFor, if_pos full, rolls]

/-- Where there is room, the writer goes on in its segment. -/
theorem put_of_room (d : Disk) (now : Int) (obj : α) (hw : q.writer = some w)
    (room : ¬ (0 < w.size ∧
      q.maxSize < w.size + Frame.size (Record.payload ⟨obj, q.lastPut + 1, now⟩))) :
    q.put d now obj =
      match w.put d (Record.payload ⟨obj, q.lastPut + 1, now⟩) with
      | (d', w', .ok ()) => ⟨d', { q with writer := some w', lastPut := q.lastPut + 1 }, .ok (q.lastPut + 1)⟩
      | (d', w', .error e) => ⟨d', { q with writer := some w' }, .error e⟩ := by
  simp only [put, hw, rollFor, if_neg room, append]
  generalize w.put d _ = o
  obtain ⟨d', w', e | ⟨⟩⟩ := o <;> rfl

/-- **A put that follows a flush** does what it would have done before it. -/
theorem put_flush (d : Disk) (q : Queue) (now : Int) (obj : α) :
    ((q.flush d).2.put (q.flush d).1 now obj).flushed = (q.put d now obj).flushed := by
  cases hw : q.writer with
  | none => rw [flush_eq_of_closed d q hw]
  | some w =>
    by_cases full : 0 < w.size ∧ q.maxSize < w.size + Frame.size (Record.payload ⟨obj, q.lastPut + 1, now⟩)
    · rw [put_flush_of_full hw full]
    · obtain ⟨flushed, result⟩ := SegmentWriter.put_flush d w (Record.payload ⟨obj, q.lastPut + 1, now⟩)
      have after := put_of_room (q := { q with writer := some { w with buffer := [] } })
        (d.append w.file w.buffer) now obj rfl full
      rw [SegmentWriter.flush_eq_append d w] at flushed result
      rw [flush_eq_of_writer d q hw, put_of_room d now obj hw full]
      dsimp only at flushed result after ⊢
      rw [after]
      generalize w.put d _ = o at flushed result ⊢
      generalize SegmentWriter.put _ _ _ = o' at flushed result ⊢
      obtain ⟨d₁, w₁, r⟩ := o
      obtain ⟨d₂, w₂, r'⟩ := o'
      obtain rfl : r' = r := result
      dsimp only at flushed
      cases r' <;> simp only [Outcome.flushed, flush, flushed]

end put

/-! ### Acknowledging -/

variable (d : Disk) (q : Queue)

/-- Removing a segment and flushing do not mind each other. -/
theorem removeSegment_flush (id next : Nat) (file : String) :
    (q.flush d).2.removeSegment (q.flush d).1 id next file = (q.removeSegment d id next file).flushed := by
  cases hw : q.writer with
  | none =>
    have closed := (kept_removeSegment d q id next file).writer.trans hw
    rw [flush_eq_of_closed d q hw, Outcome.flushed, flush_eq_of_closed _ _ closed]
  | some w =>
    rw [flush_eq_of_writer d q hw, Outcome.flushed,
      flush_eq_of_writer _ _ ((kept_removeSegment d q id next file).writer.trans hw)]
    simp only [removeSegment, Disk.unlink?_append]
    cases d.unlink? (q.folder ++ [file]) <;> simp only [Option.map_none, Option.map_some] <;> split <;> rfl

theorem pruneAlong_flush (table : SegmentTable) :
    (q.flush d).2.pruneAlong (q.flush d).1 table = (q.pruneAlong d table).flushed := by
  induction table generalizing d q with
  | nil => rfl
  | cons first rest ih =>
    cases rest with
    | nil => rfl
    | cons second rest =>
      obtain ⟨id, file⟩ := first
      obtain ⟨next, nextFile⟩ := second
      simp only [pruneAlong, lastAck_flush, removeSegment_flush]
      split
      · rfl
      · generalize q.removeSegment d id next file = removed
        obtain ⟨d₁, q₁, e | ⟨⟩⟩ := removed
        · rfl
        · exact ih d₁ q₁

/-- So do noting a version and flushing, in different files. -/
theorem noteAck_flush (apart : q.Apart) (version : Nat) :
    ({ q with lastAck := version } : Queue).flush
        (d.update q.ackFile (versionBytes version ++ (d.read q.ackFile).drop 8)) =
      ((q.flush d).1.update q.ackFile (versionBytes version ++ ((q.flush d).1.read q.ackFile).drop 8),
        { (q.flush d).2 with lastAck := version }) := by
  cases hw : q.writer with
  | none => simp only [flush, hw]
  | some w =>
    have other := apart w hw
    simp only [flush, hw, SegmentWriter.flush_eq_append, Disk.read_append_other _ _ other,
      Disk.update_append_comm _ _ (Ne.symm other)]

/-- **Acknowledging a version and flushing do not mind each other.** -/
theorem ack_flush (apart : q.Apart) (version : Nat) :
    (q.flush d).2.ack (q.flush d).1 version = (q.ack d version).flushed := by
  have noted := noteAck_flush d q apart version
  unfold ack
  rw [lastAck_flush, ackFile_flush]
  split
  · rfl
  · have pruned := pruneAlong_flush (d.update q.ackFile (versionBytes version ++ (d.read q.ackFile).drop 8))
      { q with lastAck := version } q.segments
    rw [noted] at pruned
    unfold prune
    dsimp only at pruned ⊢
    rw [segments_flush, ackFile_flush] at pruned
    rw [segments_flush]
    exact pruned

theorem apart_of_ack (apart : q.Apart) (version : Nat) : (q.ack d version).queue.Apart := by
  unfold ack
  split
  · exact apart
  · have kept := kept_pruneAlong (d.update q.ackFile (versionBytes version ++ (d.read q.ackFile).drop 8))
      { q with lastAck := version } q.segments
    intro w hw
    exact fun same => apart w (kept.writer.symm.trans hw) (same.trans kept.ackFile)

/-- Putting without a new segment leaves the file that is written. -/
theorem apart_of_put {α : Type} [Storable α] (now : Int) (obj : α) (apart : q.Apart) :
    (q.put d now obj).queue.Apart ∨ (q.flush d).2.put (q.flush d).1 now obj = q.put d now obj := by
  cases hw : q.writer with
  | none =>
    rw [flush_eq_of_closed d q hw]
    exact .inr rfl
  | some w =>
    by_cases full : 0 < w.size ∧ q.maxSize < w.size + Frame.size (Record.payload ⟨obj, q.lastPut + 1, now⟩)
    · exact .inr (put_flush_of_full hw full)
    · refine .inl ?_
      have file := SegmentWriter.file_put d w (Record.payload ⟨obj, q.lastPut + 1, now⟩)
      rw [put_of_room d now obj hw full]
      generalize w.put d _ = o at file ⊢
      obtain ⟨d₁, w₁, e | ⟨⟩⟩ := o
      all_goals
        rintro _ ⟨⟩
        exact fun same => apart w hw (file.symm.trans same)

end Queue

/-! ## Calls and names -/

/-- What happens: something is asked of the queue, or others give names on the disk and remove them. -/
inductive Move (α : Type) where
  | call (c : Call α)
  /-- What the names on the disk stand for from then on. -/
  | names (entries : List (Place × Entry))

namespace StoredQueue

variable {α : Type} [Storable α]

/-- A move, and the answer if it is a call. A queue that cannot be opened again stays closed. -/
def turn (s : StoredQueue) : Move α → StoredQueue × Answer α
  | .call (.reopen maxSize) =>
    match Queue.openIn (s.queue.drop s.disk) s.queue.folder maxSize with
    | (d, .ok q) => (⟨d, q⟩, .done)
    | (d, .error e) => (⟨d, (s.queue.close s.disk).2⟩, .failed e)
  | .call c => s.call c
  | .names entries => (⟨{ s.disk with entries := entries }, s.queue⟩, .done)

/-- The answers to moves in turn. -/
def replies (s : StoredQueue) : List (Move α) → List (Answer α)
  | [] => []
  | m :: moves => (s.turn m).2 :: replies (s.turn m).1 moves

/-- What moves in turn lead to. -/
def reach (s : StoredQueue) (moves : List (Move α)) : StoredQueue :=
  moves.foldl (fun s m => (s.turn m).1) s

/-- The queue with nothing held back. -/
def flushed (s : StoredQueue) : StoredQueue :=
  ⟨(s.queue.flush s.disk).1, (s.queue.flush s.disk).2⟩

theorem flushed_flushed (s : StoredQueue) : s.flushed.flushed = s.flushed := by
  simp only [flushed, Queue.flush_flush]

/-- What the names stand for is no matter to a writer. -/
theorem flushed_names (s : StoredQueue) (entries : List (Place × Entry)) :
    flushed ⟨{ s.disk with entries := entries }, s.queue⟩ =
      ⟨{ s.flushed.disk with entries := entries }, s.flushed.queue⟩ := by
  cases hw : s.queue.writer with
  | none => simp only [flushed, Queue.flush_eq_of_closed _ _ hw]
  | some w =>
    simp only [flushed, Queue.flush_eq_of_writer _ _ hw]
    rfl

omit [Storable α] in
theorem after_flushed {β : Type} (answer : β → Answer α) {o o' : Outcome β} (h : o'.flushed = o.flushed) :
    (after answer o').2 = (after answer o).2 ∧ (after answer o').1.flushed = (after answer o).1.flushed := by
  obtain ⟨disk, queue, result⟩ := Outcome.mk.inj h
  refine ⟨congrArg (Answer.of answer) result, ?_⟩
  show StoredQueue.mk (o'.queue.flush o'.disk).1 (o'.queue.flush o'.disk).2 = _
  rw [disk, queue]
  rfl

/-- **A move does the same to a queue whether it was flushed before or not**, up to what is held back. -/
theorem turn_flushed {s : StoredQueue} (apart : s.queue.Apart) (m : Move α) :
    s.flushed.turn m = s.turn m ∨
      (s.flushed.turn m).2 = (s.turn m).2 ∧ (s.flushed.turn m).1.flushed = (s.turn m).1.flushed ∧
        (s.turn m).1.queue.Apart := by
  have again : s.flushed.queue.flush s.flushed.disk = s.queue.flush s.disk := Queue.flush_flush _ _
  cases m with
  | names entries => exact .inr ⟨rfl, by simp only [turn, flushed_names, flushed_flushed], apart⟩
  | call c =>
    cases c with
    | put now obj =>
      rcases Queue.apart_of_put s.disk s.queue now obj apart with apart' | same
      · obtain ⟨answer, queue⟩ := after_flushed (.version : Nat → Answer α)
          (Queue.put_flush s.disk s.queue now obj)
        exact .inr ⟨answer, queue, apart'⟩
      · exact .inl (congrArg (after (.version : Nat → Answer α)) same)
    | ack version =>
      have same : (s.flushed.queue.ack s.flushed.disk version).flushed = (s.queue.ack s.disk version).flushed :=
        (congrArg Outcome.flushed (Queue.ack_flush s.disk s.queue apart version)).trans
          (Outcome.flushed_flushed _)
      obtain ⟨answer, queue⟩ := after_flushed (fun _ => (.done : Answer α)) same
      exact .inr ⟨answer, queue, Queue.apart_of_ack _ _ apart version⟩
    | get =>
      refine .inl ?_
      simp only [turn, call, Queue.get, again]
    | getUpTo n =>
      cases n with
      | zero => exact .inr ⟨rfl, flushed_flushed s, apart⟩
      | succ n =>
        refine .inl ?_
        simp only [turn, call, Queue.getUpTo, Queue.get, again]
    | flush =>
      refine .inl ?_
      simp only [turn, call, again]
    | close =>
      refine .inl ?_
      simp only [turn, call, Queue.close, again]
    | reopen maxSize =>
      refine .inl ?_
      have folder : s.flushed.queue.folder = s.queue.folder := Queue.folder_flush _ _
      simp only [turn, Queue.drop, Queue.close, again, folder]

/-- Two queues that are the same, or differ in what is held back. -/
def Alike (s t : StoredQueue) : Prop :=
  s = t ∨ s.flushed = t.flushed ∧ s.queue.Apart

theorem apart_of_flushed {s t : StoredQueue} (same : s.flushed = t.flushed) (apart : t.queue.Apart) :
    s.queue.Apart := by
  have flushed : s.flushed.queue.Apart := same ▸ (Queue.apart_flush _ _).2 apart
  exact (Queue.apart_flush _ _).1 flushed

/-- **Queues that are alike answer the same and stay alike.** -/
theorem Alike.turn {s t : StoredQueue} (h : s.Alike t) (m : Move α) :
    (s.turn m).2 = (t.turn m).2 ∧ (s.turn m).1.Alike (t.turn m).1 := by
  rcases h with rfl | ⟨same, apart⟩
  · exact ⟨rfl, .inl rfl⟩
  · have left := turn_flushed apart m
    have right := turn_flushed (apart_of_flushed same.symm apart) m
    rw [same] at left
    -- both are compared with the queue that holds nothing back
    rcases left with left | ⟨answer, queue, apart⟩ <;> rcases right with right | ⟨answer', queue', apart'⟩
    · rw [← left, ← right]
      exact ⟨rfl, .inl rfl⟩
    · rw [← left]
      exact ⟨answer', .inr ⟨queue', apart_of_flushed queue' apart'⟩⟩
    · rw [← right]
      exact ⟨answer.symm, .inr ⟨queue.symm, apart⟩⟩
    · exact ⟨answer.symm.trans answer', .inr ⟨queue.symm.trans queue', apart⟩⟩

/-- **What is held back is not to be seen**, whatever happens. -/
theorem Alike.replies_eq {s t : StoredQueue} (h : s.Alike t) (moves : List (Move α)) :
    s.replies moves = t.replies moves := by
  induction moves generalizing s t with
  | nil => rfl
  | cons m moves ih =>
    obtain ⟨answer, alike⟩ := h.turn m
    rw [replies, replies, answer, ih alike]

end StoredQueue

end Outbox
