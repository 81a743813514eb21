import Outbox.Proofs.Queue.Decoding

/-!
# A queue apart from its reader

How records lie on the disk does not depend on what is read, nor on whether it can be decoded: getting
moves the reader and hands over what the writer holds back. So a queue is looked at with its reader let go,
and then any objects may be in it.

* `Queue.reseated` puts something else in the reader's place, `Queue.released` nothing at all, and the laws
  after them say that no other operation minds;
* `Queue.Arranged` is the invariant, which says of the reader just that its segment is in the table;
* `Queue.Changed` is all that a call can do to the segments and the records, and
  `StoredQueue.arranged_call` says that it does one of these things.
-/

namespace Outbox

variable {α : Type} [Storable α]

namespace Queue

/-! ## With another reader -/

/-- The queue with this for its reader, as if it was read so far. -/
def reseated (f : Option SegmentReader → Option SegmentReader) (q : Queue) (n : Nat) : Queue :=
  { q with reader := f q.reader, lastRead := n }

/-- The queue with its reader let go, as if it was read so far. -/
def released (q : Queue) (n : Nat) : Queue :=
  { q with reader := none, lastRead := n }

section reseated

variable (f : Option SegmentReader → Option SegmentReader) (d : Disk) (q : Queue) (n : Nat)

@[simp] theorem reseated_folder : (q.reseated f n).folder = q.folder := rfl
@[simp] theorem reseated_maxSize : (q.reseated f n).maxSize = q.maxSize := rfl
@[simp] theorem reseated_writer : (q.reseated f n).writer = q.writer := rfl
@[simp] theorem reseated_lastPut : (q.reseated f n).lastPut = q.lastPut := rfl
@[simp] theorem reseated_lastAck : (q.reseated f n).lastAck = q.lastAck := rfl

/-- What an operation leaves behind and answers, with another reader. -/
def reseat {β : Type} (n : Nat) (o : Outcome β) : Outcome β :=
  ⟨o.disk, o.queue.reseated f n, o.result⟩

theorem flush_reseated : (q.reseated f n).flush d = ((q.flush d).1, (q.flush d).2.reseated f n) := by
  simp only [flush, reseated_writer]
  split <;> rfl

theorem roll_reseated (id : Nat) : (q.reseated f n).roll d id = reseat f n (q.roll d id) := by
  simp only [roll, flush_reseated, reseated_folder]
  generalize SegmentWriter.openAt (q.flush d).1 q.folder id 0 = opened
  obtain ⟨d₂, e | w⟩ := opened <;> rfl

theorem rollFor_reseated (w : SegmentWriter) (id bytes : Nat) :
    (q.reseated f n).rollFor d w id bytes = reseat f n (q.rollFor d w id bytes) := by
  simp only [rollFor, reseated_maxSize, roll_reseated]
  split <;> rfl

theorem append_reseated (payload : List UInt8) :
    (q.reseated f n).append d payload = reseat f n (q.append d payload) := by
  simp only [append, reseated_writer]
  split <;> rfl

theorem put_reseated (now : Int) (obj : α) :
    (q.reseated f n).put d now obj = reseat f n (q.put d now obj) := by
  simp only [put, reseated_writer, reseated_lastPut, rollFor_reseated]
  split
  · rfl
  · next w _ =>
    generalize q.rollFor d w _ _ = rolled
    obtain ⟨d₁, q₁, e | ⟨⟩⟩ := rolled
    · rfl
    · simp only [reseat, append_reseated]
      generalize q₁.append d₁ _ = appended
      obtain ⟨d₂, q₂, e | ⟨⟩⟩ := appended <;> rfl

variable {f} (closed : f none = none)

include closed

theorem removeSegment_reseated (id next : Nat) (file : String) :
    (q.reseated f n).removeSegment d id next file = reseat f n (q.removeSegment d id next file) := by
  simp only [removeSegment, reseated_folder]
  by_cases within : q.readId = id
  · simp only [reseated, within, if_true]
    split <;> simp only [reseat, reseated, closed]
  · simp only [reseated, within, if_false]
    split <;> rfl

theorem pruneAlong_reseated (table : SegmentTable) :
    (q.reseated f n).pruneAlong d table = reseat f n (q.pruneAlong d table) := by
  induction table generalizing d q with
  | nil => rfl
  | cons first rest ih =>
    cases rest with
    | nil => rfl
    | cons second rest =>
      obtain ⟨id, file⟩ := first
      obtain ⟨next, nextFile⟩ := second
      simp only [pruneAlong, reseated_lastAck, removeSegment_reseated _ _ _ closed]
      split
      · rfl
      · generalize q.removeSegment d id next file = removed
        obtain ⟨d₁, q₁, e | ⟨⟩⟩ := removed
        · rfl
        · exact ih d₁ q₁

theorem ack_reseated (version : Nat) :
    (q.reseated f n).ack d version = reseat f n (q.ack d version) := by
  unfold ack
  by_cases old : version ≤ q.lastAck
  · rw [if_pos old, if_pos (show version ≤ (q.reseated f n).lastAck from old)]
    rfl
  · rw [if_neg old, if_neg (show ¬ version ≤ (q.reseated f n).lastAck from old)]
    exact pruneAlong_reseated _ { q with lastAck := version } n closed _

end reseated

/-- A reader goes to later segments at most. -/
theorem getThrough_moves (d : Disk) (q : Queue) (later : List Nat) :
    ∃ reader readId lastRead, (q.getThrough (α := α) d later).1 =
        { q with reader := reader, readId := readId, lastRead := lastRead } ∧
      (readId = q.readId ∨ readId ∈ later) := by
  induction later generalizing q with
  | nil =>
    rw [getThrough]
    split
    · exact ⟨q.reader, q.readId, q.lastRead, rfl, .inl rfl⟩
    · split <;> exact ⟨_, q.readId, _, rfl, .inl rfl⟩
  | cons next rest ih =>
    rw [getThrough]
    split
    · exact ⟨q.reader, q.readId, q.lastRead, rfl, .inl rfl⟩
    · split
      · exact ⟨_, q.readId, _, rfl, .inl rfl⟩
      · exact ⟨_, q.readId, _, rfl, .inl rfl⟩
      · obtain ⟨reader, readId, lastRead, moved, listed⟩ := ih { q with reader := none, readId := next }
        refine ⟨reader, readId, lastRead, moved, .inr ?_⟩
        rcases listed with here | later
        · exact List.mem_cons.2 (.inl here)
        · exact List.mem_cons_of_mem _ later

/-! ## The invariant -/

variable {d : Disk} {q : Queue} {ids : List Nat} {records : List (Record α)}

/-- An open queue with segments of these versions, into which these records were put, once its reader is
replaced. -/
structure Seated (f : Option SegmentReader → Option SegmentReader) (d : Disk) (q : Queue) (ids : List Nat)
    (records : List (Record α)) : Prop where
  intact : ∃ n, (q.reseated f n).Intact d ids records
  isOpen : q.writer.isSome

/-- An open queue with segments of these versions, into which these records were put. Where its reader is does
not matter, as long as its segment is there. -/
structure Arranged (d : Disk) (q : Queue) (ids : List Nat) (records : List (Record α)) : Prop where
  intact : ∃ n, (q.released n).Intact d ids records
  isOpen : q.writer.isSome

/-- The reader of a queue may be moved to any of its segments. -/
theorem Arranged.moved (h : q.Arranged d ids records) {readId : Nat} (listed : readId ∈ ids)
    (reader : Option SegmentReader) (lastRead : Nat) :
    Arranged d { q with reader := reader, readId := readId, lastRead := lastRead } ids records where
  intact := by
    obtain ⟨n, intact⟩ := h.intact
    have one := intact.one_le readId listed
    have top := intact.le_top readId listed
    have upTo : Abreast ids records.length (readId - 1) := .inl (by omega)
    exact ⟨records.length, intact.reread (Nat.le_refl _) (reading_start d rfl listed one top) upTo⟩
  isOpen := h.isOpen

/-- A queue that is in order with its reader is so without. -/
theorem Intact.arranged (h : q.Intact d ids records) (isOpen : q.writer.isSome) :
    q.Arranged d ids records where
  intact := by
    obtain ⟨m, reading, -⟩ := h.reading
    have one := h.one_le _ reading.listed
    have top := h.le_top _ reading.listed
    have upTo : Abreast ids records.length (q.readId - 1) := .inl (by omega)
    exact ⟨records.length, h.reread (Nat.le_refl _) (reading_start d rfl reading.listed one top) upTo⟩
  isOpen := isOpen

theorem Seated.arranged {f : Option SegmentReader → Option SegmentReader} (h : q.Seated f d ids records) :
    q.Arranged d ids records := by
  obtain ⟨n, intact⟩ := h.intact
  obtain ⟨⟨n', released⟩, isOpen⟩ := intact.arranged h.isOpen
  exact ⟨⟨n', released⟩, isOpen⟩

theorem Arranged.seated (h : q.Arranged d ids records) : q.Seated (fun _ => none) d ids records :=
  ⟨h.intact, h.isOpen⟩

theorem Arranged.listed (h : q.Arranged d ids records) : q.readId ∈ ids := by
  obtain ⟨n, intact⟩ := h.intact
  obtain ⟨m, reading, -⟩ := intact.reading
  exact reading.listed

theorem Arranged.table (h : q.Arranged d ids records) :
    q.segments = ids.map fun id => (id, segmentName id) := by
  obtain ⟨n, intact⟩ := h.intact
  exact intact.table

theorem Arranged.lastPut (h : q.Arranged d ids records) : q.lastPut = records.length := by
  obtain ⟨n, intact⟩ := h.intact
  exact intact.lastPut

/-! ## The operations -/

section Seated

variable {f : Option SegmentReader → Option SegmentReader}

/-- Flushing leaves everything where it is. -/
theorem Seated.flush (h : q.Seated f d ids records) :
    (q.flush d).2.Seated f (q.flush d).1 ids records ∧ q.Passed (q.flush d).2 := by
  obtain ⟨n, intact⟩ := h.intact
  obtain ⟨flushed, -⟩ := intact_flush intact
  rw [flush_reseated] at flushed
  obtain ⟨writer, same, still⟩ := flush_eq d q
  refine ⟨⟨⟨n, flushed⟩, ?_⟩, ?_⟩
  · rw [same, still, h.isOpen]
  · rw [same]
    exact ⟨rfl, rfl, still, rfl⟩

/-- A queue whose reader was replaced, after its writer has written. -/
theorem passed_of_written {q' : Queue} {n : Nat} {segments : SegmentTable} {w : SegmentWriter}
    (isOpen : q.writer.isSome) (lastPut : Nat)
    (same : { q.reseated f n with segments := segments, writer := some w, lastPut := lastPut } =
      q'.reseated f n) : q.Passed q' ∧ q'.writer.isSome := by
  have writer : q'.writer = some w := (congrArg Queue.writer same).symm
  have still : q'.writer.isSome := by rw [writer]; rfl
  exact ⟨⟨(congrArg Queue.folder same).symm, (congrArg Queue.maxSize same).symm, still.trans isOpen.symm,
    (congrArg Queue.lastAck same).symm⟩, still⟩

/-- Putting adds a record, or is refused for the size of what is put. In either case a new segment may
have been begun. -/
theorem Seated.put (h : q.Seated f d ids records) {w : SegmentWriter} (hw : q.writer = some w)
    {now : Int} {obj : α} (small : records.length + 1 < UInt64.size) :
    let o := q.put d now obj
    let r : Record α := ⟨obj, records.length + 1, now⟩
    ∃ ids', Room q w ids (records.length + 1) (Frame.size r.payload) ids' ∧ q.Passed o.queue ∧
      (o.queue.Seated f o.disk ids' (records ++ [r]) ∨ o.queue.Seated f o.disk ids' records) := by
  intro o r
  obtain ⟨n, intact⟩ := h.intact
  have same : (q.reseated f n).put d now obj = reseat f n o := put_reseated f d q n now obj
  have room_of {ids' : List Nat} {bytes : Nat}
      (room : Room (q.reseated f n) w ids (records.length + 1) bytes ids') :
      Room q w ids (records.length + 1) bytes ids' := by
    cases room with
    | left fits => exact .left fits
    | begun => exact .begun
  by_cases short : r.payload.length < UInt32.size
  · obtain ⟨d', segments, w', ids', put, room, intact'⟩ := intact_put intact hw ⟨short, small⟩
    obtain ⟨disk, queue, -⟩ := Outcome.mk.inj (put.symm.trans same)
    obtain ⟨passed, still⟩ := passed_of_written h.isOpen _ queue
    rw [disk, queue] at intact'
    exact ⟨ids', room_of room, passed, .inl ⟨⟨n, intact'⟩, still⟩⟩
  · obtain ⟨d', segments, w', ids', length, put, room, intact'⟩ :=
      intact_put_large intact hw small (Nat.le_of_not_lt short)
    obtain ⟨disk, queue, -⟩ := Outcome.mk.inj (put.symm.trans same)
    obtain ⟨passed, still⟩ := passed_of_written h.isOpen q.lastPut queue
    rw [disk, queue] at intact'
    exact ⟨ids', room_of room, passed, .inr ⟨⟨n, intact'⟩, still⟩⟩

/-- Acknowledging a version that was not yet removes the segments that are done with. -/
theorem Seated.ack (h : q.Seated f d ids records) (closed : f none = none) {version : Nat}
    (new : q.lastAck < version) (known : version ≤ records.length) :
    let o := q.ack d version
    ∃ ids', o.result = .ok () ∧ o.queue.Seated f o.disk ids' records ∧ ids' <:+ ids ∧
      Pruned ids' version ∧ o.queue.folder = q.folder ∧ o.queue.maxSize = q.maxSize ∧
      o.queue.lastAck = version := by
  intro o
  obtain ⟨n, intact⟩ := h.intact
  have same : (q.reseated f n).ack d version = reseat f n o := ack_reseated d q n closed version
  obtain ⟨d', q', ids', acked, kept, suffix, stop, intact'⟩ := intact_ack_new intact new known
  obtain ⟨disk, queue, result⟩ := Outcome.mk.inj (acked.symm.trans same)
  rw [disk, queue] at intact'
  rw [queue] at kept
  refine ⟨ids', result.symm, ⟨⟨n, intact'⟩, ?_⟩, suffix, stop, kept.folder, kept.maxSize, kept.lastAck⟩
  have writer : o.queue.writer = q.writer := kept.writer
  rw [writer, h.isOpen]

/-- A queue that is dropped can be opened again, without the segments that are done with. -/
theorem Seated.reopen (h : q.Seated f d ids records) (maxSize : Nat) :
    ∃ d' q' ids', openIn (q.drop d) q.folder maxSize = (d', .ok q') ∧ q'.Intact d' ids' records ∧
      q'.writer.isSome ∧ ids' <:+ ids ∧ Pruned ids' q.lastAck ∧ q'.folder = q.folder ∧ q'.maxSize = maxSize ∧
      q'.lastAck = q.lastAck := by
  obtain ⟨n, intact⟩ := h.intact
  obtain ⟨flushed, nothing⟩ := intact_flush intact
  obtain ⟨writer, same, -⟩ := flush_eq d q
  obtain ⟨d', q', ids', opened, ⟨suffix, stop⟩, intact', -, folder, size, isOpen, acked, -⟩ :=
    intact_open (flushed.remains nothing) maxSize
  rw [flush_reseated, same] at opened stop folder acked
  exact ⟨d', q', ids', opened, intact', isOpen, suffix, stop, folder, size, acked⟩

end Seated

theorem Arranged.flush (h : q.Arranged d ids records) :
    (q.flush d).2.Arranged (q.flush d).1 ids records ∧ q.Passed (q.flush d).2 :=
  ⟨h.seated.flush.1.arranged, h.seated.flush.2⟩

/-- Getting moves the reader. -/
theorem Arranged.get (h : q.Arranged d ids records) :
    (q.get (α := α) d).queue.Arranged (q.get (α := α) d).disk ids records ∧
      q.Passed (q.get (α := α) d).queue := by
  obtain ⟨flushed, passed⟩ := h.flush
  unfold Queue.get
  generalize q.flush d = o at flushed passed ⊢
  obtain ⟨d₁, q₁⟩ := o
  obtain ⟨reader, readId, lastRead, moved, place⟩ := getThrough_moves (α := α) d₁ q₁ q₁.laterIds
  dsimp only at flushed passed ⊢
  rw [moved]
  have listed : readId ∈ ids := by
    rcases place with here | later
    · exact here ▸ flushed.listed
    · have inside := (List.mem_filter.1 later).1
      rw [flushed.table, List.map_map] at inside
      simpa using inside
  exact ⟨flushed.moved listed reader lastRead, ⟨passed.folder, passed.maxSize, passed.isOpen, passed.lastAck⟩⟩

theorem Passed.trans {q q' q'' : Queue} (h : q.Passed q') (h' : q'.Passed q'') : q.Passed q'' :=
  ⟨h'.folder.trans h.folder, h'.maxSize.trans h.maxSize, h'.isOpen.trans h.isOpen,
    h'.lastAck.trans h.lastAck⟩

/-- So does getting several records. -/
theorem Arranged.getUpTo (h : q.Arranged d ids records) (n : Nat) :
    (q.getUpTo (α := α) d n).queue.Arranged (q.getUpTo (α := α) d n).disk ids records ∧
      q.Passed (q.getUpTo (α := α) d n).queue := by
  induction n generalizing d q with
  | zero => exact ⟨h, rfl, rfl, rfl, rfl⟩
  | succ n ih =>
    obtain ⟨got, passed⟩ := h.get (α := α)
    rw [Queue.getUpTo]
    generalize q.get (α := α) d = o at got passed ⊢
    obtain ⟨d₁, q₁, e | _ | element⟩ := o
    · exact ⟨got, passed⟩
    · exact ⟨got, passed⟩
    · obtain ⟨got', passed'⟩ := ih got
      exact ⟨got', passed.trans passed'⟩

theorem Arranged.put (h : q.Arranged d ids records) {w : SegmentWriter} (hw : q.writer = some w)
    {now : Int} {obj : α} (small : records.length + 1 < UInt64.size) :
    let o := q.put d now obj
    let r : Record α := ⟨obj, records.length + 1, now⟩
    ∃ ids', Room q w ids (records.length + 1) (Frame.size r.payload) ids' ∧ q.Passed o.queue ∧
      (o.queue.Arranged o.disk ids' (records ++ [r]) ∨ o.queue.Arranged o.disk ids' records) := by
  intro o r
  obtain ⟨ids', room, passed, put⟩ := h.seated.put hw small
  exact ⟨ids', room, passed, put.imp Seated.arranged Seated.arranged⟩

theorem Arranged.ack (h : q.Arranged d ids records) {version : Nat} (new : q.lastAck < version)
    (known : version ≤ records.length) :
    let o := q.ack d version
    ∃ ids', o.result = .ok () ∧ o.queue.Arranged o.disk ids' records ∧ ids' <:+ ids ∧
      Pruned ids' version ∧ o.queue.folder = q.folder ∧ o.queue.maxSize = q.maxSize ∧
      o.queue.lastAck = version := by
  intro o
  obtain ⟨ids', done, seated, rest⟩ := h.seated.ack rfl new known
  exact ⟨ids', done, seated.arranged, rest⟩

theorem Arranged.reopen (h : q.Arranged d ids records) (maxSize : Nat) :
    ∃ d' q' ids', openIn (q.drop d) q.folder maxSize = (d', .ok q') ∧ q'.Arranged d' ids' records ∧
      ids' <:+ ids ∧ Pruned ids' q.lastAck ∧ q'.folder = q.folder ∧ q'.maxSize = maxSize ∧
      q'.lastAck = q.lastAck := by
  obtain ⟨d', q', ids', opened, intact, isOpen, rest⟩ := h.seated.reopen maxSize
  exact ⟨d', q', ids', opened, intact.arranged isOpen, rest⟩

end Queue

/-! ## Calls -/

namespace StoredQueue

variable {s : StoredQueue} {ids : List Nat} {records : List (Record α)}

/-- A queue on a disk, apart from its reader. -/
def Arranged (s : StoredQueue) (ids : List Nat) (records : List (Record α)) : Prop :=
  s.queue.Arranged s.disk ids records

/-- What may be asked: any object is put, and any version is acknowledged that was put. The queue is dropped,
but not closed. -/
def Admits (s : StoredQueue) : Call α → Prop
  | .ack version => version ≤ s.queue.lastPut
  | .close => False
  | _ => True

/-- What may be asked in turn. -/
def AdmitsAll (s : StoredQueue) : List (Call α) → Prop
  | [] => True
  | c :: calls => s.Admits c ∧ AdmitsAll (s.call c).1 calls

instance (s : StoredQueue) (c : Call α) : Decidable (s.Admits c) :=
  match c with
  | .ack version => inferInstanceAs (Decidable (version ≤ s.queue.lastPut))
  | .close => isFalse id
  | .put _ _ | .get | .getUpTo _ | .flush | .reopen _ => isTrue trivial

/-- Whether calls may be asked in turn is found out by asking them. -/
def decideAdmitsAll (s : StoredQueue) : (calls : List (Call α)) → Decidable (s.AdmitsAll calls)
  | [] => isTrue trivial
  | c :: calls =>
    have := decideAdmitsAll (s.call c).1 calls
    inferInstanceAs (Decidable (s.Admits c ∧ (s.call c).1.AdmitsAll calls))

instance (s : StoredQueue) (calls : List (Call α)) : Decidable (s.AdmitsAll calls) :=
  s.decideAdmitsAll calls

/-- Segments were removed, as far as the acknowledged version goes. -/
structure Pruned (s s' : StoredQueue) (ids ids' : List Nat) : Prop where
  suffix : ids' <:+ ids
  stop : Queue.Pruned ids' s'.queue.lastAck
  lastAck : s.queue.lastAck ≤ s'.queue.lastAck
  folder : s'.queue.folder = s.queue.folder

/-- What a call can do to the segments and the records of a queue. -/
inductive Changed (s s' : StoredQueue) (ids : List Nat) (records : List (Record α)) :
    List Nat → List (Record α) → Prop
  /-- The reader is moved, or nothing at all happens. -/
  | kept : s.queue.Passed s'.queue → Changed s s' ids records ids records
  | put {w : SegmentWriter} {r : Record α} {ids' : List Nat} : s.queue.writer = some w →
      s.queue.Room w ids (records.length + 1) (Frame.size r.payload) ids' → s.queue.Passed s'.queue →
      Changed s s' ids records ids' (records ++ [r])
  /-- A record was too large, and at most a new segment has been begun. -/
  | refused {w : SegmentWriter} {bytes : Nat} {ids' : List Nat} : s.queue.writer = some w →
      s.queue.Room w ids (records.length + 1) bytes ids' → s.queue.Passed s'.queue →
      Changed s s' ids records ids' records
  | pruned {ids' : List Nat} : s.Pruned s' ids ids' → Changed s s' ids records ids' records

/-- The limit of the length of segments after a call. -/
def limitAfter (s : StoredQueue) : Call α → Nat
  | .reopen maxSize => maxSize
  | _ => s.queue.maxSize

/-- The calls that remove segments: a version is acknowledged that was not yet, or the queue is opened again. -/
def Prunes (s : StoredQueue) : Call α → Prop
  | .ack version => s.queue.lastAck < version
  | .reopen _ => True
  | _ => False

theorem Arranged.pruned (h : s.Arranged ids records) {c : Call α} (admitted : s.Admits c)
    (prunes : s.Prunes c) : ∃ ids', (s.call c).2 = .done ∧ (s.call c).1.Arranged ids' records ∧
      s.Pruned (s.call c).1 ids ids' ∧ (s.call c).1.queue.maxSize = s.limitAfter c := by
  cases c with
  | ack version =>
    have known : version ≤ records.length := Queue.Arranged.lastPut h ▸ admitted
    obtain ⟨ids', done, arranged, suffix, stop, folder, size, acked⟩ :=
      Queue.Arranged.ack h prunes known
    refine ⟨ids', ?_, arranged, ⟨suffix, acked.symm ▸ stop, ?_, folder⟩, size⟩
    · simp only [call, after, done, Answer.of]
    · exact acked.symm ▸ Nat.le_of_lt prunes
  | reopen maxSize =>
    obtain ⟨d', q', ids', opened, arranged, suffix, stop, folder, size, acked⟩ :=
      Queue.Arranged.reopen h maxSize
    simp only [call, opened]
    exact ⟨ids', trivial, arranged, ⟨suffix, acked ▸ stop, Nat.le_of_eq acked.symm, folder⟩, size⟩
  | put | get | getUpTo | flush | close => exact prunes.elim

/-- A version that was acknowledged before is not acknowledged again. -/
theorem call_ack_old {version : Nat} (old : version ≤ s.queue.lastAck) :
    s.call (α := α) (.ack version) = (s, .done) := by
  simp only [call, after, Queue.ack, if_pos old, Answer.of]

/-- **A call does one of these things** to a queue. -/
theorem arranged_call (h : s.Arranged ids records) {c : Call α} (admitted : s.Admits c)
    (small : records.length + 1 < UInt64.size) :
    ∃ ids' records', (s.call c).1.Arranged ids' records' ∧
      Changed s (s.call c).1 ids records ids' records' ∧
      (s.call c).1.queue.maxSize = s.limitAfter c := by
  cases c with
  | put now obj =>
    obtain ⟨w, hw⟩ := Option.isSome_iff_exists.1 h.isOpen
    obtain ⟨ids', room, passed, stored | refused⟩ := Queue.Arranged.put h hw small
    · exact ⟨ids', _, stored, .put hw room passed, passed.maxSize⟩
    · exact ⟨ids', _, refused, .refused hw room passed, passed.maxSize⟩
  | get =>
    obtain ⟨arranged, passed⟩ := Queue.Arranged.get (α := α) h
    exact ⟨ids, records, arranged, .kept passed, passed.maxSize⟩
  | getUpTo n =>
    obtain ⟨arranged, passed⟩ := Queue.Arranged.getUpTo (α := α) h n
    exact ⟨ids, records, arranged, .kept passed, passed.maxSize⟩
  | ack version =>
    by_cases old : version ≤ s.queue.lastAck
    · rw [call_ack_old old]
      exact ⟨ids, records, h, .kept ⟨rfl, rfl, rfl, rfl⟩, rfl⟩
    · obtain ⟨ids', -, arranged, pruned, size⟩ := h.pruned admitted (Nat.lt_of_not_le old)
      exact ⟨ids', records, arranged, .pruned pruned, size⟩
  | flush =>
    obtain ⟨arranged, passed⟩ := Queue.Arranged.flush h
    exact ⟨ids, records, arranged, .kept passed, passed.maxSize⟩
  | close => exact admitted.elim
  | reopen maxSize =>
    obtain ⟨ids', -, arranged, pruned, size⟩ := h.pruned (c := .reopen maxSize) trivial trivial
    exact ⟨ids', records, arranged, .pruned pruned, size⟩

/-- A call adds one record at most. -/
theorem Changed.length_le {s' : StoredQueue} {ids' : List Nat} {records' : List (Record α)}
    (h : Changed s s' ids records ids' records') : records'.length ≤ records.length + 1 := by
  cases h with
  | put => simp
  | kept | refused | pruned => exact Nat.le_add_right _ 1

theorem Changed.folder {s' : StoredQueue} {ids' : List Nat} {records' : List (Record α)}
    (h : Changed s s' ids records ids' records') : s'.queue.folder = s.queue.folder := by
  cases h with
  | kept passed | put _ _ passed | refused _ _ passed => exact passed.folder
  | pruned pruned => exact pruned.folder

/-- What is acknowledged does not become less. -/
theorem Changed.lastAck_le {s' : StoredQueue} {ids' : List Nat} {records' : List (Record α)}
    (h : Changed s s' ids records ids' records') : s.queue.lastAck ≤ s'.queue.lastAck := by
  cases h with
  | kept passed | put _ _ passed | refused _ _ passed => exact Nat.le_of_eq passed.lastAck.symm
  | pruned pruned => exact pruned.lastAck

/-- **A queue stays arranged**, whatever is asked. -/
theorem Arranged.run (h : s.Arranged ids records) {calls : List (Call α)}
    (few : records.length + calls.length < UInt64.size) (admitted : s.AdmitsAll calls) :
    ∃ ids', ∃ records' : List (Record α), (s.run calls).Arranged ids' records' ∧
      records'.length ≤ records.length + calls.length ∧
      (s.run calls).queue.folder = s.queue.folder := by
  induction calls generalizing s ids records with
  | nil => exact ⟨ids, records, h, Nat.le_refl _, rfl⟩
  | cons c calls ih =>
    rw [List.length_cons] at few
    obtain ⟨ids₁, records₁, arranged, changed, -⟩ := arranged_call h admitted.1 (by omega)
    have length := changed.length_le
    obtain ⟨ids', records', arranged', length', folder⟩ := ih arranged (by omega) admitted.2
    exact ⟨ids', records', arranged', by rw [List.length_cons]; omega, folder.trans changed.folder⟩

end StoredQueue

/-- A queue is opened for the first time, with one segment. -/
theorem Queue.arranged_create {d : Disk} {folder : Place} (free : d.Free folder) (maxSize : Nat) :
    ∃ d' q, openIn d folder maxSize = (d', .ok q) ∧ q.Arranged d' [1] ([] : List (Record α)) ∧
      q.folder = folder ∧ q.maxSize = maxSize ∧ q.lastAck = 0 := by
  obtain ⟨d₁, made, blank⟩ := free.make
  obtain ⟨d', q, ids, opened, intact, place, size, isOpen, acked, -⟩ :=
    intact_create (α := α) made blank maxSize
  have only : ids = [1] := by
    have all : ∀ id ∈ ids, id = 1 := fun id member =>
      Nat.le_antisymm (intact.le_top id member) (intact.one_le id member)
    obtain ⟨id, member, -⟩ := intact.covers
    have ordered := intact.ordered
    clear intact opened
    cases ids with
    | nil => cases member
    | cons first rest =>
      obtain rfl := all first List.mem_cons_self
      have none_behind : rest = [] := List.eq_nil_iff_forall_not_mem.2 fun next later => by
        have := (List.pairwise_cons.1 ordered).1 next later
        have := all next (List.mem_cons_of_mem _ later)
        omega
      rw [none_behind]
  exact ⟨d', q, opened, only ▸ intact.arranged isOpen, place, size, acked⟩

end Outbox
