import Outbox.Batch.Sources
import Outbox.Proofs.Queue.Getting
import Outbox.Proofs.Queue.Opening

/-!
# The queue is a list

Segments, buffers and files are not to be seen from outside. As long as only versions are acknowledged
that were read since the queue was opened, a queue on a disk answers in any order of questions as a list
of records would, in which one place says how far it was read and another one how far it was
acknowledged. This goes on when the queue is opened again, with any limit of the length of segments.

Who acknowledges a version that was read only before the queue was opened can tell the segments: those
that are acknowledged are removed, and the next get does not give out what was in them.

* `Call` and `Answer` are what is asked and answered;
* `StoredQueue.call` asks a queue on a disk, and `ListQueue.call` a list;
* `ListQueue.Allows` says what may be asked;
* `StoredQueue.Holds` relates the two, and `holds_call` keeps the relation;
* `answers_eq` is the result.
-/

namespace Outbox

variable {α : Type} [Storable α]

/-! ## Questions and answers -/

/-- What can be asked of a queue. -/
inductive Call (α : Type) where
  | put (now : Int) (obj : α)
  | get
  | getUpTo (n : Nat)
  | ack (version : Nat)
  | flush
  | close
  /-- The queue is dropped and opened again. -/
  | reopen (maxSize : Nat)

/-- What a queue answers. -/
inductive Answer (α : Type) where
  | version (v : Nat)
  | element (e : Option (Element α))
  | elements (es : List (Element α))
  | done
  | failed (e : QueueError)
deriving DecidableEq

/-- The answer to an operation that may have failed. -/
def Answer.of {β : Type} (answer : β → Answer α) : Except QueueError β → Answer α
  | .ok x => answer x
  | .error e => .failed e

namespace StoredQueue

/-- The queue that an operation leaves behind, and its answer. -/
def after {β : Type} (answer : β → Answer α) (o : Outcome β) : StoredQueue × Answer α :=
  (⟨o.disk, o.queue⟩, .of answer o.result)

/-- A queue on a disk is asked. -/
def call (s : StoredQueue) : Call α → StoredQueue × Answer α
  | .put now obj => after .version (s.queue.put s.disk now obj)
  | .get => after .element (s.queue.get s.disk)
  | .getUpTo n => after .elements (s.queue.getUpTo s.disk n)
  | .ack version => after (fun _ => .done) (s.queue.ack s.disk version)
  | .flush =>
    match s.queue.flush s.disk with
    | (d, q) => (⟨d, q⟩, .done)
  | .close =>
    match s.queue.close s.disk with
    | (d, q) => (⟨d, q⟩, .done)
  | .reopen maxSize =>
    match Queue.openIn (s.queue.drop s.disk) s.queue.folder maxSize with
    | (d, .ok q) => (⟨d, q⟩, .done)
    | (d, .error e) => (⟨d, s.queue⟩, .failed e)

/-- The answers to questions in turn. -/
def answers (s : StoredQueue) : List (Call α) → List (Answer α)
  | [] => []
  | c :: calls => (s.call c).2 :: answers (s.call c).1 calls

end StoredQueue

/-! ## A list -/

/-- A queue that is nothing but a list of records. -/
structure ListQueue (α : Type) where
  /-- All records that were ever put. -/
  records : List (Record α)
  /-- The version up to which they were read since the queue was opened. Reading begins behind what was
  acknowledged. -/
  read : Nat
  /-- The version up to which they were acknowledged. -/
  acked : Nat
  isOpen : Bool

namespace ListQueue

/-- A queue into which nothing was put yet. -/
def empty : ListQueue α :=
  ⟨[], 0, 0, true⟩

/-- A record with the length of its frame. -/
def element (r : Record α) : Element α :=
  ⟨r, Frame.size r.payload⟩

/-- A list is asked. -/
def call (l : ListQueue α) : Call α → ListQueue α × Answer α
  | .put now obj =>
    if l.isOpen then
      let version := l.records.length + 1
      ({ l with records := l.records ++ [⟨obj, version, now⟩] }, .version version)
    else (l, .failed .closed)
  | .get =>
    match l.records[l.read]? with
    | some r => ({ l with read := l.read + 1 }, .element (some (element r)))
    | none => (l, .element none)
  | .getUpTo n =>
    let rs := (l.records.drop l.read).take n
    ({ l with read := l.read + rs.length }, .elements (rs.map element))
  | .ack version => ({ l with acked := max version l.acked }, .done)
  | .flush => (l, .done)
  | .close => ({ l with isOpen := false }, .done)
  | .reopen _ => ({ l with read := l.acked, isOpen := true }, .done)

/-- The answers to questions in turn. -/
def answers (l : ListQueue α) : List (Call α) → List (Answer α)
  | [] => []
  | c :: calls => (l.call c).2 :: answers (l.call c).1 calls

/-- What may be asked: what is put can be stored, and a version is acknowledged only if it was read since
the queue was last opened, or if it was acknowledged when that happened. That it was read at some time
before is not enough. -/
def Allows (l : ListQueue α) : Call α → Prop
  | .put now obj => l.isOpen = true → Record.Durable ⟨obj, l.records.length + 1, now⟩
  | .ack version => version ≤ l.read
  | _ => True

/-- What may be asked in turn. -/
def AllowsAll (l : ListQueue α) : List (Call α) → Prop
  | [] => True
  | c :: calls => l.Allows c ∧ AllowsAll (l.call c).1 calls

end ListQueue

/-! ## The refinement -/

/-- A queue on a disk holds a list. -/
structure StoredQueue.Holds (s : StoredQueue) (l : ListQueue α) : Prop where
  intact : ∃ ids, s.queue.Intact s.disk ids l.records
  read : s.queue.lastRead = l.read
  acked : s.queue.lastAck = l.acked
  isOpen : s.queue.writer.isSome = l.isOpen
  ordered : l.acked ≤ l.read
  durable : ∀ r ∈ l.records, r.Durable

namespace StoredQueue

variable {s : StoredQueue} {l : ListQueue α}

/-- A record is put behind the others. -/
theorem Holds.put (h : s.Holds l) (isOpen : l.isOpen = true) {now : Int} {obj : α}
    (durable : Record.Durable ⟨obj, l.records.length + 1, now⟩) :
    ∃ d' q', s.queue.put s.disk now obj = ⟨d', q', .ok (l.records.length + 1)⟩ ∧
      Holds ⟨d', q'⟩ { l with records := l.records ++ [⟨obj, l.records.length + 1, now⟩] } ∧
      q'.folder = s.queue.folder := by
  obtain ⟨ids, intact⟩ := h.intact
  obtain ⟨w, hw⟩ := Option.isSome_iff_exists.1 (h.isOpen.trans isOpen)
  obtain ⟨d', segments, w', ids', put, -, intact'⟩ := Queue.intact_put intact hw durable.sized
  have stored := List.forall_mem_append.2 ⟨h.durable, List.forall_mem_singleton.2 durable⟩
  exact ⟨d', _, put, ⟨⟨ids', intact'⟩, h.read, h.acked, isOpen.symm, h.ordered, stored⟩, rfl⟩

/-- What is too large for a frame is refused. -/
theorem Holds.put_large (h : s.Holds l) (isOpen : l.isOpen = true)
    (small : l.records.length + 1 < UInt64.size) {now : Int} {obj : α}
    (large : UInt32.size ≤ (Record.payload ⟨obj, l.records.length + 1, now⟩).length) :
    ∃ d' q' e, s.queue.put s.disk now obj = ⟨d', q', .error e⟩ ∧ Holds ⟨d', q'⟩ l ∧
      q'.folder = s.queue.folder := by
  obtain ⟨ids, intact⟩ := h.intact
  obtain ⟨w, hw⟩ := Option.isSome_iff_exists.1 (h.isOpen.trans isOpen)
  obtain ⟨d', segments, w', ids', length, put, -, intact'⟩ :=
    Queue.intact_put_large intact hw small large
  exact ⟨d', _, _, put, ⟨⟨ids', intact'⟩, h.read, h.acked, isOpen.symm, h.ordered, h.durable⟩, rfl⟩

/-- Nothing is put into a queue that was closed. -/
theorem Holds.put_closed (h : s.Holds l) (closed : l.isOpen = false) (now : Int) (obj : α) :
    s.queue.put s.disk now obj = ⟨s.disk, s.queue, .error .closed⟩ := by
  have none_open : s.queue.writer = none := by
    have := h.isOpen
    simpa [closed] using this
  simp only [Queue.put, none_open]

/-- The next record is read. -/
theorem Holds.get (h : s.Holds l) : ∃ d' q', s.queue.get (α := α) s.disk =
      ⟨d', q', .ok (l.records[l.read]?.map ListQueue.element)⟩ ∧
    Holds ⟨d', q'⟩ { l with read := if l.read < l.records.length then l.read + 1 else l.read } ∧
    q'.folder = s.queue.folder := by
  obtain ⟨ids, intact⟩ := h.intact
  obtain ⟨d', q', result, m, got, intact', gave⟩ := Queue.intact_get intact h.durable
  have behind : m = l.read := by
    have := h.read
    have := h.acked
    have := h.ordered
    have := gave.reached
    have := gave.upTo.le_max intact.covers
    omega
  subst behind
  refine ⟨d', q', ?_, ⟨⟨ids, intact'⟩, ?_, gave.passed.lastAck.trans h.acked,
    gave.passed.isOpen.trans h.isOpen, ?_, h.durable⟩, gave.passed.folder⟩
  · rw [got, gave.answer]
    rfl
  · rw [gave.lastRead, h.read]
  · have := h.ordered
    simp only
    split <;> omega

/-- The next records are read. -/
theorem Holds.getUpTo (h : s.Holds l) (n : Nat) : ∃ d' q', s.queue.getUpTo (α := α) s.disk n =
      ⟨d', q', .ok (((l.records.drop l.read).take n).map ListQueue.element)⟩ ∧
    Holds ⟨d', q'⟩ { l with read := l.read + ((l.records.drop l.read).take n).length } ∧
    q'.folder = s.queue.folder := by
  induction n generalizing s l with
  | zero => exact ⟨s.disk, s.queue, rfl, h, rfl⟩
  | succ n ih =>
    obtain ⟨d₁, q₁, got, holds, folder⟩ := h.get
    cases hr : l.records[l.read]? with
    | none =>
      have ended : l.records.length ≤ l.read := List.getElem?_eq_none_iff.1 hr
      rw [if_neg (by omega)] at holds
      rw [hr] at got
      refine ⟨d₁, q₁, ?_, ?_, folder⟩
      · simp [Queue.getUpTo, got, List.drop_eq_nil_of_le ended]
      · simpa [List.drop_eq_nil_of_le ended] using holds
    | some r =>
      obtain ⟨inside, rfl⟩ := List.getElem?_eq_some_iff.1 hr
      rw [if_pos inside] at holds
      rw [hr] at got
      obtain ⟨d₂, q₂, more, holds', folder'⟩ := ih holds
      rw [List.drop_eq_getElem_cons inside, List.take_succ_cons]
      refine ⟨d₂, q₂, ?_, ?_, folder'.trans folder⟩
      · simp only [Queue.getUpTo, got, Option.map_some, more, Except.map, List.map_cons]
      · rw [List.length_cons, Nat.add_comm _ 1, ← Nat.add_assoc]
        exact holds'

/-- Records that were read are acknowledged. -/
theorem Holds.ack (h : s.Holds l) {version : Nat} (known : version ≤ l.read) :
    ∃ d' q', s.queue.ack s.disk version = ⟨d', q', .ok ()⟩ ∧
      Holds ⟨d', q'⟩ { l with acked := max version l.acked } ∧ q'.folder = s.queue.folder := by
  obtain ⟨ids, intact⟩ := h.intact
  have inside : version ≤ l.records.length := by
    have := intact.lastRead
    have := h.read
    omega
  obtain ⟨d', q', ids', acked, intact', kept⟩ := Queue.intact_ack intact inside
  refine ⟨d', q', acked, ⟨⟨ids', intact'⟩, kept.lastRead.trans h.read, ?_, ?_, ?_, h.durable⟩, kept.folder⟩
  · rw [kept.lastAck, h.acked]
  · rw [kept.writer, h.isOpen]
  · exact Nat.max_le.2 ⟨known, h.ordered⟩

theorem Holds.flush (h : s.Holds l) :
    Holds ⟨(s.queue.flush s.disk).1, (s.queue.flush s.disk).2⟩ l ∧
      (s.queue.flush s.disk).2.folder = s.queue.folder := by
  obtain ⟨ids, intact⟩ := h.intact
  obtain ⟨intact', -⟩ := Queue.intact_flush intact
  have read := (Queue.lastRead_flush s.disk s.queue).trans h.read
  have acked := (Queue.lastAck_flush s.disk s.queue).trans h.acked
  have isOpen := (Queue.isOpen_flush s.disk s.queue).trans h.isOpen
  exact ⟨⟨⟨ids, intact'⟩, read, acked, isOpen, h.ordered, h.durable⟩, Queue.folder_flush s.disk s.queue⟩

theorem Holds.close (h : s.Holds l) :
    Holds ⟨(s.queue.close s.disk).1, (s.queue.close s.disk).2⟩ { l with isOpen := false } ∧
      (s.queue.close s.disk).2.folder = s.queue.folder := by
  obtain ⟨ids, intact⟩ := h.intact
  have intact' := Queue.intact_close intact
  have read := (Queue.lastRead_flush s.disk s.queue).trans h.read
  have acked := (Queue.lastAck_flush s.disk s.queue).trans h.acked
  exact ⟨⟨⟨ids, intact'⟩, read, acked, rfl, h.ordered, h.durable⟩, Queue.folder_flush s.disk s.queue⟩

/-- A queue that is dropped can be opened again, and goes on behind what was acknowledged. -/
theorem Holds.reopen (h : s.Holds l) (maxSize : Nat) :
    ∃ d' q', Queue.openIn (s.queue.drop s.disk) s.queue.folder maxSize = (d', .ok q') ∧
      Holds ⟨d', q'⟩ { l with read := l.acked, isOpen := true } ∧ q'.folder = s.queue.folder := by
  obtain ⟨ids, intact⟩ := h.intact
  obtain ⟨intact', nothing⟩ := Queue.intact_flush intact
  obtain ⟨writer, same, -⟩ := Queue.flush_eq s.disk s.queue
  obtain ⟨d', q', ids', opened, -, intact'', -, folder, -, isOpen, acked, read⟩ :=
    Queue.intact_open (intact'.remains nothing) maxSize
  rw [same] at opened folder acked read
  exact ⟨d', q', opened, ⟨⟨ids', intact''⟩, read.trans h.acked, acked.trans h.acked, isOpen,
    Nat.le_refl _, h.durable⟩, folder⟩

/-- What happens to the disk elsewhere is no matter. -/
theorem Holds.spares (h : s.Holds l) {d' : Disk} (spares : s.disk.Spares d' s.queue.folder) :
    Holds ⟨d', s.queue⟩ l := by
  obtain ⟨ids, intact⟩ := h.intact
  have intact' := intact.elsewhere (spares.tidy intact.tidy) (fun {name} _ => spares.lookup? name)
    (fun {name e} found => .inl ((spares.lookup? name).symm.trans found))
    (fun {name file} _ found => spares.read file (intact.tidy.bounded found))
  exact ⟨⟨ids, intact'⟩, h.read, h.acked, h.isOpen, h.ordered, h.durable⟩

/-- A file of another name may be written in the folder of a queue. -/
theorem Holds.write (h : s.Holds l) {name : String} (foreign : ¬ Queue.IsOurs name)
    (none_such : segmentId? name = none) (valid : isName name = true) {bytes : List UInt8} {d' : Disk}
    (written : s.disk.write? (s.queue.folder ++ [name]) bytes = some d') : Holds ⟨d', s.queue⟩ l := by
  obtain ⟨ids, intact⟩ := h.intact
  have tidy := intact.tidy
  have other {name' : String} (ours : Queue.IsOurs name') : name' ≠ name := fun same =>
    foreign (same ▸ ours)
  suffices intact' : s.queue.Intact d' ids l.records from
    ⟨⟨ids, intact'⟩, h.read, h.acked, h.isOpen, h.ordered, h.durable⟩
  rw [Disk.write?, Option.map_eq_some_iff] at written
  obtain ⟨⟨d₁, file⟩, created, rfl⟩ := written
  cases found : s.disk.lookup? (s.queue.folder ++ [name]) with
  | some e =>
    cases e with
    | folder =>
      rw [Disk.create?, found] at created
      cases created
    | file id =>
      rw [Disk.Tidy.create?_file found, Option.some.injEq, Prod.mk.injEq] at created
      obtain ⟨rfl, rfl⟩ := created
      refine intact.elsewhere (tidy.update _ _) (fun _ => rfl) .inl ?_
      intro name' file' ours found'
      refine Disk.read_update_other (fun same => other ours ?_) bytes
      exact tidy.single found' (same ▸ found)
  | none =>
    obtain ⟨d₂, created', tidy', -, read, lookups⟩ := tidy.create valid found
    rw [created', Option.some.injEq, Prod.mk.injEq] at created
    obtain ⟨rfl, rfl⟩ := created
    refine intact.elsewhere (tidy'.update _ _) ?_ ?_ ?_
    · intro name' ours
      exact (lookups name').trans (if_neg (other ours))
    · intro name' e found'
      have found'' := (lookups name').symm.trans found'
      split at found''
      · next same => exact .inr (same ▸ none_such)
      · exact .inl found''
    · intro name' file' ours found'
      have old := tidy.bounded found'
      show (d₂.update s.disk.contents.length bytes).read file' = _
      rw [Disk.read_update_other (Nat.ne_of_gt old), read]

/-- **Whatever is asked, the queue answers as its list does**, and holds what the list is then. It stays in
its folder. -/
theorem holds_call (h : s.Holds l) {c : Call α} (allowed : l.Allows c) :
    (s.call c).2 = (l.call c).2 ∧ (s.call c).1.Holds (l.call c).1 ∧
      (s.call c).1.queue.folder = s.queue.folder := by
  cases c with
  | put now obj =>
    cases isOpen : l.isOpen with
    | true =>
      obtain ⟨d', q', put, holds, folder⟩ := h.put isOpen (allowed isOpen)
      simp only [call, after, put, ListQueue.call, isOpen, if_true]
      exact ⟨rfl, isOpen ▸ holds, folder⟩
    | false =>
      simp only [call, after, h.put_closed isOpen, ListQueue.call, isOpen]
      exact ⟨rfl, h, trivial⟩
  | get =>
    obtain ⟨d', q', got, holds, folder⟩ := h.get
    simp only [call, after, got, ListQueue.call]
    cases hr : l.records[l.read]? with
    | none =>
      rw [if_neg (Nat.not_lt_of_le (List.getElem?_eq_none_iff.1 hr))] at holds
      exact ⟨rfl, holds, folder⟩
    | some r =>
      rw [if_pos (List.getElem?_eq_some_iff.1 hr).1] at holds
      exact ⟨rfl, holds, folder⟩
  | getUpTo n =>
    obtain ⟨d', q', got, holds, folder⟩ := h.getUpTo n
    simp only [call, after, got, ListQueue.call]
    exact ⟨rfl, holds, folder⟩
  | ack version =>
    obtain ⟨d', q', acked, holds, folder⟩ := h.ack allowed
    simp only [call, after, acked, ListQueue.call]
    exact ⟨rfl, holds, folder⟩
  | flush => exact ⟨rfl, h.flush⟩
  | close => exact ⟨rfl, h.close⟩
  | reopen maxSize =>
    obtain ⟨d', q', opened, holds, folder⟩ := h.reopen maxSize
    have reopened : s.call (α := α) (.reopen maxSize) = (⟨d', q'⟩, .done) := by
      simp only [call, opened]
    rw [reopened]
    exact ⟨rfl, holds, folder⟩

/-- The answers to any questions are those of the list. -/
theorem Holds.answers_eq (h : s.Holds l) {calls : List (Call α)} (allowed : l.AllowsAll calls) :
    s.answers calls = l.answers calls := by
  induction calls generalizing s l with
  | nil => rfl
  | cons c calls ih =>
    obtain ⟨first, rest⟩ := allowed
    obtain ⟨answer, holds, -⟩ := holds_call h first
    rw [answers, ListQueue.answers, answer, ih holds rest]

end StoredQueue

/-- A queue that is opened in a folder with nothing in it holds the empty list. -/
theorem holds_create {d d₁ : Disk} {folder : Place} (made : d.makeFolders? folder = some d₁)
    (blank : d₁.Blank folder) (maxSize : Nat) :
    ∃ d' q, Queue.openIn d folder maxSize = (d', .ok q) ∧
      StoredQueue.Holds ⟨d', q⟩ (.empty : ListQueue α) ∧ q.folder = folder := by
  obtain ⟨d', q, ids, opened, intact, place, -, isOpen, acked, read⟩ :=
    Queue.intact_create (α := α) made blank maxSize
  exact ⟨d', q, opened, ⟨⟨ids, intact⟩, read, acked, isOpen, Nat.le_refl _, List.forall_mem_nil _⟩,
    place⟩

/-- **A queue on a disk is a list.** It can be opened in a folder that is not there yet, and is asked
anything in any order, provided that what is put can be stored and that a version is acknowledged only if
it was read since the queue was last opened. It answers what a list of records answers: puts get the
versions 1, 2, 3, ..., and gets the records behind the version that was acknowledged when the queue was
opened, one after the other and none left out, with what was put. No call fails but a put into a queue
that was closed. -/
theorem openIn_answers_eq {d : Disk} {folder : Place} (free : d.Free folder) (maxSize : Nat)
    {calls : List (Call α)} (allowed : (ListQueue.empty : ListQueue α).AllowsAll calls) :
    ∃ d' q, Queue.openIn d folder maxSize = (d', .ok q) ∧
      StoredQueue.answers ⟨d', q⟩ calls = (ListQueue.empty : ListQueue α).answers calls := by
  obtain ⟨d₁, made, blank⟩ := free.make
  obtain ⟨d', q, opened, holds, -⟩ := holds_create (α := α) made blank maxSize
  exact ⟨d', q, opened, holds.answers_eq allowed⟩

theorem free_empty : Disk.empty.Free ["queue"] :=
  ⟨by decide, fun e member => absurd member List.not_mem_nil, by decide⟩

/-- A queue is filled, read and opened again. -/
def fillAndReopen : List (Call String) :=
  [.put 5 "x", .get, .put 6 "y", .ack 1, .reopen 100, .getUpTo 3, .close, .put 7 "z"]

/-- Segments of one record each, then larger ones. -/
theorem openIn_answers_eq_fillAndReopen :
    ∃ d' q, Queue.openIn Disk.empty ["queue"] 0 = (d', .ok q) ∧
      StoredQueue.answers ⟨d', q⟩ fillAndReopen = [.version 1,
        .element (some (ListQueue.element ⟨"x", 1, 5⟩)), .version 2, .done, .done,
        .elements [ListQueue.element ⟨"y", 2, 6⟩], .done, .failed .closed] := by
  have first : Record.Durable (⟨"x", 1, 5⟩ : Record String) := ⟨by decide +kernel, by decide +kernel⟩
  have second : Record.Durable (⟨"y", 2, 6⟩ : Record String) := ⟨by decide +kernel, by decide +kernel⟩
  have allowed : ListQueue.empty.AllowsAll fillAndReopen :=
    ⟨fun _ => first, trivial, fun _ => second, Nat.le_refl 1, trivial, trivial, trivial,
      fun closed => Bool.noConfusion closed, trivial⟩
  exact openIn_answers_eq free_empty 0 allowed

/-- Two records are put and read. The queue is opened again, and both are acknowledged before they are
read once more. -/
def ackReadBefore : List (Call String) :=
  [.put 5 "x", .put 6 "y", .get, .get, .reopen 0, .ack 2, .get, .get]

/-- With segments of one record each, the first one is removed, and the first get behind it gives the
second record, as if the first had been read. A list would give the first one. -/
theorem openIn_passes_ackReadBefore : Disk.empty.Free ["queue"] ∧
    (∃ d q, Queue.openIn Disk.empty ["queue"] 0 = (d, .ok q) ∧
      StoredQueue.answers ⟨d, q⟩ ackReadBefore = [.version 1, .version 2,
        .element (some (ListQueue.element ⟨"x", 1, 5⟩)), .element (some (ListQueue.element ⟨"y", 2, 6⟩)),
        .done, .done, .element (some (ListQueue.element ⟨"y", 2, 6⟩)), .element none]) ∧
    ListQueue.empty.answers ackReadBefore = [.version 1, .version 2,
      .element (some (ListQueue.element ⟨"x", 1, 5⟩)), .element (some (ListQueue.element ⟨"y", 2, 6⟩)),
      .done, .done, .element (some (ListQueue.element ⟨"x", 1, 5⟩)),
      .element (some (ListQueue.element ⟨"y", 2, 6⟩))] := by
  have facts : (Queue.openIn Disk.empty ["queue"] 0).2.toOption.map (fun q =>
      StoredQueue.answers ⟨(Queue.openIn Disk.empty ["queue"] 0).1, q⟩ ackReadBefore) =
      some [.version 1, .version 2, .element (some (ListQueue.element ⟨"x", 1, 5⟩)),
        .element (some (ListQueue.element ⟨"y", 2, 6⟩)), .done, .done,
        .element (some (ListQueue.element ⟨"y", 2, 6⟩)), .element none] := by decide +kernel
  refine ⟨free_empty, ?_, rfl⟩
  rcases opens : Queue.openIn Disk.empty ["queue"] 0 with ⟨d, e | q⟩
  · rw [opens] at facts
    cases facts
  · rw [opens] at facts
    exact ⟨d, q, rfl, Option.some.inj facts⟩

end Outbox
