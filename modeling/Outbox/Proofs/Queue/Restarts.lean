import Outbox.Proofs.Queue.Durability

/-!
# Processes that are killed

Processes take turns with the folder of a queue. Each opens the queue, puts, reads, acknowledges and
flushes, and is killed at some moment, in the middle of an action or between two of them. The next one
finds all records that were handed to the disk, perhaps some more that were put later, and goes on
behind what was acknowledged.

* `Snapshot.Allows` is what a process may do, and `Snapshot.Comes` are the snapshots they come to;
* `Comes.secures` is the invariant between actions;
* `Snapshot.Recovers` says with what the next process goes on, and `Comes.recovers` that it does.
-/

namespace Outbox

variable {α : Type} [Storable α]

namespace Snapshot

/-- What a process may do: what it puts can be stored, and it acknowledges what it has read. -/
def Allows (m : Snapshot α) : Action α → Prop
  | .put now obj => (m.record now obj).Durable
  | .ack version => version ≤ m.queue.lastRead
  | _ => True

/-- The first snapshot of a process that has opened a queue in which it found some of these records. -/
def opened (records : List (Record α)) (d : Disk) (q : Queue) : Snapshot α :=
  ⟨⟨d, q⟩, records.take q.lastPut, q.lastPut⟩

/-- The snapshots between actions to which processes come. The first one opens a queue in a folder,
which is as on this disk; each of the others does so after the one before was killed at some moment of
an action, when some of the bytes on their way still reached their file. -/
inductive Comes (d : Disk) (folder : Place) : Snapshot α → Prop
  | first {maxSize : Nat} {d' : Disk} {q : Queue} :
      Queue.openIn d folder maxSize = (d', .ok q) → Comes d folder (opened [] d' q)
  | act {m : Snapshot α} {a : Action α} : Comes d folder m → m.Allows a → Comes d folder (m.after a)
  | next {m m' : Snapshot α} {a : Action α} {reached maxSize : Nat} {d' : Disk} {q : Queue} :
      Comes d folder m → m.Allows a → m' ∈ m.during a →
      Queue.openIn (m'.killed reached) folder maxSize = (d', .ok q) →
      Comes d folder (opened m'.records d' q)

/-- What a process has put can be stored. -/
theorem durable_under {m : Snapshot α} (durable : ∀ r ∈ m.records, r.Durable) {a : Action α}
    (allowed : m.Allows a) (s : StoredQueue) : ∀ r ∈ (m.under a s).records, r.Durable := by
  cases a with
  | put now obj => exact List.forall_mem_append.2 ⟨durable, List.forall_mem_singleton.2 allowed⟩
  | get | ack version | flush => exact durable

theorem durable_during {m m' : Snapshot α} (durable : ∀ r ∈ m.records, r.Durable) {a : Action α}
    (allowed : m.Allows a) (during : m' ∈ m.during a) : ∀ r ∈ m'.records, r.Durable := by
  rw [Snapshot.during, List.mem_cons, List.mem_append, List.mem_map, List.mem_singleton] at during
  obtain rfl | ⟨s, -, rfl⟩ | rfl := during
  · exact durable
  · exact durable_under durable allowed s
  · exact durable_under durable allowed _

theorem Comes.durable {d : Disk} {folder : Place} {m : Snapshot α} (h : m.Comes d folder) :
    ∀ r ∈ m.records, r.Durable := by
  induction h with
  | first => simp [opened]
  | act _ allowed ih => exact durable_under ih allowed _
  | next _ allowed member _ ih =>
    exact fun r inside => durable_during ih allowed member r (List.mem_of_mem_take inside)

/-- **A step of a process.** Records that are secured are kept at every moment of an action, and those
that are to be secured by it are secured at its end. -/
theorem secures_after {m : Snapshot α} {folder : Place} {ids : List Nat}
    (h : m.Secures folder ids m.records m.handed) (durable : ∀ r ∈ m.records, r.Durable) {a : Action α}
    (allowed : m.Allows a) :
    (∀ m' ∈ m.during a, m'.Keeps folder m'.records m'.handed) ∧
      ∃ ids', (m.after a).Secures folder ids' (m.after a).records (m.after a).handed := by
  have lastPut : m.queue.lastPut = m.records.length := h.intact.lastPut
  -- it suffices to look at what happens in between, and at the end
  suffices step : (∀ s ∈ m.steps a, s.Keeps folder (m.after a).records (m.after a).handed) ∧
      ∃ ids', (m.after a).Secures folder ids' (m.after a).records (m.after a).handed by
    obtain ⟨steps, ids', after⟩ := step
    refine ⟨?_, ids', after⟩
    intro m' member
    rw [during, List.mem_cons, List.mem_append, List.mem_map, List.mem_singleton] at member
    obtain rfl | ⟨s, member, rfl⟩ | rfl := member
    · exact h.keeps
    · have kept := steps s member
      cases a <;> exact kept
    · exact after.keeps
  have flushed : ∀ s ∈ m.queue.flushing m.disk, s.Keeps folder m.records m.records.length := by
    intro s member
    obtain rfl := List.mem_singleton.1 member
    exact h.flush.keeps
  cases a with
  | put now obj =>
    have same : m.record now obj = ⟨obj, m.records.length + 1, now⟩ := by rw [record, lastPut]
    exact h.put (same ▸ allowed.sized) same (by rw [← lastPut]; rfl)
  | get =>
    have got := h.get durable
    rw [← lastPut] at flushed got
    exact ⟨flushed, ids, got⟩
  | ack version => exact h.ack allowed
  | flush =>
    have done := h.flush
    rw [← lastPut] at flushed done
    exact ⟨flushed, ids, done⟩

/-- **Between actions, records are secured.** -/
theorem Comes.secures {d : Disk} {folder : Place} (free : d.Free folder) {m : Snapshot α}
    (h : m.Comes d folder) : ∃ ids, m.Secures folder ids m.records m.handed := by
  induction h with
  | @first maxSize d' q opens =>
    obtain ⟨d₁, made, blank⟩ := free.make
    obtain ⟨_, _, ids, opens', intact, place, -, isOpen, acked, read⟩ :=
      Queue.intact_create (α := α) made blank maxSize
    rw [opens, Prod.mk.injEq, Except.ok.injEq] at opens'
    obtain ⟨rfl, rfl⟩ := opens'
    obtain ⟨w, hw⟩ := Option.isSome_iff_exists.1 isOpen
    have none_put : q.lastPut = 0 := intact.lastPut
    refine ⟨ids, ?_⟩
    rw [opened, none_put]
    exact ⟨intact, place, Nat.le_refl _, Nat.le_of_eq read, Nat.le_of_eq acked, w, hw,
      by simp [between]⟩
  | act comes allowed ih =>
    obtain ⟨ids, secured⟩ := ih
    exact (secures_after secured comes.durable allowed).2
  | @next m m' a reached maxSize d' q comes allowed member opens ih =>
    obtain ⟨ids, secured⟩ := ih
    obtain ⟨ids₁, k, -, most, -, left⟩ := (secures_after secured comes.durable allowed).1 m' member reached
    obtain ⟨_, _, ids₂, opens', -, intact, nothing, place, -, isOpen, -⟩ :=
      Queue.intact_open left maxSize
    rw [opens, Prod.mk.injEq, Except.ok.injEq] at opens'
    obtain ⟨rfl, rfl⟩ := opens'
    have lastPut : q.lastPut = k := intact.lastPut.trans (List.length_take_of_le most)
    refine ⟨ids₂, ?_⟩
    rw [opened, lastPut]
    have all : StoredQueue.Secures ⟨d', q⟩ folder ids₂ (m'.records.take k) (m'.records.take k).length :=
      StoredQueue.secures_of_nothing_held intact place isOpen nothing
    rwa [List.length_take_of_le most] at all

/-- The last version that was put is the number of records. -/
theorem Comes.lastPut {d : Disk} {folder : Place} (free : d.Free folder) {m : Snapshot α}
    (h : m.Comes d folder) : m.queue.lastPut = m.records.length := by
  obtain ⟨ids, secured⟩ := h.secures free
  exact secured.intact.lastPut

/-- **A queue goes on with the records up to version `k`** behind what was acknowledged. Among them are
all that were handed to the disk, and no others than were put. It answers to whatever it may be asked
as a list of these records would: gets return the records behind the acknowledged version one after the
other, with their objects, and the next put returns version `k + 1`. -/
structure Recovers (m : Snapshot α) (s : StoredQueue) (k : Nat) : Prop where
  lastAck : s.queue.lastAck = m.queue.lastAck
  acked : m.queue.lastAck ≤ k
  handed : m.handed ≤ k
  put : k ≤ m.records.length
  numbered : ∀ {i : Nat} {r : Record α}, (m.records.take k)[i]? = some r → r.version = i + 1
  answers : ∀ {calls : List (Call α)},
    (⟨m.records.take k, m.queue.lastAck, m.queue.lastAck, true⟩ : ListQueue α).AllowsAll calls →
      s.answers calls =
        (⟨m.records.take k, m.queue.lastAck, m.queue.lastAck, true⟩ : ListQueue α).answers calls

/-- **No record that was handed to the disk is lost when a process is killed.** At whatever moment of
whatever action that happens, and however many of the bytes on their way still reach their file, the
queue can be opened again, with any limit of the length of segments. The acknowledged version is the one
that was last written down, and the records are those up to some version. -/
theorem Comes.recovers {d : Disk} {folder : Place} (free : d.Free folder) {m : Snapshot α}
    (comes : m.Comes d folder) {a : Action α} (allowed : m.Allows a) {m' : Snapshot α}
    (during : m' ∈ m.during a) (reached maxSize : Nat) :
    (m'.disk.content? (folder ++ [ackName])).map versionIn = some m'.queue.lastAck ∧
      ∃ d' q k, Queue.openIn (m'.killed reached) folder maxSize = (d', .ok q) ∧
        m'.Recovers ⟨d', q⟩ k := by
  obtain ⟨ids, secured⟩ := comes.secures free
  have keeps := (secures_after secured comes.durable allowed).1 m' during
  refine ⟨?_, ?_⟩
  · obtain ⟨_, _, -, -, -, left⟩ := keeps 0
    obtain ⟨file, found, acked⟩ := left.ackFile
    rw [StoredQueue.killed_zero] at found acked
    rw [Disk.content?, Disk.file?, found, ← acked]
    rfl
  · obtain ⟨ids₁, k, least, most, acked, left⟩ := keeps reached
    obtain ⟨d', q, ids₂, opens, -, intact, nothing, place, -, isOpen, lastAck, lastRead⟩ :=
      Queue.intact_open left maxSize
    have holds : StoredQueue.Holds ⟨d', q⟩
        ⟨m'.records.take k, m'.queue.lastAck, m'.queue.lastAck, true⟩ :=
      ⟨⟨ids₂, intact⟩, lastRead, lastAck, isOpen, Nat.le_refl _, fun r member =>
        durable_during comes.durable allowed during r (List.mem_of_mem_take member)⟩
    exact ⟨d', q, k, opens, lastAck, acked, least, most, left.filed.numbered, holds.answers_eq⟩

/-- The first record was read, and the process is killed while the second one is put. -/
theorem recovers_secondPut : ∃ (d : Disk) (q : Queue) (m : Snapshot String),
    Queue.openIn Disk.empty ["queue"] 0 = (d, .ok q) ∧
      m = (((opened [] d q).after (.put 5 "x")).after .get).after (.put 6 "y") ∧
      m.records = [⟨"x", 1, 5⟩, ⟨"y", 2, 6⟩] ∧ m.handed = 1 ∧
      ∃ d' q' k, Queue.openIn (m.killed 3) ["queue"] 0 = (d', .ok q') ∧ m.Recovers ⟨d', q'⟩ k := by
  have free : Disk.empty.Free ["queue"] :=
    ⟨by decide, fun e member => absurd member (List.not_mem_nil), by decide⟩
  have firstRecord : Record.Durable (⟨"x", 1, 5⟩ : Record String) :=
    ⟨by decide +kernel, by decide +kernel⟩
  have secondRecord : Record.Durable (⟨"y", 2, 6⟩ : Record String) :=
    ⟨by decide +kernel, by decide +kernel⟩
  obtain ⟨d₁, made, blank⟩ := free.make
  obtain ⟨d, q, opens, -⟩ := holds_create (α := String) made blank 0
  have comes₀ : (opened [] d q : Snapshot String).Comes Disk.empty ["queue"] := .first opens
  have count₀ : q.lastPut = 0 := by simpa [opened] using comes₀.lastPut free
  have record₀ : record (opened [] d q) 5 "x" = ⟨"x", 1, 5⟩ := by rw [record, opened, count₀]
  have comes₁ : ((opened [] d q : Snapshot String).after (.put 5 "x")).Comes Disk.empty ["queue"] := by
    refine comes₀.act ?_
    rw [Allows, record₀]
    exact firstRecord
  have comes₂ := comes₁.act (a := .get) trivial
  have records₂ : (((opened [] d q).after (.put 5 "x")).after .get).records = [⟨"x", 1, 5⟩] := by
    show (opened [] d q).records ++ [record (opened [] d q) 5 "x"] = _
    rw [record₀, opened, List.take_nil, List.nil_append]
  have handed₂ : (((opened [] d q).after (.put 5 "x")).after .get).handed = 1 := by
    show ((opened [] d q).after (.put 5 "x")).queue.lastPut = 1
    rw [comes₁.lastPut free]
    exact congrArg List.length records₂
  obtain ⟨m, hm⟩ : ∃ m, m = ((opened [] d q).after (.put 5 "x")).after .get := ⟨_, rfl⟩
  rw [← hm] at comes₂ records₂ handed₂
  have count₂ : m.queue.lastPut = 1 := (comes₂.lastPut free).trans (congrArg List.length records₂)
  have record₂ : m.record 6 "y" = ⟨"y", 2, 6⟩ := by rw [record, count₂]
  have allowed : m.Allows (.put 6 "y") := by
    rw [Allows, record₂]
    exact secondRecord
  refine ⟨d, q, m.after (.put 6 "y"), opens, by rw [hm], ?_, ?_, ?_⟩
  · show m.records ++ [m.record 6 "y"] = _
    rw [records₂, record₂]
    rfl
  · show (if m.queue.rollsFor _ then m.queue.lastPut else m.handed) = 1
    rw [count₂, handed₂]
    exact ite_self _
  · exact (Comes.recovers free comes₂ allowed (by simp [during]) 3 0).2

end Snapshot

end Outbox
