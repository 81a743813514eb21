import Outbox.Proofs.Queue.Refinement

/-!
# Moments of a process

A process that uses a queue may be killed at any time. What it was about to write is lost then, as a
whole or but for some bytes that reached their file. So it matters what is on the disk and what is on
its way there while an action is done, not only before and after it.

* `Action` is what a process does with its queue, and `Snapshot` what there is at one time;
* `Snapshot.during` are the moments of an action: the first one is when it begins, and the last one,
  `Snapshot.after`, is when the queue has answered;
* `StoredQueue.Next` says what may happen from one moment to the next, and `leads_during` that nothing
  else happens: no moment is left out;
* `StoredQueue.killed` is the disk after the process was killed.
-/

namespace Outbox

/-! ## Moments of the writer -/

namespace SegmentWriter

/-- Some bytes are written: there is room for them, they are on their way, and they have gone where
they should. -/
def writing (d : Disk) (w : SegmentWriter) (bytes : List UInt8) : List (Disk × SegmentWriter) :=
  match w.makeRoom d bytes.length with
  | (d', w') => [(d', w'), (d', { w' with buffer := w'.buffer ++ bytes }), w.write d bytes]

/-- Pieces are written in turn. -/
def writingAll (d : Disk) (w : SegmentWriter) : List (List UInt8) → List (Disk × SegmentWriter)
  | [] => []
  | piece :: rest =>
    w.writing d piece ++
      match w.write d piece with
      | (d', w') => w'.writingAll d' rest

end SegmentWriter

/-! ## Moments of the queue -/

namespace Queue

/-- Everything is handed to the disk. -/
def flushing (d : Disk) (q : Queue) : List StoredQueue :=
  [⟨(q.flush d).1, (q.flush d).2⟩]

/-- A new segment is begun: everything is handed to the disk, there is a file, and the file is empty. -/
def rolling (d : Disk) (q : Queue) (id : Nat) : List StoredQueue :=
  match q.flush d with
  | (d₁, q₁) =>
    ⟨d₁, q₁⟩ ::
      match d₁.create? (q.folder ++ [segmentName id]) with
      | none => []
      | some (d₂, _) => [⟨d₂, q₁⟩, ⟨(q.roll d id).disk, (q.roll d id).queue⟩]

/-- A new segment is begun if it has to be. -/
def rollingFor (d : Disk) (q : Queue) (w : SegmentWriter) (id bytes : Nat) : List StoredQueue :=
  if 0 < w.size ∧ q.maxSize < w.size + bytes then q.rolling d id else []

/-- The frame of a payload is written. -/
def appending (d : Disk) (q : Queue) (payload : List UInt8) : List StoredQueue :=
  match q.writer with
  | none => []
  | some w =>
    if payload.length < UInt32.size then
      (w.writingAll d (Frame.parts payload)).map fun s => ⟨s.1, { q with writer := some s.2 }⟩
    else []

/-- A payload is put. -/
def putting (d : Disk) (q : Queue) (payload : List UInt8) : List StoredQueue :=
  match q.writer with
  | none => []
  | some w =>
    let bytes := Frame.size payload
    q.rollingFor d w (q.lastPut + 1) bytes ++
      match q.rollFor d w (q.lastPut + 1) bytes with
      | ⟨d₁, q₁, .ok ()⟩ => q₁.appending d₁ payload
      | ⟨_, _, .error _⟩ => []

/-- Segments are removed one by one along a table. -/
def pruning (d : Disk) (q : Queue) : SegmentTable → List StoredQueue
  | (id, file) :: (next, nextFile) :: rest =>
    if q.lastAck + 1 < next then []
    else
      match q.removeSegment d id next file with
      | ⟨d', q', .ok ()⟩ => ⟨d', q'⟩ :: q'.pruning d' ((next, nextFile) :: rest)
      | ⟨d', q', .error _⟩ => [⟨d', q'⟩]
  | _ => []

/-- A version is acknowledged: it is written down, and then segments are removed. -/
def acking (d : Disk) (q : Queue) (version : Nat) : List StoredQueue :=
  if version ≤ q.lastAck then []
  else
    let d' := d.update q.ackFile (versionBytes version ++ (d.read q.ackFile).drop 8)
    let q' := { q with lastAck := version }
    ⟨d', q'⟩ :: q'.pruning d' q'.segments

/-- Whether a new segment is begun before so many bytes are written. -/
def rollsFor (q : Queue) (bytes : Nat) : Bool :=
  q.writer.any fun w => 0 < w.size ∧ q.maxSize < w.size + bytes

end Queue

/-! ## Moments of a process -/

/-- What a process does with its queue. -/
inductive Action (α : Type) where
  | put (now : Int) (obj : α)
  | get
  | ack (version : Nat)
  | flush

/-- What is asked of the queue by an action. -/
def Action.call {α : Type} : Action α → Call α
  | .put now obj => .put now obj
  | .get => .get
  | .ack version => .ack version
  | .flush => .flush

/-- What there is at one time: the disk, the queue in memory, and what came to pass. -/
structure Snapshot (α : Type) extends StoredQueue where
  /-- The records that were given a version, the one that is being put among them. -/
  records : List (Record α)
  /-- The version last put when the queue was last flushed, read, or began a new segment. -/
  handed : Nat

/-- The disk after a process was killed. Of the bytes on their way, so many still reached the file. -/
def StoredQueue.killed (s : StoredQueue) (reached : Nat) : Disk :=
  match s.queue.writer with
  | none => s.disk
  | some w => s.disk.append w.file (w.buffer.take reached)

namespace Snapshot

variable {α : Type} [Storable α]

/-- The record that an action makes of an object. -/
def record (m : Snapshot α) (now : Int) (obj : α) : Record α :=
  ⟨obj, m.queue.lastPut + 1, now⟩

/-- The moment at which there are this disk and this queue, when an action is under way. -/
def under (m : Snapshot α) : Action α → StoredQueue → Snapshot α
  | .put now obj, s => ⟨s, m.records ++ [m.record now obj],
    if m.queue.rollsFor (Frame.size (m.record now obj).payload) then m.queue.lastPut else m.handed⟩
  | .get, s => ⟨s, m.records, m.queue.lastPut⟩
  | .ack _, s => ⟨s, m.records, m.handed⟩
  | .flush, s => ⟨s, m.records, m.queue.lastPut⟩

/-- What happens while an action is done. Reading changes no file. -/
def steps (m : Snapshot α) : Action α → List StoredQueue
  | .put now obj => m.queue.putting m.disk (m.record now obj).payload
  | .get => m.queue.flushing m.disk
  | .ack version => m.queue.acking m.disk version
  | .flush => m.queue.flushing m.disk

/-- The moment after an action. -/
def after (m : Snapshot α) (a : Action α) : Snapshot α :=
  m.under a (m.toStoredQueue.call a.call).1

/-- The moments of an action, from its beginning to its end. -/
def during (m : Snapshot α) (a : Action α) : List (Snapshot α) :=
  m :: ((m.steps a).map (m.under a) ++ [m.after a])

end Snapshot

/-! ## No moment is left out -/

namespace StoredQueue

/-- What may happen from one moment to the next: nothing on the disk, or one thing. What was on its way
to a file is written there, a file is created or cut to a length, the acknowledged version is written,
or a file is removed. -/
inductive Next (s s' : StoredQueue) : Prop
  | still : s'.disk = s.disk → Next s s'
  | written (w : SegmentWriter) : s.queue.writer = some w → s'.disk = s.disk.append w.file w.buffer →
      Next s s'
  | created (p : Place) (file : Nat) : s.disk.create? p = some (s'.disk, file) → Next s s'
  | cut (file length : Nat) : s'.disk = s.disk.update file ((s.disk.read file).take length) → Next s s'
  | noted (version : Nat) : s'.disk = s.disk.update s.queue.ackFile
      (versionBytes version ++ (s.disk.read s.queue.ackFile).drop 8) → Next s s'
  | removed (p : Place) : s.disk.unlink? p = some s'.disk → Next s s'

/-- Moments that lead from one to another, each a single step behind the one before. -/
inductive Leads : StoredQueue → List StoredQueue → StoredQueue → Prop
  | refl (s : StoredQueue) : Leads s [] s
  | step {s s' t : StoredQueue} {l : List StoredQueue} : Next s s' → Leads s' l t → Leads s (s' :: l) t

namespace Leads

variable {s t u : StoredQueue} {l l' : List StoredQueue}

theorem append (h : Leads s l t) (h' : Leads t l' u) : Leads s (l ++ l') u := by
  induction h with
  | refl => exact h'
  | step next _ ih => exact .step next (ih h')

theorem one (h : Next s t) : Leads s [t] t :=
  .step h (.refl t)

/-- The queue in memory may be another one as long as the writer is the same, and the disk. -/
theorem still (h : Leads s l t) (same : u.disk = t.disk) : Leads s (l ++ [u]) u :=
  h.append (one (.still same))

end Leads

end StoredQueue

open StoredQueue (Next Leads)

variable {d : Disk}

theorem SegmentWriter.next_flush (q : Queue) (w : SegmentWriter) :
    Next ⟨d, { q with writer := some w }⟩ ⟨(w.flush d).1, { q with writer := some (w.flush d).2 }⟩ := by
  unfold flush
  split
  · exact .still rfl
  · exact .written w rfl rfl

theorem SegmentWriter.next_makeRoom (q : Queue) (w : SegmentWriter) (n : Nat) :
    Next ⟨d, { q with writer := some w }⟩
      ⟨(w.makeRoom d n).1, { q with writer := some (w.makeRoom d n).2 }⟩ := by
  unfold makeRoom
  split
  · exact next_flush q w
  · exact .still rfl

theorem SegmentWriter.leads_writing (q : Queue) (w : SegmentWriter) (bytes : List UInt8) :
    Leads ⟨d, { q with writer := some w }⟩
      ((w.writing d bytes).map fun s => ⟨s.1, { q with writer := some s.2 }⟩)
      ⟨(w.write d bytes).1, { q with writer := some (w.write d bytes).2 }⟩ := by
  have room := SegmentWriter.next_makeRoom (d := d) q w bytes.length
  have empty := SegmentWriter.buffer_makeRoom d w (n := bytes.length)
  unfold writing write
  rcases hm : w.makeRoom d bytes.length with ⟨d', w'⟩
  rw [hm] at room empty
  simp only [List.map_cons, List.map_nil]
  refine .step room (.step (.still rfl) (.one ?_))
  split
  · next many =>
    refine .written _ rfl ?_
    rw [empty many, List.nil_append]
  · exact .still rfl

theorem SegmentWriter.leads_writingAll (q : Queue) (w : SegmentWriter) (pieces : List (List UInt8)) :
    Leads ⟨d, { q with writer := some w }⟩
      ((w.writingAll d pieces).map fun s => ⟨s.1, { q with writer := some s.2 }⟩)
      ⟨(w.writeAll d pieces).1, { q with writer := some (w.writeAll d pieces).2 }⟩ := by
  induction pieces generalizing d w with
  | nil => exact .refl _
  | cons piece rest ih =>
    have first := SegmentWriter.leads_writing (d := d) q w piece
    rw [writingAll, writeAll, List.map_append]
    exact first.append (ih _)

namespace Queue

theorem next_flush (q : Queue) : Next ⟨d, q⟩ ⟨(q.flush d).1, (q.flush d).2⟩ := by
  unfold flush
  split
  · exact .still rfl
  · next w hw =>
    have next := SegmentWriter.next_flush (d := d) q w
    rwa [← hw] at next

theorem leads_rolling (q : Queue) (id : Nat) :
    Leads ⟨d, q⟩ (q.rolling d id) ⟨(q.roll d id).disk, (q.roll d id).queue⟩ := by
  have flushed := q.next_flush (d := d)
  obtain ⟨writer, same, -⟩ := flush_eq d q
  unfold rolling roll SegmentWriter.openAt
  rcases hf : q.flush d with ⟨d₁, q₁⟩
  simp only [hf] at flushed same
  have folder : q₁.folder = q.folder := by rw [same]
  refine .step flushed ?_
  simp only [folder]
  rcases hc : d₁.create? (q.folder ++ [segmentName id]) with _ | ⟨d₂, file⟩
  · exact .refl _
  · exact .step (.created _ file hc) (.one (.cut file 0 rfl))

theorem leads_rollingFor (q : Queue) (w : SegmentWriter) (id bytes : Nat) :
    Leads ⟨d, q⟩ (q.rollingFor d w id bytes)
      ⟨(q.rollFor d w id bytes).disk, (q.rollFor d w id bytes).queue⟩ := by
  unfold rollingFor rollFor
  split
  · exact q.leads_rolling id
  · exact .refl _

theorem leads_appending (q : Queue) (payload : List UInt8) :
    ∃ s, Leads ⟨d, q⟩ (q.appending d payload) s ∧ (q.append d payload).disk = s.disk := by
  unfold appending append SegmentWriter.put
  cases hw : q.writer with
  | none => exact ⟨_, .refl _, rfl⟩
  | some w =>
    by_cases fits : payload.length < UInt32.size
    · have all := SegmentWriter.leads_writingAll (d := d) q w (Frame.parts payload)
      rw [← hw] at all
      exact ⟨_, by simpa only [if_pos fits] using all, by simp only [if_pos fits]⟩
    · exact ⟨_, by simpa only [if_neg fits] using .refl _, by simp only [if_neg fits]⟩

theorem leads_putting {α : Type} [Storable α] (q : Queue) (now : Int) (obj : α) :
    ∃ s, Leads ⟨d, q⟩ (q.putting d (Record.payload ⟨obj, q.lastPut + 1, now⟩)) s ∧
      (q.put d now obj).disk = s.disk := by
  unfold putting put
  simp only
  generalize Record.payload ⟨obj, q.lastPut + 1, now⟩ = payload
  cases hw : q.writer with
  | none => exact ⟨_, .refl _, rfl⟩
  | some w =>
    have rolled := q.leads_rollingFor (d := d) w (q.lastPut + 1) (Frame.size payload)
    rcases hr : q.rollFor d w (q.lastPut + 1) (Frame.size payload) with ⟨d₁, q₁, e | _⟩
    · simp only [hr] at rolled ⊢
      exact ⟨_, by rwa [List.append_nil], rfl⟩
    · rw [hr] at rolled
      obtain ⟨s, appended, disk⟩ := q₁.leads_appending (d := d₁) payload
      simp only [hr]
      refine ⟨s, rolled.append appended, ?_⟩
      rcases ha : q₁.append d₁ payload with ⟨d₂, q₂, e | _⟩
      all_goals
        rw [ha] at disk
        exact disk

theorem leads_pruning (q : Queue) (table : SegmentTable) :
    Leads ⟨d, q⟩ (q.pruning d table) ⟨(q.pruneAlong d table).disk, (q.pruneAlong d table).queue⟩ := by
  induction table generalizing d q with
  | nil => exact .refl _
  | cons first rest ih =>
    cases rest with
    | nil => exact .refl _
    | cons second rest =>
      obtain ⟨id, file⟩ := first
      obtain ⟨next, nextFile⟩ := second
      rw [pruning, pruneAlong]
      split
      · exact .refl _
      · have step : Next ⟨d, q⟩ ⟨(q.removeSegment d id next file).disk,
            (q.removeSegment d id next file).queue⟩ := by
          unfold removeSegment
          simp only
          split
          · next d' gone => exact .removed _ gone
          · exact .still rfl
        rcases hr : q.removeSegment d id next file with ⟨d', q', e | _⟩
        · rw [hr] at step
          exact .one step
        · rw [hr] at step
          exact .step step (ih q')

theorem leads_acking (q : Queue) (version : Nat) :
    Leads ⟨d, q⟩ (q.acking d version) ⟨(q.ack d version).disk, (q.ack d version).queue⟩ := by
  unfold acking ack
  split
  · exact .refl _
  · exact .step (.noted version rfl) (leads_pruning _ _)

end Queue

namespace Snapshot

variable {α : Type} [Storable α]

theorem toStoredQueue_under (m : Snapshot α) (a : Action α) (s : StoredQueue) :
    (m.under a s).toStoredQueue = s := by
  cases a <;> rfl

theorem leads_steps (m : Snapshot α) (a : Action α) :
    ∃ s, Leads m.toStoredQueue (m.steps a) s ∧ (m.call a.call).1.disk = s.disk := by
  have flushed : Leads m.toStoredQueue (m.queue.flushing m.disk)
      ⟨(m.queue.flush m.disk).1, (m.queue.flush m.disk).2⟩ := .one (Queue.next_flush _)
  cases a with
  | put now obj => exact Queue.leads_putting m.queue now obj
  | get => exact ⟨_, flushed, rfl⟩
  | ack version => exact ⟨_, Queue.leads_acking m.queue version, rfl⟩
  | flush => exact ⟨_, flushed, rfl⟩

/-- **No moment is left out.** From the beginning of an action to its end, what happens to the disk
happens in single steps from one moment to the next. -/
theorem leads_during (m : Snapshot α) (a : Action α) :
    ∃ later, m.during a = m :: later ∧
      Leads m.toStoredQueue (later.map Snapshot.toStoredQueue) (m.after a).toStoredQueue := by
  refine ⟨_, rfl, ?_⟩
  obtain ⟨s, steps, disk⟩ := m.leads_steps a
  have same : ((m.steps a).map (m.under a)).map Snapshot.toStoredQueue = m.steps a := by
    rw [List.map_map]
    exact List.map_id'' (m.toStoredQueue_under a) _
  rw [List.map_append, same]
  refine steps.still ?_
  rw [after, toStoredQueue_under, disk]

end Snapshot

end Outbox
