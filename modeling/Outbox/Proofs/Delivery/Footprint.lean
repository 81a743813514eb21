import Outbox.Delivery.Offline
import Outbox.Proofs.Delivery.Order
import Outbox.Proofs.Delivery.Place
import Outbox.Proofs.Delivery.Places
import Outbox.Proofs.Queue.Confined

/-!
# What an execution does to the disk

Whatever an execution does, it does in the folder of its queue, but for one thing: when a batch was accepted, it
removes the files that were handed over with the operations of the batch.

* `Disk.Touched` says that nothing else happened, and `Divides.touched` that a folder apart does not notice;
* `InOrder.touched` is the law of the sections of delivery in the background;
* `Offline.after` are the calls of offline delivery, and `Offline.Keeps` what holds between them;
* `Stores.aside` and `Offline.Keeps.aside` say that an execution does not notice what leaves its folder alone;
* `Execution.begin` is what executions of both kinds begin with, and `settles_begin` its law.
-/

namespace Outbox

/-! ## Files that are removed -/

namespace Disk

variable {d d' : Disk} {folder other : Place}

theorem clear_removeFile (nothing : d.Clear folder) (path : String) : (d.removeFile path).Clear folder := by
  unfold removeFile unlink?
  cases d.follow? path with
  | none => exact nothing
  | some p =>
    rw [Option.bind_some]
    split
    · exact fun e member => nothing e (List.mem_of_mem_filter member)
    · exact nothing

/-- Nothing appears where files are removed. -/
theorem clear_removeUploaded (nothing : d.Clear folder) (bundle : Bundle) :
    (d.removeUploaded bundle).Clear folder := by
  unfold removeUploaded
  generalize bundle.uploads = uploads
  induction uploads generalizing d with
  | nil => exact nothing
  | cons op uploads ih =>
    rw [List.foldl_cons]
    apply ih
    split
    · exact clear_removeFile nothing _
    · exact nothing

/-- Something happened in a folder, or files were removed that some records hand over. -/
inductive Touched (d d' : Disk) (folder : Place) (records : List (Record Operation)) : Prop
  | inside : d.Inside d' folder → Touched d d' folder records
  | removed (bundle : Bundle) : (∀ op ∈ bundle.uploads, ∃ r ∈ records, r.obj = op) →
      d' = d.removeUploaded bundle → Touched d d' folder records

theorem Touched.of_eq {records : List (Record Operation)} (same : d' = d) : d.Touched d' folder records := by
  rw [same]
  exact .inside (.refl d folder)

theorem Touched.clear {records : List (Record Operation)} (h : d.Touched d' folder records)
    (apart : Place.Apart folder other) (nothing : d.Clear other) : d'.Clear other := by
  cases h with
  | inside inside => exact inside.clear apart nothing
  | removed bundle _ same => exact same ▸ clear_removeUploaded nothing bundle

/-- **Folders that share nothing** do not notice what the owner of one of them does, if no record hands over a
file that lies in one of them. -/
theorem Divides.touched {folders : List Place} {records : List (Record Operation)} (h : d.Divides folders)
    (here : folder ∈ folders) (touched : d.Touched d' folder records)
    (spared : ∀ r ∈ records, ∀ folder ∈ folders, r.obj.Spares folder) :
    d'.Divides folders ∧ ∀ other ∈ folders, other ≠ folder → d.Aside d' other := by
  cases touched with
  | inside inside => exact h.inside here inside
  | removed bundle uploads same =>
    have kept : ∀ other ∈ folders, d.Aside d' other := by
      intro other there
      have spares : ∀ op ∈ bundle.uploads, op.Spares other := by
        intro op uploaded
        obtain ⟨r, member, rfl⟩ := uploads op uploaded
        exact spared r member other there
      exact same ▸ (d.spares_removeUploaded spares).aside (h.bounded other there)
    exact ⟨h.aside kept, fun other there _ => kept other there⟩

end Disk

/-! ## Delivery in the background -/

open Queue (Stays)

theorem stays_nextRecord {s : StoredQueue} (h : s.queue.AtHome s.disk) (stash : Option Queued) :
    Stays s.disk s.queue (nextRecord queueSource stash s).1.disk (nextRecord queueSource stash s).1.queue := by
  cases stash with
  | some r => exact h.stays
  | none => exact Queue.stays_get h

/-- Records are collected in the folder of the queue. -/
theorem stays_collectFrom {σ : Type} (b : Backend σ) (limits : Limits) (fuel : Nat) (c : Collecting)
    (stash : Option Queued) {s : StoredQueue} (h : s.queue.AtHome s.disk) (backend : σ) :
    Stays s.disk s.queue (collectFrom queueSource b limits fuel c stash s backend).source.disk
      (collectFrom queueSource b limits fuel c stash s backend).source.queue := by
  induction fuel generalizing c stash s backend with
  | zero => exact h.stays
  | succ fuel ih =>
    have next := stays_nextRecord h stash
    unfold collectFrom
    generalize nextRecord queueSource stash s = read at next ⊢
    rcases read with ⟨s', _ | _ | r⟩
    · exact next
    · exact next
    · dsimp only
      split
      · exact next.trans (ih _ _ next.atHome _)
      · exact next
      · exact next
      · split <;> exact next

namespace Background

variable {σ : Type} {p : Background σ} {l : ListQueue Operation} {shipments : List Shipment} {flight : List Queued}

theorem Stores.atHome (h : p.Stores l) : p.queue.AtHome p.disk := by
  cases h with
  | held holds =>
    obtain ⟨ids, intact⟩ := holds.intact
    exact intact.atHome
  | removed _ closed => exact fun w hw => absurd (closed.symm.trans hw) nofun

/-- An execution does not notice what leaves its folder alone. -/
theorem Stores.aside (h : p.Stores l) {d : Disk} (aside : p.disk.Aside d p.queue.folder) :
    Stores { p with disk := d } l := by
  cases h with
  | held holds => exact .held (holds.aside aside)
  | removed atEnd closed put acked all => exact .removed atEnd closed put acked all

theorem InOrder.aside (h : p.InOrder l shipments flight) {d : Disk} (aside : p.disk.Aside d p.queue.folder) :
    InOrder { p with disk := d } l shipments flight :=
  h.kept (h.keeps.stores.aside aside) rfl rfl rfl rfl rfl rfl

theorem disk_retry (p : Background σ) (now retries : Nat) (next : Nat → Attempt) :
    (p.retry now retries next).disk = p.disk := by
  unfold retry
  split <;> rfl

theorem disk_wakeSection (p : Background σ) : p.wakeSection.disk = p.disk := by
  unfold wakeSection
  dsimp only
  split <;> rfl

theorem inside_flush (atHome : p.queue.AtHome p.disk) : p.disk.Inside p.flush.disk p.queue.folder :=
  (Queue.stays_flush atHome).inside

theorem inside_collectSection (b : Backend σ) (atHome : p.queue.AtHome p.disk) (now retries : Nat) :
    p.disk.Inside (p.collectSection b now retries).disk p.queue.folder := by
  have collected : p.disk.Inside (p.collectNext b).source.disk p.queue.folder :=
    (stays_collectFrom b _ _ _ _ (s := ⟨p.disk, p.queue⟩) atHome _).inside
  unfold collectSection takeUp
  dsimp only
  split
  · exact collected
  · split <;> exact collected
  · split
    · rw [disk_retry]
      exact collected
    · exact collected
  · exact collected

theorem inside_ackSection (atHome : p.disk.Lists p.queue.folder p.queue.ackFile) (batch : Batch) :
    p.disk.Inside (p.ackSection batch).disk p.queue.folder := by
  have acked := Queue.inside_ack atHome batch.version
  unfold ackSection
  generalize p.queue.ack p.disk batch.version = o at acked ⊢
  rcases o with ⟨d, q, e | _⟩ <;> exact acked

theorem inside_cleanUp (atHome : p.queue.AtHome p.disk) : p.disk.Inside p.cleanUp.1.disk p.queue.folder := by
  have closed := Queue.stays_close atHome
  rcases cleanUp_cases p with same | same
  · rw [same]
    exact closed.inside
  · rw [same]
    exact closed.inside.trans (closed.folder ▸ Queue.inside_removeIfEmpty closed.atHome)

/-- A batch that is accepted hands over files of records that were put, and of no others. -/
theorem InOrder.touched_answerSection (h : p.InOrder l shipments flight) (b : Backend σ) {batch : Batch}
    {retries deadline : Nat} (hp : p.consumer.phase = .awaiting batch retries deadline) (now : Nat) :
    p.disk.Touched (p.answerSection b now batch retries).disk p.queue.folder l.records := by
  have fits := h.phase
  rw [hp] at fits
  obtain ⟨covers, -⟩ := fits
  unfold Background.answerSection
  split
  · refine .removed batch.bundle (fun op uploaded => ?_) rfl
    obtain ⟨r, inFlight, rfl⟩ := covers.uploads op uploaded
    have put : r ∈ l.records.map queued := by
      rw [h.keeps.records]
      exact List.mem_append_right _ (List.mem_append_left _ inFlight)
    obtain ⟨record, member, rfl⟩ := List.mem_map.1 put
    exact ⟨record, member, rfl⟩
  · split
    · exact .of_eq (disk_retry ..)
    · exact .of_eq rfl

/-- The consumer works in the folder of its queue, and removes files of batches that were accepted. -/
theorem InOrder.touched_step (h : p.InOrder l shipments flight) (b : Backend σ) (now : Nat) :
    p.disk.Touched (p.step b now).disk p.queue.folder l.records := by
  have atHome := h.keeps.stores.atHome
  have lives := h.lives
  unfold Background.step
  cases p.readiness now with
  | waits _ | gone => exact .of_eq rfl
  | ready =>
    cases hp : p.consumer.phase with
    | absent | ended | ending | sending | publishing => exact .of_eq rfl
    | collecting retries => exact .inside (inside_collectSection b atHome now retries)
    | awaiting batch retries deadline => exact h.touched_answerSection b hp now
    | sleeping => exact .of_eq (disk_wakeSection p)
    | starting =>
      show p.disk.Touched (p.flushIfDue now).disk p.queue.folder l.records
      unfold Background.flushIfDue
      split
      · exact .inside (inside_flush atHome)
      · exact .of_eq rfl
    | checking retries =>
      show p.disk.Touched (p.check retries).disk p.queue.folder l.records
      unfold Background.check
      split
      · exact .of_eq rfl
      · split <;> exact .of_eq rfl
    | acknowledging batch =>
      rw [hp] at lives
      obtain ⟨ids, intact⟩ := (h.keeps.holds lives).intact
      exact .inside (inside_ackSection ⟨ackName, intact.ackFile⟩ batch)
    | backingOff _ next =>
      show p.disk.Touched (if _ then _ else _ : Background σ).disk p.queue.folder l.records
      split
      · exact .of_eq rfl
      · cases next <;> exact .of_eq rfl
    | resting =>
      show p.disk.Touched (p.restSection now).disk p.queue.folder l.records
      unfold Background.restSection
      split
      · exact .of_eq rfl
      · split
        · exact .of_eq (disk_wakeSection p)
        · exact .of_eq rfl

/-- **An execution works in the folder of its queue**, and removes files of batches that were accepted. -/
theorem InOrder.touched (h : p.InOrder l shipments flight) (b : Backend σ) {s : Section σ} (allowed : p.Allows s)
    (own : ∀ d, s ≠ .disk d) : p.disk.Touched (p.after b s).disk p.queue.folder l.records := by
  have atHome := h.keeps.stores.atHome
  have told {s : Section σ} (tells : s.Tells) (allowed : p.Allows s) :
      p.disk.Touched (p.after b s).disk p.queue.folder l.records :=
    .of_eq (quiet_after b tells allowed).disk
  cases s with
  | put wall op =>
    have put := (Queue.stays_put atHome wall op).inside
    show p.disk.Touched (p.putSection wall op).1.disk p.queue.folder l.records
    unfold putSection
    generalize p.queue.put p.disk wall op = o at put ⊢
    rcases o with ⟨d, q, e | version⟩ <;> exact .inside put
  | publish | checkProgress | wake | notify | suspend | resume | askToStop | interrupt | markStopped
  | service => exact told trivial allowed
  | start now =>
    show p.disk.Touched (p.start now).disk p.queue.folder l.records
    unfold Background.start
    split <;> exact .of_eq rfl
  | flush => exact .inside (inside_flush atHome)
  | close => exact .inside (Queue.stays_close atHome).inside
  | cleanUp => exact .inside (inside_cleanUp atHome)
  | consumer now => exact h.touched_step b now
  | disk d => exact absurd rfl (own d)

end Background

/-! ## Offline delivery -/

/-- What may be asked of offline delivery. -/
inductive OfflineCall where
  | enqueue (wall : Nat) (op : Operation) (wait : Bool)
  | flush
  | close

namespace Offline

variable {p : Offline} {l : ListQueue Operation}

/-- Everything after a call. -/
def after (p : Offline) : OfflineCall → Offline
  | .enqueue wall op wait => (p.enqueue wall op wait).1
  | .flush => p.flush
  | .close => p.close

/-- The record that a call puts, as it comes out of the queue. -/
def stored? (p : Offline) : OfflineCall → Option (Record Operation)
  | .enqueue wall op _ =>
    match (p.queue.put p.disk wall op).result with
    | .ok version => some ⟨op.cut, version, wall⟩
    | .error _ => none
  | _ => none

/-- Whether a call may come next: what is enqueued can be stored, if with a moment in whole milliseconds. -/
def Allows (p : Offline) : OfflineCall → Prop
  | .enqueue wall op _ =>
    p.queue.writer.isSome = true → Record.Durable ⟨op.cut, p.queue.lastPut + 1, wall⟩
  | _ => True

/-- The queue of an execution holds the records that were enqueued, and nothing was acknowledged. -/
structure Keeps (p : Offline) (l : ListQueue Operation) : Prop where
  holds : StoredQueue.Holds ⟨p.disk, p.queue⟩ l
  acked : l.acked = 0

theorem Keeps.aside (h : p.Keeps l) {d : Disk} (aside : p.disk.Aside d p.queue.folder) :
    Keeps { p with disk := d } l :=
  ⟨h.holds.aside aside, h.acked⟩

theorem Keeps.atHome (h : p.Keeps l) : p.queue.AtHome p.disk := by
  obtain ⟨ids, intact⟩ := h.holds.intact
  exact intact.atHome

theorem Keeps.flush (h : p.Keeps l) : p.flush.Keeps l :=
  ⟨h.holds.flush.1, h.acked⟩

/-- What is enqueued is put behind the others, or refused if the queue was closed. -/
theorem Keeps.enqueue (h : p.Keeps l) {wall : Nat} {op : Operation} {wait : Bool}
    (allowed : p.Allows (.enqueue wall op wait)) :
    ∃ l', (p.enqueue wall op wait).1.Keeps l' ∧
      l'.records = l.records ++ (p.stored? (.enqueue wall op wait)).toList := by
  unfold Offline.enqueue stored?
  dsimp only
  cases isOpen : l.isOpen with
  | false =>
    rw [h.holds.put_closed isOpen]
    exact ⟨l, h, (List.append_nil _).symm⟩
  | true =>
    obtain ⟨ids, intact⟩ := h.holds.intact
    have durable := allowed (h.holds.isOpen.trans isOpen)
    rw [intact.lastPut] at durable
    obtain ⟨d', q', put, holds, -⟩ := h.holds.put isOpen durable
    rw [Queue.put_cut] at put
    rw [put]
    have keeps : Keeps { p with disk := d', queue := q' } _ := ⟨holds, h.acked⟩
    refine ⟨{ l with records := l.records ++ [⟨op.cut, l.records.length + 1, wall⟩] }, ?_, rfl⟩
    cases wait with
    | false => exact keeps
    | true => exact keeps.flush

/-- **A call puts one record or none**, and nothing is acknowledged. -/
theorem Keeps.after (h : p.Keeps l) {c : OfflineCall} (allowed : p.Allows c) :
    ∃ l', (p.after c).Keeps l' ∧ l'.records = l.records ++ (p.stored? c).toList := by
  cases c with
  | enqueue wall op wait => exact h.enqueue allowed
  | flush => exact ⟨l, h.flush, (List.append_nil _).symm⟩
  | close => exact ⟨_, ⟨h.holds.close.1, h.acked⟩, (List.append_nil _).symm⟩

/-- A call works in the folder of the queue. -/
theorem stays_after (atHome : p.queue.AtHome p.disk) (c : OfflineCall) :
    Stays p.disk p.queue (p.after c).disk (p.after c).queue := by
  cases c with
  | enqueue wall op wait =>
    have put := Queue.stays_put atHome wall op
    show Stays p.disk p.queue (p.enqueue wall op wait).1.disk (p.enqueue wall op wait).1.queue
    unfold Offline.enqueue
    generalize p.queue.put p.disk wall op = o at put ⊢
    rcases o with ⟨d, q, e | version⟩
    · exact put
    · cases wait with
      | false => exact put
      | true => exact put.trans (Queue.stays_flush put.atHome)
  | flush => exact Queue.stays_flush atHome
  | close => exact Queue.stays_close atHome

end Offline

/-! ## The beginning -/

/-- Nothing happened, or a folder was made and something happened in it. -/
def Disk.Settles (d d' : Disk) (place : Place) : Prop :=
  d' = d ∨ ∃ d₁, d.makeFolders? place = some d₁ ∧ d₁.Inside d' place

namespace Disk

variable {d d' : Disk} {place other : Place}

theorem Settles.clear (h : d.Settles d' place) (apart : Place.Apart place other) (nothing : d.Clear other) :
    d'.Clear other := by
  rcases h with rfl | ⟨d₁, made, inside⟩
  · exact nothing
  · exact inside.clear apart ((makes_makeFolders made).clear apart.right nothing)

/-- **Who settles where nothing is** shares nothing with the others. -/
theorem Divides.settles {folders : List Place} (h : d.Divides folders) (nothing : d.Clear place)
    (named : place.all isName = true) (apart : ∀ folder ∈ folders, Place.Apart folder place)
    (settles : d.Settles d' place) :
    d'.Divides (folders ++ [place]) ∧ ∀ folder ∈ folders, d.Aside d' folder := by
  rcases settles with rfl | ⟨d₁, made, inside⟩
  · exact ⟨h.concat apart nothing.empty, fun folder _ => .refl d' folder⟩
  · obtain ⟨-, divides, kept⟩ := h.make nothing named apart made
    obtain ⟨divides', kept'⟩ := divides.inside (List.mem_append_right _ List.mem_cons_self) inside
    exact ⟨divides', fun folder member =>
      (kept folder member).trans (kept' folder (List.mem_append_left _ member) (apart folder member).ne)⟩

end Disk

namespace Execution

/-- What an execution begins with: its folder, the queue in it, and the metadata. -/
def begin (d : Disk) (base : String) (c : Container) (maxSegment : Nat) (mode : Mode) (wall process : Nat) :
    Disk × Except DeliveryError (Execution × Queue) :=
  match create d base c wall process with
  | (d₁, .error e) => (d₁, .error e)
  | (d₁, .ok execution) =>
    match Queue.openIn d₁ execution.place maxSegment with
    | (d₂, .error e) => (d₂, .error (.queue e))
    | (d₂, .ok queue) =>
      match execution.writeMetadata d₂ mode c wall with
      | (d₃, .error e) => (d₃, .error e)
      | (d₃, .ok _) => (d₃, .ok (execution, queue))

/-- Metadata is written in the folder of an execution. -/
theorem inside_writeMetadata (d : Disk) (e : Execution) (mode : Mode) (c : Container) (wall : Nat) :
    d.Inside (e.writeMetadata d mode c wall).1 e.place := by
  unfold writeMetadata
  dsimp only
  split
  · split
    · exact .refl d e.place
    · next written => exact .write written
  · exact .refl d e.place

/-- A queue is no other one when metadata was written beside it. -/
theorem holds_writeMetadata {d d' : Disk} {e : Execution} {q : Queue} {l : ListQueue Operation}
    (holds : StoredQueue.Holds ⟨d, q⟩ l) (place : q.folder = e.place) {mode : Mode} {c : Container} {wall : Nat}
    {m : Metadata} (written : e.writeMetadata d mode c wall = (d', .ok m)) : StoredQueue.Holds ⟨d', q⟩ l := by
  unfold writeMetadata at written
  dsimp only at written
  split at written
  · split at written
    · cases written
    · next written' =>
      cases written
      rw [← place] at written'
      exact holds.write not_isOurs_metadataName (by decide) (by decide) written'
  · cases written

/-- **An execution settles at its place**, and its queue is empty if it begins. -/
theorem settles_begin {d : Disk} {base : String} {c : Container} {wall process : Nat}
    (nothing : d.Clear (executionPlace base c wall process))
    (named : (executionPlace base c wall process).all isName = true)
    (straight : ".." ∉ executionPlace base c wall process) (maxSegment : Nat) (mode : Mode) :
    d.Settles (begin d base c maxSegment mode wall process).1 (executionPlace base c wall process) ∧
      ∀ e q, (begin d base c maxSegment mode wall process).2 = .ok (e, q) →
        StoredQueue.Holds ⟨(begin d base c maxSegment mode wall process).1, q⟩ (.empty : ListQueue Operation) ∧
          q.folder = executionPlace base c wall process := by
  unfold begin
  rcases create_cases nothing named straight with ⟨e, failed⟩ | ⟨d₁, e, created, place, made, blank⟩
  · rw [failed]
    exact ⟨.inl rfl, nofun⟩
  · have again : d₁.makeFolders? e.place = some d₁ := if_pos blank.tidy.isFolder
    obtain ⟨d₂, q, opened, holds, folder⟩ := holds_create (α := Operation) again blank maxSegment
    have opens := Queue.inside_openIn blank.tidy.isFolder maxSegment
    have writes := inside_writeMetadata d₂ e mode c wall
    rw [opened] at opens
    rw [created, ← place]
    dsimp only
    rw [opened]
    dsimp only
    rcases written : e.writeMetadata d₂ mode c wall with ⟨d₃, e' | m⟩ <;> rw [written] at writes
    · exact ⟨.inr ⟨d₁, made, opens.trans writes⟩, nofun⟩
    · refine ⟨.inr ⟨d₁, made, opens.trans writes⟩, fun _ _ same => ?_⟩
      cases same
      exact ⟨holds_writeMetadata holds folder written, folder⟩

end Execution

/-- Offline delivery begins with nothing more. -/
theorem Offline.create_eq (d : Disk) (base : String) (c : Container) (maxSegment wall process : Nat) :
    create d base c maxSegment wall process =
      ((Execution.begin d base c maxSegment .offline wall process).1,
        (Execution.begin d base c maxSegment .offline wall process).2.map fun (e, q) =>
          ⟨e, (Execution.begin d base c maxSegment .offline wall process).1, q⟩) := by
  unfold create Execution.begin
  rcases Execution.create d base c wall process with ⟨d₁, _ | e⟩
  · rfl
  · dsimp only
    rcases Queue.openIn d₁ e.place maxSegment with ⟨d₂, _ | q⟩
    · rfl
    · dsimp only
      rcases e.writeMetadata d₂ .offline c wall with ⟨d₃, _ | m⟩ <;> rfl

/-- Delivery in the background begins with a consumer that is not there yet. -/
theorem Background.create_eq {σ : Type} (d : Disk) (s : σ) (c : Container) (settings : BackgroundSettings)
    (wall process now : Nat) :
    create d s c settings wall process now =
      ((Execution.begin d settings.dataDir c settings.maxSegment .async wall process).1,
        (Execution.begin d settings.dataDir c settings.maxSegment .async wall process).2.map fun (e, q) =>
          ⟨c, settings, e, (Execution.begin d settings.dataDir c settings.maxSegment .async wall process).1, q, s,
            ⟨.idle, false, false, false, q.lastPut, q.lastAck, now, none, false, false⟩, ⟨.absent, none, now⟩,
            false, 0, 0⟩) := by
  unfold create Execution.begin
  rcases Execution.create d settings.dataDir c wall process with ⟨d₁, _ | e⟩
  · rfl
  · dsimp only
    rcases Queue.openIn d₁ e.place settings.maxSegment with ⟨d₂, _ | q⟩
    · rfl
    · dsimp only
      rcases e.writeMetadata d₂ .async c wall with ⟨d₃, _ | m⟩ <;> rfl

end Outbox
