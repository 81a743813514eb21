import Outbox.Proofs.Batch.Undecoded
import Outbox.Proofs.Delivery.Place

/-!
# Operations that block delivery

An operation that was accepted but cannot be decoded is never acknowledged, and neither is anything behind
it: the consumer comes to its end where it reads the operation, and nobody starts another one.

* `Background.Permits` asks less than `Background.Allows`: any operation may be put;
* `Background.Ahead` is a queue with such an operation ahead of the consumer, and `Background.Blocked` says
  that the consumer did not come to it, or is at its end;
* `Blocked.after` keeps this, whatever happens, and `Blocked.behind` is what it is about.
-/

namespace Outbox

/-- What the consumer has in a phase was read before: a batch that it sends stands for records that were
read, and so does one that it acknowledges. -/
def Phase.Carries (l : ListQueue Operation) : Phase → Prop
  | .sending batch _ => batch.From l.given
  | .awaiting batch _ _ => batch.From l.given
  | .backingOff _ (.send batch _) => batch.From l.given
  | .acknowledging batch => batch.version ≤ l.read
  | _ => True

theorem Phase.Carries.congr {l l' : ListQueue Operation} {ph : Phase} (h : ph.Carries l)
    (given : l'.given = l.given) (read : l'.read = l.read) : ph.Carries l' := by
  unfold Phase.Carries at h ⊢
  rw [given, read]
  exact h

namespace Background

variable {σ : Type} {p p' : Background σ} {l l' : ListQueue Operation}

/-- Whether a section may come next, whatever is put. -/
def Permits (p : Background σ) : Section σ → Prop
  | .put wall op => IsClock wall ∧ p.queue.lastPut + 1 < UInt64.size ∧ op.Spares p.queue.folder
  | s => p.Allows s

/-- Whether sections may come one after the other. -/
def PermitsAll (b : Backend σ) (p : Background σ) : List (Section σ) → Prop
  | [] => True
  | s :: sections => p.Permits s ∧ PermitsAll b (p.after b s) sections

theorem permitsAll_append {b : Backend σ} {front back : List (Section σ)} :
    p.PermitsAll b (front ++ back) ↔ p.PermitsAll b front ∧ (p.run b front).PermitsAll b back := by
  induction front generalizing p with
  | nil =>
    show p.PermitsAll b back ↔ True ∧ p.PermitsAll b back
    rw [true_and]
  | cons s front ih =>
    show (p.Permits s ∧ (p.after b s).PermitsAll b (front ++ back)) ↔
      (p.Permits s ∧ (p.after b s).PermitsAll b front) ∧ _
    rw [ih, and_assoc]
    rfl

/-- A put changes the disk and the queue. -/
theorem putSection_fst (p : Background σ) (wall : Nat) (op : Operation) :
    (p.putSection wall op).1 = { p with
      disk := (p.queue.put p.disk wall op).disk
      queue := (p.queue.put p.disk wall op).queue } := by
  unfold putSection
  rcases p.queue.put p.disk wall op with ⟨d, q, e | version⟩ <;> rfl

/-- Any operations may be put, as long as 64 bits can count them. -/
theorem permitsAll_puts (b : Backend σ) {wall : Nat} (clock : IsClock wall) {ops : List Operation}
    (few : p.queue.lastPut + ops.length < UInt64.size) (spares : ∀ op ∈ ops, op.Spares p.queue.folder) :
    p.PermitsAll b (ops.map (.put wall)) := by
  induction ops generalizing p with
  | nil => trivial
  | cons op ops ih =>
    rw [List.length_cons] at few
    refine ⟨⟨clock, by omega, spares op List.mem_cons_self⟩, ih ?_ ?_⟩
    · obtain ⟨segments, writer, lastPut, one, same⟩ := Queue.put_eq p.disk p.queue wall op
      show (p.putSection wall op).1.queue.lastPut + ops.length < UInt64.size
      rw [putSection_fst, same]
      show lastPut + ops.length < UInt64.size
      omega
    · rw [folder_after]
      exact fun op' mem => spares op' (List.mem_cons_of_mem _ mem)

/-- The queue follows a list with an operation that cannot be decoded, and everything that the consumer
has was read ahead of it. -/
structure Ahead (p : Background σ) (l : ListQueue Operation) : Prop where
  follows : StoredQueue.Follows ⟨p.disk, p.queue⟩ l
  blocks : ∃ r ∈ l.records, ¬ r.obj.mutation.Dated
  spares : ∀ r ∈ l.records, r.obj.Spares p.queue.folder
  stash : ∀ r ∈ p.consumer.stash, r ∈ l.given
  carried : p.consumer.phase.Carries l
  idle : p.control.status = .idle → p.consumer.phase = .absent

/-- The consumer did not come to the operation, or is at its end. -/
inductive Blocked (p : Background σ) : Prop
  | ahead {l : ListQueue Operation} : p.Ahead l → Blocked p
  | atEnd : p.consumer.phase = .ending ∨ p.consumer.phase = .ended → p.control.status ≠ .idle →
      p.queue.lastAck < p.queue.lastPut → Blocked p

/-- **Not everything is acknowledged.** -/
theorem Blocked.behind (h : p.Blocked) : p.queue.lastAck < p.queue.lastPut := by
  cases h with
  | ahead h => exact h.follows.lastAck_lt h.blocks
  | atEnd _ _ behind => exact behind

/-! ## Frames -/

/-- A section that does not touch the queue. -/
theorem Ahead.frame (h : p.Ahead l) (disk : p'.disk = p.disk) (queue : p'.queue = p.queue)
    (stash : p'.consumer.stash = p.consumer.stash)
    (carried : p'.consumer.phase.Carries l)
    (idle : p'.control.status = .idle → p'.consumer.phase = .absent) : p'.Ahead l where
  follows := by
    rw [disk, queue]
    exact h.follows
  blocks := h.blocks
  spares := by
    rw [queue]
    exact h.spares
  stash := by
    rw [stash]
    exact h.stash
  carried := carried
  idle := idle

/-- A section that touches nothing but the queue, and puts some records. -/
theorem Ahead.stored (h : p.Ahead l) (follows : StoredQueue.Follows ⟨p'.disk, p'.queue⟩ l')
    (folder : p'.queue.folder = p.queue.folder) (control : p'.control = p.control)
    (consumer : p'.consumer = p.consumer) (read : l'.read = l.read) {new : List (Record Operation)}
    (records : l'.records = l.records ++ new) (spares : ∀ r ∈ new, r.obj.Spares p.queue.folder) :
    p'.Ahead l' := by
  have given : l'.given = l.given := by
    rw [ListQueue.given, records, read, List.take_append_of_le_length h.follows.length_le]
    rfl
  refine ⟨follows, ?_, ?_, ?_, ?_, ?_⟩
  · obtain ⟨r, mem, undated⟩ := h.blocks
    exact ⟨r, records ▸ List.mem_append_left _ mem, undated⟩
  · rw [folder, records]
    intro r mem
    rcases List.mem_append.1 mem with old | new
    · exact h.spares r old
    · exact spares r new
  · rw [consumer, given]
    exact h.stash
  · rw [consumer]
    exact h.carried.congr given read
  · rw [control, consumer]
    exact h.idle

/-- As `stored`, where nothing is put. -/
theorem Ahead.kept (h : p.Ahead l) (follows : StoredQueue.Follows ⟨p'.disk, p'.queue⟩ l')
    (folder : p'.queue.folder = p.queue.folder) (control : p'.control = p.control)
    (consumer : p'.consumer = p.consumer) (read : l'.read = l.read) (records : l'.records = l.records) :
    p'.Ahead l' :=
  h.stored follows folder control consumer read (records.trans (List.append_nil _).symm)
    fun _ mem => absurd mem List.not_mem_nil

/-! ## Sections beside the consumer -/

theorem Quiet.carries (quiet : p.Quiet p') (h : p.consumer.phase.Carries l) :
    p'.consumer.phase.Carries l := by
  have nudged := quiet.phase
  generalize p.consumer.phase = ph at nudged h
  generalize p'.consumer.phase = ph' at nudged
  cases nudged with
  | same => exact h
  | woken => trivial

/-- Nobody becomes idle. -/
theorem Quiet.ne_idle (quiet : p.Quiet p') (started : p.control.status ≠ .idle) :
    p'.control.status ≠ .idle := by
  rcases quiet.status with same | ⟨-, alive⟩ | ⟨-, stopped⟩
  · rw [same]
    exact started
  · intro idle
    rw [idle] at alive
    cases alive
  · rw [stopped]
    exact nofun

theorem Ahead.quiet (h : p.Ahead l) (quiet : p.Quiet p') : p'.Ahead l := by
  refine h.frame quiet.disk quiet.queue quiet.stash (quiet.carries h.carried) fun idle => ?_
  · have absent := h.idle (Classical.byContradiction fun started => quiet.ne_idle started idle)
    have nudged := quiet.phase
    rw [absent] at nudged
    generalize p'.consumer.phase = ph at nudged
    cases nudged
    rfl

theorem Ahead.close (h : p.Ahead l) : p.close.Ahead { l with isOpen := false } :=
  h.kept ⟨h.follows.holds.close.1, h.follows.dated, h.follows.whole⟩ (Queue.folder_close p.disk p.queue) rfl rfl rfl rfl

/-- Whatever happens beside the consumer. -/
theorem Ahead.beside (h : p.Ahead l) (b : Backend σ) {s : Section σ} (other : ∀ now, s ≠ .consumer now)
    (permitted : p.Permits s) : ∃ l', (p.after b s).Ahead l' := by
  have folder := folder_after b p s
  cases s with
  | consumer now => exact absurd rfl (other now)
  | publish | checkProgress | wake | notify | suspend | resume | askToStop | interrupt | markStopped
  | service => exact ⟨l, h.quiet (quiet_after b trivial permitted)⟩
  | put wall op =>
    obtain ⟨clock, small, spares⟩ := permitted
    obtain ⟨l', follows, read, records⟩ := h.follows.put_cases clock small
    have put : p.after b (.put wall op) = _ := p.putSection_fst wall op
    rw [put] at folder ⊢
    rcases records with same | ⟨version, more⟩
    · exact ⟨l', h.kept follows folder rfl rfl read same⟩
    · refine ⟨l', h.stored follows folder rfl rfl read more fun r mem => ?_⟩
      obtain rfl := List.mem_singleton.1 mem
      exact Operation.spares_cut.2 spares
  | start now =>
    show ∃ l', (p.start now).Ahead l'
    unfold start
    split
    · have nothing : ∀ r ∈ (none : Option Queued), r ∈ l.given :=
        fun r mem => absurd mem (Option.not_mem_none r)
      exact ⟨l, h.follows, h.blocks, h.spares, nothing, trivial, nofun⟩
    · exact ⟨l, h⟩
  | flush => exact ⟨l, h.kept ⟨h.follows.holds.flush.1, h.follows.dated, h.follows.whole⟩ folder rfl rfl rfl rfl⟩
  | close => exact ⟨_, h.close⟩
  | cleanUp =>
    refine ⟨{ l with isOpen := false }, ?_⟩
    rcases cleanUp_cases p with same | same
    · show p.cleanUp.1.Ahead _
      rw [same]
      exact h.close
    · show p.cleanUp.1.Ahead _
      rw [same]
      rcases removeIfEmpty_cases p.close.disk p.close.queue with kept | ⟨empty, -⟩
      · rw [kept]
        exact h.close
      · have behind := h.close.follows.lastAck_lt h.close.blocks
        exact absurd empty (Nat.ne_of_gt behind)
  | disk d => exact ⟨l, h.kept ⟨h.follows.holds.spares permitted, h.follows.dated, h.follows.whole⟩ rfl rfl rfl rfl rfl⟩

/-! ## Sections of the consumer -/

variable {b : Backend σ}

theorem Ahead.goTo (h : p.Ahead l) (started : p.control.status ≠ .idle) {ph : Phase}
    (carried : ph.Carries l) : (p.goTo ph).Ahead l :=
  h.frame rfl rfl rfl carried fun idle => absurd idle started

theorem Ahead.retry (h : p.Ahead l) (started : p.control.status ≠ .idle) (next : Nat → Attempt)
    (carried : ∀ deadline n, (Phase.backingOff deadline (next n)).Carries l) (now retries : Nat) :
    (p.retry now retries next).Ahead l := by
  unfold Background.retry
  split
  · exact h.goTo started trivial
  · exact h.frame rfl rfl rfl (carried _ _) fun idle => absurd idle started

/-- The consumer collects a batch, or comes to the operation. -/
theorem Ahead.collectSection (h : p.Ahead l) (started : p.control.status ≠ .idle) {retries : Nat}
    (hp : p.consumer.phase = .collecting retries) (now : Nat) :
    (p.collectSection b now retries).Blocked := by
  have folder : (p.collectNext b).source.queue.folder = p.queue.folder :=
    folder_collectFrom b _ _ _ _ _ _
  have gives := StoredQueue.queueSource_gives l h.blocks
  have given : StoredQueue.Given l ⟨p.disk, p.queue⟩ l.given := ⟨l.read, h.follows, rfl⟩
  have called : collectFrom queueSource b p.settings.limits _ .empty p.consumer.stash
      ⟨p.disk, p.queue⟩ p.backend = p.collectNext b := rfl
  rcases collectFrom_gives gives b _ _ Collecting.covers_empty given
      (fun _ mem => absurd mem List.not_mem_nil) h.stash called with
    ⟨behind, e, failed⟩ | ⟨rs, ⟨n, follows, rfl⟩, stash, batches⟩
  · unfold Background.collectSection
    dsimp only
    rw [failed]
    exact .atEnd (.inl rfl) started behind
  · have collected : (p.withCollected (p.collectNext b)).Ahead { l with read := n } := by
      refine ⟨follows, h.blocks, ?_, stash, ?_, fun idle => absurd idle started⟩
      · show ∀ r ∈ l.records, r.obj.Spares (p.collectNext b).source.queue.folder
        rw [folder]
        exact h.spares
      · show p.consumer.phase.Carries _
        rw [hp]
        trivial
    unfold Background.collectSection takeUp
    dsimp only
    generalize (p.collectNext b).result = result at batches ⊢
    rcases result with e | _ | batch
    · cases e with
      | backend e =>
        dsimp only
        split
        · exact .ahead (collected.retry started .collect (fun _ _ => trivial) now retries)
        · exact .ahead (collected.goTo started trivial)
      | _ => exact .ahead (collected.goTo started trivial)
    · exact .ahead (collected.goTo started trivial)
    · have carried := batches batch rfl
      dsimp only
      split
      · exact .ahead (collected.goTo started (follows.version_le carried))
      · exact .ahead (collected.goTo started carried)

/-- The service answers to a batch. -/
theorem Ahead.answerSection (h : p.Ahead l) (started : p.control.status ≠ .idle) {batch : Batch}
    {retries deadline : Nat} (hp : p.consumer.phase = .awaiting batch retries deadline) (now : Nat) :
    (p.answerSection b now batch retries).Ahead l := by
  have carried : batch.From l.given := by
    have carried := h.carried
    rw [hp] at carried
    exact carried
  have known := h.follows.version_le carried
  unfold Background.answerSection
  split
  · next s receipt _ =>
    have spares : p.disk.Spares (p.disk.removeUploaded batch.bundle) p.queue.folder := by
      refine p.disk.spares_removeUploaded fun op mem => ?_
      obtain ⟨run, covers, inside⟩ := carried
      obtain ⟨r, inRun, rfl⟩ := covers.uploads op mem
      obtain ⟨record, read, rfl⟩ := List.mem_map.1 (inside r inRun)
      exact h.spares record (List.mem_of_mem_take read)
    have removed : Ahead { p with backend := s, disk := p.disk.removeUploaded batch.bundle } l :=
      h.kept ⟨h.follows.holds.spares spares, h.follows.dated, h.follows.whole⟩ rfl rfl rfl rfl rfl
    exact removed.goTo started known
  · next s e _ =>
    have answered : Ahead { p with backend := s } l :=
      h.frame rfl rfl rfl h.carried h.idle
    split
    · exact answered.retry started (.send batch) (fun _ _ => carried) now retries
    · exact answered.goTo started known

/-- A batch is acknowledged, all of which was read. -/
theorem Ahead.ackSection (h : p.Ahead l) (started : p.control.status ≠ .idle) {batch : Batch}
    (hp : p.consumer.phase = .acknowledging batch) : ∃ l', (p.ackSection batch).Ahead l' := by
  have known := h.carried
  rw [hp] at known
  obtain ⟨d', q', acked, holds, folder⟩ := h.follows.holds.ack known
  refine ⟨{ l with acked := max batch.version l.acked }, ?_⟩
  unfold Background.ackSection
  rw [show p.queue.ack p.disk batch.version = _ from acked]
  have stored : Ahead { p with disk := d', queue := q' } { l with acked := max batch.version l.acked } :=
    h.kept ⟨holds, h.follows.dated, h.follows.whole⟩ folder rfl rfl rfl rfl
  exact stored.goTo started trivial

theorem Ahead.wakeSection (h : p.Ahead l) (started : p.control.status ≠ .idle) : p.wakeSection.Ahead l := by
  unfold Background.wakeSection
  dsimp only
  split <;> exact h.frame rfl rfl rfl trivial fun idle => absurd idle started

/-- **A section of the consumer.** -/
theorem Ahead.step (h : p.Ahead l) (now : Nat) : (p.step b now).Blocked := by
  have started (present : p.consumer.phase ≠ .absent) : p.control.status ≠ .idle :=
    fun idle => present (h.idle idle)
  unfold Background.step
  cases p.readiness now with
  | waits _ | gone => exact .ahead h
  | ready =>
    cases hp : p.consumer.phase with
    | absent | ended => exact .ahead h
    | collecting retries => exact h.collectSection (started (by rw [hp]; exact nofun)) hp now
    | awaiting batch retries deadline =>
      exact .ahead (h.answerSection (started (by rw [hp]; exact nofun)) hp now)
    | acknowledging batch =>
      obtain ⟨l', acked⟩ := h.ackSection (started (by rw [hp]; exact nofun)) hp
      exact .ahead acked
    | sending batch retries =>
      have carried := h.carried
      rw [hp] at carried
      refine .ahead (h.frame rfl rfl rfl carried ?_)
      · exact fun idle => absurd idle (started (by rw [hp]; exact nofun))
    | starting =>
      show ((p.flushIfDue now).goTo (.checking 0)).Blocked
      have busy := started (by rw [hp]; exact nofun)
      unfold flushIfDue
      split
      · have flushed : Ahead { p.flush with consumer := { p.consumer with lastFlush := now } } l :=
          ⟨⟨h.follows.holds.flush.1, h.follows.dated, h.follows.whole⟩, h.blocks,
            (h.follows.holds.flush.2 : _ = p.queue.folder) ▸ h.spares, h.stash, h.carried, h.idle⟩
        exact .ahead (flushed.goTo busy trivial)
      · exact .ahead (h.goTo busy trivial)
    | checking retries =>
      show (p.check retries).Blocked
      have busy := started (by rw [hp]; exact nofun)
      unfold check
      split
      · exact .ahead (h.goTo busy trivial)
      · split <;> exact .ahead (h.goTo busy trivial)
    | publishing version =>
      have busy := started (by rw [hp]; exact nofun)
      exact .ahead (h.frame rfl rfl rfl trivial fun idle => absurd idle busy)
    | backingOff deadline next =>
      show (if _ then p.goTo .ending else p.goToAttempt next).Blocked
      have busy := started (by rw [hp]; exact nofun)
      split
      · exact .ahead (h.goTo busy trivial)
      · cases next with
        | collect retries => exact .ahead (h.goTo busy trivial)
        | send batch retries =>
          have carried := h.carried
          rw [hp] at carried
          exact .ahead (h.goTo busy carried)
    | resting =>
      show (p.restSection now).Blocked
      have busy := started (by rw [hp]; exact nofun)
      unfold restSection
      split
      · exact .ahead (h.goTo busy trivial)
      · split
        · exact .ahead (h.wakeSection busy)
        · exact .ahead (h.goTo busy trivial)
    | sleeping => exact .ahead (h.wakeSection (started (by rw [hp]; exact nofun)))
    | ending => exact .ahead (h.frame rfl rfl rfl trivial nofun)

/-! ## Any section -/

/-- **A section leaves delivery blocked**, whatever it is. -/
theorem Blocked.after (h : p.Blocked) (b : Backend σ) {s : Section σ} (permitted : p.Permits s) :
    (p.after b s).Blocked := by
  cases h with
  | ahead h =>
    by_cases consumer : ∃ now, s = .consumer now
    · obtain ⟨now, rfl⟩ := consumer
      exact h.step now
    · obtain ⟨l', ahead⟩ := h.beside b (fun now same => consumer ⟨now, same⟩) permitted
      exact .ahead ahead
  | atEnd phase started behind =>
    have of_quiet {p' : Background σ} (quiet : p.Quiet p') : p'.Blocked := by
      refine .atEnd ?_ (quiet.ne_idle started) (quiet.queue ▸ behind)
      rw [quiet.ends phase]
      exact phase
    -- sections that leave the consumer and the control words alone
    have of_queue {p' : Background σ} (control : p'.control = p.control)
        (consumer : p'.consumer = p.consumer) (behind' : p'.queue.lastAck < p'.queue.lastPut) :
        p'.Blocked :=
      .atEnd (consumer ▸ phase) (control ▸ started) behind'
    have closed : p.close.queue.lastAck < p.close.queue.lastPut := by
      obtain ⟨writer, same, -⟩ := Queue.flush_eq p.disk p.queue
      show (p.queue.flush p.disk).2.lastAck < (p.queue.flush p.disk).2.lastPut
      rw [same]
      exact behind
    cases s with
    | publish | checkProgress | wake | notify | suspend | resume | askToStop | interrupt | markStopped
    | service => exact of_quiet (quiet_after b trivial permitted)
    | put wall op =>
      obtain ⟨segments, writer, lastPut, one, same⟩ := Queue.put_eq p.disk p.queue wall op
      have behind' : p.queue.lastAck < lastPut := by omega
      show (p.putSection wall op).1.Blocked
      rw [putSection_fst, same]
      exact of_queue rfl rfl behind'
    | start now =>
      show (p.start now).Blocked
      unfold start
      rw [if_neg started]
      exact of_queue rfl rfl behind
    | flush => exact of_queue rfl rfl closed
    | close => exact of_queue rfl rfl closed
    | cleanUp =>
      show p.cleanUp.1.Blocked
      rcases cleanUp_cases p with same | same
      · rw [same]
        exact of_queue rfl rfl closed
      · rw [same]
        rcases removeIfEmpty_cases p.close.disk p.close.queue with kept | ⟨empty, -⟩
        · rw [kept]
          exact of_queue rfl rfl closed
        · exact absurd empty (Nat.ne_of_gt closed)
    | disk d => exact of_queue rfl rfl behind
    | consumer now =>
      show (p.step b now).Blocked
      rcases phase with phase | phase
      · have ends : p.step b now =
            (p.withControl fun c => { c with status := .stopped }).goTo .ended := by
          simp only [Background.step, readiness, phase]
        rw [ends]
        exact .atEnd (.inr rfl) nofun behind
      · have rests : p.step b now = p := by
          simp only [Background.step, readiness, phase]
        rw [rests]
        exact of_queue rfl rfl behind

/-- **Nothing that cannot be decoded is acknowledged, nor anything behind it**, however many sections
there are. -/
theorem Blocked.run (h : p.Blocked) {sections : List (Section σ)} (permitted : p.PermitsAll b sections) :
    (p.run b sections).Blocked := by
  induction sections generalizing p with
  | nil => exact h
  | cons s sections ih => exact ih (h.after b permitted.1) permitted.2

/-! ## Putting anything -/

variable {shipments : List Shipment} {flight : List Queued}

/-- An operation that cannot be decoded is ahead of the consumer when it is put. -/
theorem InOrder.aheadOf (h : p.InOrder l shipments flight) {wall version : Nat} {op : Operation}
    (undated : ¬ op.mutation.Dated) (spares : op.Spares p.queue.folder) {d : Disk} {q : Queue}
    (follows : StoredQueue.Follows ⟨d, q⟩ { l with records := l.records ++ [⟨op.cut, version, wall⟩] })
    (folder : q.folder = p.queue.folder) :
    Ahead { p with disk := d, queue := q } { l with records := l.records ++ [⟨op.cut, version, wall⟩] } := by
  have keeps := h.keeps
  have given : ListQueue.given { l with records := l.records ++ [⟨op.cut, version, wall⟩] } =
      delivered shipments ++ (flight ++ p.consumer.stash.toList) := by
    have read := keeps.read_eq
    show ((l.records ++ _).take l.read).map queued = _
    rw [List.take_append_of_le_length keeps.read_le, List.map_take, keeps.records, ← List.append_assoc,
      ← List.append_assoc, List.take_left']
    · exact List.append_assoc ..
    · simp only [List.length_append]
      exact read
  have fromFlight {batch : Batch} (covers : batch.Covers flight) : batch.From
      (ListQueue.given { l with records := l.records ++ [⟨op.cut, version, wall⟩] }) := by
    refine ⟨flight, covers, fun r mem => ?_⟩
    rw [given]
    exact List.mem_append_right _ (List.mem_append_left _ mem)
  have blocks : ¬ op.cut.mutation.Dated := fun dated => undated (Mutation.dated_cut.1 dated)
  refine ⟨follows, ⟨_, List.mem_append_right _ List.mem_cons_self, blocks⟩, ?_, ?_, ?_, ?_⟩
  · show ∀ r ∈ l.records ++ [_], r.obj.Spares q.folder
    rw [folder]
    intro r mem
    rcases List.mem_append.1 mem with old | new
    · exact keeps.spares r old
    · obtain rfl := List.mem_singleton.1 new
      exact Operation.spares_cut.2 spares
  · intro r mem
    rw [given]
    refine List.mem_append_right _ (List.mem_append_right _ ?_)
    exact Option.mem_toList.2 mem
  · have fits := h.phase
    show p.consumer.phase.Carries _
    generalize p.consumer.phase = ph at fits
    unfold Phase.Carries
    split
    · exact fromFlight fits.1
    · exact fromFlight fits.1
    · exact fromFlight fits.1
    · next batch =>
      obtain ⟨-, known, -⟩ := fits
      have read := keeps.read_eq
      show batch.version ≤ l.read
      omega
    · trivial
  · intro idle
    have lives := h.lives
    rw [show p.control.status = .idle from idle] at lives
    exact lives.absent

/-- Any operation is put behind the others or refused, and blocks delivery if it cannot be decoded. -/
theorem InOrder.put_permitted (h : p.InOrder l shipments flight) {wall : Nat} {op : Operation}
    (permitted : p.Permits (.put wall op)) :
    (p.putSection wall op).1.Blocked ∨
      ∃ l', (p.putSection wall op).1.InOrder l' shipments flight ∧
        l'.records = l.records ++ (p.stored? (.put wall op)).toList := by
  obtain ⟨clock, small, spares⟩ := permitted
  -- what is stored goes its way
  have durably
      (durable : p.queue.writer.isSome = true → Record.Durable ⟨op.cut, p.queue.lastPut + 1, wall⟩) :
      ∃ l', (p.putSection wall op).1.InOrder l' shipments flight ∧
        l'.records = l.records ++ (p.stored? (.put wall op)).toList := by
    obtain ⟨l', inOrder, records, -⟩ := h.put durable spares
    exact ⟨l', inOrder, records⟩
  by_cases writer : p.queue.writer.isSome = true
  · cases hstores : h.keeps.stores with
    | removed _ closed =>
      rw [closed] at writer
      cases writer
    | held holds =>
      have isOpen : l.isOpen = true := holds.isOpen.symm.trans writer
      have lastPut := h.keeps.stores.lastPut
      by_cases fits : (Record.payload ⟨op, p.queue.lastPut + 1, wall⟩).length < UInt32.size
      · rcases Classical.em op.mutation.Dated with dated | undated
        · refine .inr (durably fun _ => ?_)
          exact Record.durable_cut (r := ⟨op, p.queue.lastPut + 1, wall⟩) dated small clock fits
        · refine .inl ?_
          rw [lastPut] at small fits
          obtain ⟨d', q', put, follows⟩ := holds.follows.put_fits isOpen clock small fits
          replace put : p.queue.put p.disk wall op = _ := put
          have folder := Queue.folder_put p.disk p.queue wall op
          rw [put] at folder
          rw [putSection, put]
          exact .ahead (h.aheadOf undated spares follows folder)
      · obtain ⟨d', q', e, put, holds', folder⟩ := holds.put_large isOpen (lastPut ▸ small)
          (Nat.le_of_not_lt (lastPut ▸ fits))
        replace put : p.queue.put p.disk wall op = _ := put
        have done : p.putSection wall op = ({ p with disk := d', queue := q' }, .error (.queue e)) := by
          rw [putSection, put]
        rw [stored?, done]
        refine .inr ⟨l, h.kept (.held holds') folder rfl rfl rfl rfl rfl, (List.append_nil _).symm⟩
  · exact .inr (durably fun is_open => absurd is_open writer)

/-- **Only the consumer delivers**, whatever is put, or delivery is blocked. -/
theorem InOrder.permitted (h : p.InOrder l shipments flight) (b : Backend σ) {s : Section σ}
    (other : ∀ now, s ≠ .consumer now) (permitted : p.Permits s) : (p.after b s).Blocked ∨
      ∃ l', (p.after b s).InOrder l' shipments flight ∧
        l'.records = l.records ++ (p.stored? s).toList := by
  cases s with
  | put wall op => exact h.put_permitted permitted
  | _ =>
    obtain ⟨l', inOrder, records, -⟩ := h.undisturbed b other permitted
    exact .inr ⟨l', inOrder, records⟩

end Background

end Outbox
