import Mathlib.Data.List.Basic
import Outbox.Proofs.Queue.Recovery

/-!
# What is ahead of a queue

In any segment a reader finds whole records, and behind them the end or a frame that was cut. So it is known what
a queue gives until it is drained: the records of one segment after the other, and an error where a cut is
noticed. Nothing is put in the meantime.

* `Queue.Stretch` is what is left to be read of a segment, and `Stretch.given` what a reader gives of it;
* `Stretch.Ahead.sought` is what it comes to first;
* `Queue.Faces` says what is ahead of a queue, `Faces.gives_getThrough` is one get, and
  `Faces.answers_replicate` are several;
* `Settled.faces` is what is ahead of a queue that was just opened.
-/

namespace Outbox

namespace Frame

/-- These bytes are the head of a frame, and not the whole of it. -/
def Begun (bytes : List UInt8) : Prop :=
  ∃ payload : List UInt8, payload.length < UInt32.size ∧ bytes <+: write payload ∧ bytes.length < size payload

theorem begun_nil : Begun [] :=
  ⟨[], by decide, List.nil_prefix, Nat.zero_lt_succ _⟩

end Frame

variable {α : Type} [Storable α]

namespace Queue

/-- The answer that gives a record. -/
def giving (r : Record α) : Answer α :=
  .element (some (ListQueue.element r))

/-! ## One segment -/

/-- What is left to be read of a segment: records, and behind them what is left of a frame that was cut. -/
structure Stretch (α : Type) where
  id : Nat
  records : List (Record α)
  rest : List UInt8
  /-- Where the records end in the segment. -/
  ends : Nat

namespace Stretch

/-- A segment from its beginning. -/
def whole (id : Nat) (records : List (Record α)) (rest : List UInt8) : Stretch α :=
  ⟨id, records, rest, (framed records).length⟩

/-- What a reader gives where records end: nothing if it takes what is there for the end of the segment. -/
def fault (s : Stretch α) : List (Answer α) :=
  if s.rest.length < 4 then [] else [.failed (.badFrame (segmentName s.id) s.ends .truncated)]

/-- What a reader gives of a segment: the records above a version, and an error if it notices the cut. -/
def given (above : Nat) (s : Stretch α) : List (Answer α) :=
  (s.records.filter (above < ·.version)).map giving ++ s.fault

/-- The records can be read, and no whole frame is behind them. -/
structure Sound (s : Stretch α) : Prop where
  durable : ∀ r ∈ s.records, r.Durable
  begun : Frame.Begun s.rest

/-- A reader has a stretch of its segment ahead. -/
structure Ahead (d : Disk) (r : SegmentReader) (s : Stretch α) : Prop where
  id : r.id = s.id
  bytes : ∃ file, r.file = some file ∧ (r.window d file).bytes = framed s.records ++ s.rest
  ends : r.offset + (framed s.records).length = s.ends

/-- The stretch when all of it was read. -/
def done (s : Stretch α) : Stretch α :=
  { s with records := [], rest := [] }

theorem sound_done (s : Stretch α) : s.done.Sound :=
  ⟨by simp [done], Frame.begun_nil⟩

/-- What a reader comes to in a segment. -/
inductive Sought (d : Disk) (above : Nat) (s : Stretch α) (r : SegmentReader) : Reached α → Prop
  | record {passed tail : List (Record α)} {record : Record α} : s.records = passed ++ record :: tail →
      (∀ p ∈ passed, p.version ≤ above) → above < record.version → Ahead d r { s with records := tail } →
      Sought d above s r (.record record (Frame.size record.payload))
  | finished : s.given above = [] → Ahead d r s.done → Sought d above s r .finished
  | failed {e : QueueError} : s.given above = [.failed e] → Ahead d r s.done → Sought d above s r (.failed e)

variable {d : Disk} {r : SegmentReader} {s : Stretch α} {above : Nat}

/-- **A reader comes to the first record above a version**, or else to the end of the records. -/
theorem Ahead.sought (h : Ahead d r s) (sound : s.Sound) (above : Nat) :
    ∃ r' reached, r.seek d above = (r', reached) ∧ Sought d above s r' reached := by
  obtain ⟨file, isFile, bytes⟩ := h.bytes
  have seek : r.seek (α := α) d above = r.seekIn above (r.window d file) := by
    rw [SegmentReader.seek, isFile]
  have ends := h.ends
  -- the records in front of the first one above the version are passed, or all of them if there is none
  cases found : s.records.find? (above < ·.version) with
  | some record =>
    obtain ⟨fresh, passed, tail, parts, before⟩ := List.find?_eq_some_iff_append.1 found
    have fresh : above < record.version := by simpa using fresh
    have old : ∀ p ∈ passed, p.version ≤ above := by simpa using before
    have durable : ∀ p ∈ passed ++ record :: tail, p.Durable := parts ▸ sound.durable
    rw [parts, framed_append, List.append_assoc] at bytes
    obtain ⟨r₁, w₁, passes, bytes₁, of₁, id₁, file₁, offset₁⟩ := SegmentReader.seekIn_passed
      (fun p member => ⟨durable p (List.mem_append_left _ member), old p member⟩) bytes r
    have sure := durable record (List.mem_append_right _ List.mem_cons_self)
    have frame : Frame.next w₁.bytes = (.payload record.payload, framed tail ++ s.rest) := by
      rw [bytes₁]
      exact next_framed sure.fits tail s.rest
    refine ⟨r₁.advance w₁.skipFrame (Frame.size record.payload), _, ?_, .record parts old fresh ⟨id₁.trans h.id,
      ⟨file, file₁.trans isFile, ?_⟩, ?_⟩⟩
    · rw [seek, passes, SegmentReader.seekIn_payload frame sure.reads, if_neg (Nat.not_le_of_lt fresh)]
    · rw [SegmentReader.window_advance (of₁ _ rfl).skipFrame, Window.bytes_skipFrame, frame]
    · rw [parts, framed_append, framed_cons, List.length_append, List.length_append, Frame.length_write] at ends
      show r₁.offset + Frame.size record.payload + _ = _
      rw [offset₁]
      simp only
      omega
  | none =>
    have old : ∀ p ∈ s.records, p.version ≤ above := by simpa using found
    have nothing : s.records.filter (above < ·.version) = [] := by simpa using old
    obtain ⟨r₁, w₁, passes, bytes₁, of₁, id₁, file₁, offset₁⟩ := SegmentReader.seekIn_passed
      (fun p member => ⟨sound.durable p member, old p member⟩) bytes r
    -- what is behind the records is used up, whether it is noticed or not
    obtain ⟨payload, fits, head, short⟩ := sound.begun
    have frame : Frame.next w₁.bytes =
        (if s.rest.length < 4 then .finished else .broken .truncated, []) := by
      rw [bytes₁, Frame.next_cut fits head short]
    have ahead : Ahead d (r₁.advance w₁.skipFrame 0) s.done := by
      refine ⟨id₁.trans h.id, ⟨file, file₁.trans isFile, ?_⟩, (Nat.add_zero _).trans ?_⟩
      · rw [SegmentReader.window_advance (of₁ _ rfl).skipFrame, Window.bytes_skipFrame, frame]
        rfl
      · show r₁.offset + 0 = s.ends
        rw [offset₁, ← ends, Nat.add_zero]
    by_cases few : s.rest.length < 4
    · rw [if_pos few] at frame
      refine ⟨_, .finished, ?_, .finished ?_ ahead⟩
      · rw [seek, passes, SegmentReader.seekIn_finished frame]
      · rw [given, nothing, fault, if_pos few]
        rfl
    · rw [if_neg few] at frame
      refine ⟨_, .failed (.badFrame (segmentName s.id) s.ends .truncated), ?_, .failed ?_ ahead⟩
      · rw [seek, passes, SegmentReader.seekIn_broken frame, id₁, h.id, offset₁, ends]
      · rw [given, nothing, fault, if_neg few]
        rfl

end Stretch

/-! ## One segment after the other -/

/-- What is ahead of a queue that holds nothing back: a stretch of the segment that is being read, and later
segments. -/
structure Faces (d : Disk) (q : Queue) (s : Stretch α) (later : List (Stretch α)) : Prop where
  nothing : ∀ w, q.writer = some w → w.buffer = []
  reader : ∃ r, q.currentReader d = .ok r ∧ s.Ahead d r
  laterIds : q.laterIds = later.map Stretch.id
  ordered : (q.segments.map Prod.fst).Pairwise (· < ·)
  stored : ∀ t ∈ later, t.ends = (framed t.records).length ∧
    d.content? (q.folder ++ [segmentName t.id]) = some (framed t.records ++ t.rest)
  sound : ∀ t ∈ s :: later, t.Sound
  versions : ((s :: later).flatMap Stretch.records).Pairwise (·.version < ·.version)

/-- What a queue gives of stretches in turn. -/
def outlook (above : Nat) (stretches : List (Stretch α)) : List (Answer α) :=
  stretches.flatMap (Stretch.given above)

theorem outlook_cons (above : Nat) (s : Stretch α) (later : List (Stretch α)) :
    outlook above (s :: later) = s.given above ++ outlook above later :=
  rfl

/-- A version does not matter that is less than those of all records. -/
theorem outlook_of_lt {above above' : Nat} {stretches : List (Stretch α)}
    (fresh : ∀ t ∈ stretches, ∀ r ∈ t.records, above < r.version ∧ above' < r.version) :
    outlook above stretches = outlook above' stretches := by
  refine List.flatMap_congr fun t member => ?_
  have same : t.records.filter (above < ·.version) = t.records.filter (above' < ·.version) :=
    List.filter_congr fun r inside => by simp [fresh t member r inside]
  rw [Stretch.given, Stretch.given, same]

variable {d : Disk} {q : Queue} {s : Stretch α} {later : List (Stretch α)}

/-- The reader has moved on in its segment. -/
theorem Faces.advance (h : q.Faces d s later) {r : SegmentReader} {s' : Stretch α} (ahead : s'.Ahead d r)
    (sound : s'.Sound) (left : s'.records.Sublist s.records) (lastRead : Nat) :
    Faces d { q with reader := some r, lastRead } s' later where
  nothing := h.nothing
  reader := ⟨r, rfl, ahead⟩
  laterIds := h.laterIds
  ordered := h.ordered
  stored := h.stored
  sound := List.forall_mem_cons.2 ⟨sound, fun t member => h.sound t (List.mem_cons_of_mem _ member)⟩
  versions := by
    refine h.versions.sublist ?_
    rw [List.flatMap_cons, List.flatMap_cons]
    exact left.append (List.Sublist.refl _)

/-- The reader goes on to the next segment. -/
theorem Faces.goOn {next : Stretch α} (h : q.Faces d s (next :: later)) :
    Faces d { q with reader := none, readId := next.id } next later where
  nothing := h.nothing
  reader := by
    obtain ⟨ends, content⟩ := h.stored next List.mem_cons_self
    obtain ⟨file, found, read⟩ := Disk.content?_eq_some_iff.1 content
    refine ⟨⟨next.id, some file, 0, [], 0⟩, ?_, rfl, ⟨file, rfl, read⟩, (Nat.zero_add _).trans ends.symm⟩
    simp only [currentReader, SegmentReader.openAt, found]
  laterIds := filter_of_filter_eq_cons h.ordered h.laterIds
  ordered := h.ordered
  stored t member := h.stored t (List.mem_cons_of_mem _ member)
  sound t member := h.sound t (List.mem_cons_of_mem _ member)
  versions := by
    have versions := h.versions
    rw [List.flatMap_cons, List.pairwise_append] at versions
    exact versions.2.1

/-- A queue gives the first of what is to be given, or no record if there is nothing. -/
def Gives (d : Disk) (q q' : Queue) (stretches : List (Stretch α))
    (result : Except QueueError (Option (Element α))) : Prop :=
  Answer.of .element result = (outlook q.lastRead stretches).headD (.element none) ∧
    ∃ s' later', q'.Faces d s' later' ∧
      outlook q'.lastRead (s' :: later') = (outlook q.lastRead stretches).tail

/-- Where the reader comes to a record, later segments do not matter. -/
theorem Faces.gives_record (h : q.Faces d s later) {r : SegmentReader} {record : Record α} {size : Nat}
    (sought : s.Sought d q.lastRead r (.record record size)) :
    Gives d q { q with reader := some r, lastRead := record.version } (s :: later)
      (.ok (some ⟨record, size⟩)) := by
  cases sought with
  | @record passed tail _ parts old fresh ahead =>
    have durable := (h.sound s List.mem_cons_self).durable
    have begun := (h.sound s List.mem_cons_self).begun
    have versions := h.versions
    have none_passed : passed.filter (q.lastRead < ·.version) = [] := by simpa using old
    rw [List.flatMap_cons, parts, List.append_assoc, List.cons_append] at versions
    have above := (List.pairwise_cons.1 (List.pairwise_append.1 versions).2.1).1
    -- the record that was read is older than all that are still ahead
    have same : outlook q.lastRead ({ s with records := tail } :: later) =
        outlook record.version ({ s with records := tail } :: later) := by
      refine outlook_of_lt fun t member x inside => ?_
      have greater : record.version < x.version := by
        refine above x (List.mem_append.2 ?_)
        rcases List.mem_cons.1 member with rfl | behind
        · exact .inl inside
        · exact .inr (List.mem_flatMap.2 ⟨t, behind, inside⟩)
      exact ⟨Nat.lt_trans fresh greater, greater⟩
    have first : outlook q.lastRead (s :: later) = .element (some (ListQueue.element record)) ::
        outlook q.lastRead ({ s with records := tail } :: later) := by
      rw [outlook_cons, outlook_cons, Stretch.given, parts, List.filter_append, none_passed, List.nil_append,
        List.filter_cons_of_pos (by simpa using fresh)]
      rfl
    refine ⟨by rw [first]; rfl, { s with records := tail }, later, h.advance ahead ⟨fun x inside => ?_, begun⟩
      ?_ _, by rw [first, List.tail_cons, same]⟩
    · exact durable x (parts ▸ List.mem_append_right _ (List.mem_cons_of_mem _ inside))
    · rw [parts]
      exact (List.sublist_cons_self ..).trans (List.sublist_append_right ..)

/-- Where the reader comes to a cut and notices it, later segments do not matter either. -/
theorem Faces.gives_failed (h : q.Faces d s later) {r : SegmentReader} {e : QueueError}
    (sought : s.Sought d q.lastRead r (.failed e)) :
    Gives d q { q with reader := some r } (s :: later) (.error e) := by
  cases sought with
  | failed given ahead =>
    rw [Gives, outlook_cons, given]
    exact ⟨rfl, s.done, later, h.advance ahead s.sound_done (List.nil_sublist _) _, rfl⟩

/-- **Getting gives the first answer** of what is ahead of a queue, and the others are ahead of it then. -/
theorem Faces.gives_getThrough (h : q.Faces d s later) :
    ∃ q' result, q.getThrough (α := α) d (later.map Stretch.id) = (q', result) ∧
      Gives d q q' (s :: later) result := by
  induction later generalizing q s with
  | nil =>
    obtain ⟨r, current, ahead⟩ := h.reader
    obtain ⟨r', reached, seek, sought⟩ := ahead.sought (h.sound s List.mem_cons_self) q.lastRead
    rw [getThrough.eq_def]
    simp only [current, seek]
    cases reached with
    | record record size => exact ⟨_, _, rfl, h.gives_record sought⟩
    | failed e => exact ⟨_, _, rfl, h.gives_failed sought⟩
    | finished =>
      cases sought with
      | finished given ahead' =>
        refine ⟨_, _, rfl, ?_⟩
        rw [Gives, outlook_cons, given]
        exact ⟨rfl, s.done, [], h.advance ahead' s.sound_done (List.nil_sublist _) _, rfl⟩
  | cons next later ih =>
    obtain ⟨r, current, ahead⟩ := h.reader
    obtain ⟨r', reached, seek, sought⟩ := ahead.sought (h.sound s List.mem_cons_self) q.lastRead
    rw [getThrough.eq_def]
    simp only [current, seek]
    cases reached with
    | record record size => exact ⟨_, _, rfl, h.gives_record sought⟩
    | failed e => exact ⟨_, _, rfl, h.gives_failed sought⟩
    | finished =>
      cases sought with
      | finished given =>
        obtain ⟨q', result, through, gives⟩ := ih h.goOn
        refine ⟨q', result, through, ?_⟩
        rw [Gives, outlook_cons, given]
        exact gives

theorem Faces.flush (h : q.Faces d s later) : q.flush d = (d, q) := by
  cases open_ : q.writer with
  | none => simp only [Queue.flush, open_]
  | some w =>
    simp only [Queue.flush, open_, SegmentWriter.flush_of_empty (h.nothing w open_)]
    rw [← open_]

/-- **A queue gives what is ahead of it** one after the other, and no records from then on. -/
theorem Faces.answers_replicate (h : q.Faces d s later) (n : Nat) :
    StoredQueue.answers ⟨d, q⟩ (List.replicate n (.get : Call α)) =
      (List.range n).map fun i => (outlook q.lastRead (s :: later)).getD i (.element none) := by
  induction n generalizing q s later with
  | zero => rfl
  | succ n ih =>
    obtain ⟨q', result, through, answer, s', later', faces, rest⟩ := h.gives_getThrough
    have got : q.get (α := α) d = ⟨d, q', result⟩ := by
      simp only [get, h.flush, h.laterIds, through]
    rw [List.replicate_succ, List.range_succ_eq_map, List.map_cons, List.map_map, StoredQueue.answers]
    simp only [StoredQueue.call, StoredQueue.after, got, answer]
    rw [ih faces, rest]
    cases outlook q.lastRead (s :: later) <;> rfl

/-! ## A queue that was just opened -/

/-- **What is ahead of a queue that was just opened**: its segments from the one that it reads. -/
theorem Settled.faces {ids : List Nat} {w : SegmentWriter} {payloads : List (List UInt8)}
    (h : Settled d q ids w payloads) (listed : q.readId ∈ ids) {stretch : Nat → Stretch α}
    (whole : ∀ id, (stretch id).id = id ∧ (stretch id).ends = (framed (stretch id).records).length)
    (stored : ∀ id ∈ ids, d.content? (q.folder ++ [segmentName id]) =
      some (framed (stretch id).records ++ (stretch id).rest))
    (sound : ∀ id ∈ ids, (stretch id).Sound)
    (versions : (ids.flatMap fun id => (stretch id).records).Pairwise (·.version < ·.version)) :
    q.laterIds = ids.filter (q.readId < ·) ∧ q.Faces d (stretch q.readId) (q.laterIds.map stretch) := by
  have table : q.segments.map Prod.fst = ids := by
    rw [h.table, List.map_map]
    exact List.map_id ids
  have laterIds : q.laterIds = ids.filter (q.readId < ·) := by rw [Queue.laterIds, table]
  obtain ⟨front, parts⟩ := suffix_from h.ordered listed
  rw [← laterIds] at parts
  have inside {id : Nat} (member : id ∈ q.readId :: q.laterIds) : id ∈ ids := by
    rw [← parts]
    exact List.mem_append_right _ member
  refine ⟨laterIds, fun w' hw => ?_, ?_, ?_, table ▸ h.ordered, ?_, ?_, ?_⟩
  · obtain rfl := Option.some.inj (h.writer.symm.trans hw)
    exact h.atEnd.buffer
  · obtain ⟨file, found, read⟩ := Disk.content?_eq_some_iff.1 (stored q.readId listed)
    obtain ⟨same, ends⟩ := whole q.readId
    refine ⟨⟨q.readId, some file, 0, [], 0⟩, ?_, same.symm, ⟨file, rfl, read⟩,
      (Nat.zero_add _).trans ends.symm⟩
    simp only [currentReader, h.reader, SegmentReader.openAt, found]
  · rw [List.map_map]
    conv => lhs; rw [← List.map_id q.laterIds]
    exact List.map_congr_left fun id _ => (whole id).1.symm
  · rw [List.forall_mem_map]
    intro id member
    rw [(whole id).1]
    exact ⟨(whole id).2, stored id (inside (List.mem_cons_of_mem _ member))⟩
  · rw [List.forall_mem_cons, List.forall_mem_map]
    exact ⟨sound _ listed, fun id member => sound id (inside (List.mem_cons_of_mem _ member))⟩
  · rw [← parts, List.flatMap_append, List.flatMap_cons] at versions
    rw [List.flatMap_cons, List.flatMap_map]
    exact (List.pairwise_append.1 versions).2.1

end Queue

end Outbox
