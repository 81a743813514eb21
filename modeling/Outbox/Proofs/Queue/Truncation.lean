import Outbox.Proofs.Queue.Outlook
import Outbox.Proofs.Queue.Segmentation

/-!
# A segment that was cut

Something is cut off at the end of a segment behind which there are others. A reader that comes to the cut takes
it for the end of the segment if less than four bytes are left of the frame that was cut, and goes on in the
next segment: the records behind the cut are missing, and nothing tells. If more is left, one get fails, and the
next one goes on in the same way.

* `Filed.filter_between` and `flatMap_between` are about the records of segments in turn;
* `Queue.leftIn` is what is left in the segments, and `Queue.outlook_leftIn` what a reader gives of it;
* `Queue.openIn_cut` opens a queue after a segment was cut;
* `CutInside` is a cut inside a frame, and `Queue.drained` what is given then;
* `Queue.drain_cut` is the result, and `Queue.drain_misses_cut` a record that is missing.
-/

namespace Outbox

/-! ## Records in turn -/

/-- Where versions increase, the records above one are those behind it. -/
theorem filter_eq_dropWhile {α : Type} {rs : List (Record α)} (ordered : rs.Pairwise (·.version < ·.version))
    (above : Nat) : rs.filter (above < ·.version) = rs.dropWhile (·.version ≤ above) := by
  induction rs with
  | nil => rfl
  | cons r rs ih =>
    obtain ⟨greater, ordered⟩ := List.pairwise_cons.1 ordered
    by_cases fresh : above < r.version
    · rw [List.dropWhile_cons_of_neg (by simpa using fresh), List.filter_eq_self]
      intro x member
      rcases List.mem_cons.1 member with rfl | behind
      · simpa using fresh
      · simpa using Nat.lt_trans fresh (greater x behind)
    · rw [List.filter_cons_of_neg (by simpa using fresh),
        List.dropWhile_cons_of_pos (by simpa using fresh), ih ordered]

/-- Segments in turn hold everything up to the end of the last one. -/
theorem flatMap_between {β : Type} (items : List β) {ids : List Nat} {stop : Nat}
    (ordered : ids.Pairwise (· < ·)) (below : ∀ id ∈ ids, id ≤ stop) :
    (ids.flatMap fun id => between items id (endOf ids stop id)) = between items (ids.headD stop) stop := by
  induction ids with
  | nil => exact (between_eq_nil (Nat.le_refl _)).symm
  | cons id rest ih =>
    obtain ⟨greater, ordered'⟩ := List.pairwise_cons.1 ordered
    obtain ⟨below_first, below⟩ := List.forall_mem_cons.1 below
    have others : (rest.flatMap fun i => between items i (endOf (id :: rest) stop i)) =
        rest.flatMap fun i => between items i (endOf rest stop i) :=
      List.flatMap_congr fun i member => by rw [endOf_cons (Nat.le_of_lt (greater i member))]
    have first : id ≤ rest.headD stop := by
      cases rest with
      | nil => exact below_first
      | cons next rest => exact Nat.le_of_lt (greater next List.mem_cons_self)
    have last : rest.headD stop ≤ stop := by
      cases rest with
      | nil => exact Nat.le_refl _
      | cons next rest => exact below next List.mem_cons_self
    rw [List.flatMap_cons, endOf_first ordered, others, ih ordered' below, between_append first last,
      List.headD_cons]

variable {α : Type} [Storable α]

theorem Filed.pairwise {records : List (Record α)} (h : Filed records) :
    records.Pairwise (·.version < ·.version) := by
  refine List.pairwise_iff_getElem.2 fun i j hi hj less => ?_
  have := h.numbered (List.getElem?_eq_getElem hi)
  have := h.numbered (List.getElem?_eq_getElem hj)
  omega

/-- The records above a version. -/
theorem Filed.filter_between {records : List (Record α)} (h : Filed records) {a b : Nat} (one : 1 ≤ a)
    (top : b ≤ records.length + 1) (above : Nat) :
    (between records a b).filter (above < ·.version) = between records (max a (above + 1)) b := by
  have ordered : (between records a b).Pairwise (·.version < ·.version) :=
    h.pairwise.sublist ((List.drop_sublist _ _).trans (List.take_sublist _ _))
  rw [filter_eq_dropWhile ordered, h.dropWhile_between one top]

namespace Queue

/-! ## The cut -/

/-- What is left of a segment when something is cut off from one of them: of that one so many records, and
some bytes behind them. -/
def leftIn (ids : List Nat) (records : List (Record α)) (cut k : Nat) (rest : List UInt8) (id : Nat) :
    Stretch α :=
  if id = cut then .whole id ((recordsOf ids records id).take k) rest else .whole id (recordsOf ids records id) []

section Cut

variable {ids : List Nat} {records : List (Record α)} {cut k id : Nat} {rest : List UInt8}

theorem leftIn_self : leftIn ids records cut k rest cut = .whole cut ((recordsOf ids records cut).take k) rest :=
  if_pos rfl

theorem leftIn_other (other : id ≠ cut) :
    leftIn ids records cut k rest id = .whole id (recordsOf ids records id) [] :=
  if_neg other

theorem leftIn_sublist : (leftIn ids records cut k rest id).records.Sublist (recordsOf ids records id) := by
  unfold leftIn
  split
  · exact List.take_sublist _ _
  · exact List.Sublist.refl _

theorem sound_leftIn (durable : ∀ r ∈ records, r.Durable) (begun : Frame.Begun rest) :
    (leftIn ids records cut k rest id).Sound where
  durable r inside := durable r (mem_of_mem_between (leftIn_sublist.subset inside))
  begun := by
    unfold leftIn
    split
    · exact begun
    · exact Frame.begun_nil

/-- Versions increase through the segments. -/
theorem pairwise_leftIn (filed : Filed records) (ordered : ids.Pairwise (· < ·)) (one_le : ∀ id ∈ ids, 1 ≤ id)
    (le_top : ∀ id ∈ ids, id ≤ records.length + 1) :
    (ids.flatMap fun id => (leftIn ids records cut k rest id).records).Pairwise (·.version < ·.version) := by
  refine List.pairwise_flatMap.2 ⟨fun id listed => ?_, ordered.imp_of_mem fun {id id'} listed listed' less => ?_⟩
  · exact filed.pairwise.sublist
      (leftIn_sublist.trans ((List.drop_sublist _ _).trans (List.take_sublist _ _)))
  · intro r inside r' inside'
    have ends := endOf_le_later ordered listed' less (records.length + 1)
    have before := (filed.version_between (one_le id listed) (endOf_le le_top)
      (leftIn_sublist.subset inside)).2
    have behind := (filed.version_between (one_le id' listed') (endOf_le le_top)
      (leftIn_sublist.subset inside')).1
    omega

theorem leftIn_whole (id : Nat) : (leftIn ids records cut k rest id).id = id ∧
    (leftIn ids records cut k rest id).ends = (framed (leftIn ids records cut k rest id).records).length := by
  unfold leftIn
  split <;> exact ⟨rfl, rfl⟩

/-- Whole segments are given record by record. -/
theorem outlook_whole (above : Nat) {some_ids : List Nat} (others : ∀ id ∈ some_ids, id ≠ cut) :
    outlook above (some_ids.map (leftIn ids records cut k rest)) =
      ((some_ids.flatMap (recordsOf ids records)).filter (above < ·.version)).map giving := by
  rw [outlook, List.flatMap_map, List.filter_flatMap, List.map_flatMap]
  refine List.flatMap_congr fun id inside => ?_
  rw [leftIn_other (others id inside)]
  exact List.append_nil _

omit [Storable α] in
/-- The segments in front of one hold the records up to it. -/
theorem flatMap_recordsOf_before (ordered : ids.Pairwise (· < ·)) {before after : List Nat}
    (suffix : before ++ cut :: after <:+ ids) :
    before.flatMap (recordsOf ids records) = between records (before.headD cut) cut := by
  obtain ⟨ordered_before, -, less⟩ := List.pairwise_append.1 (ordered.sublist suffix.sublist)
  have less_cut (id : Nat) (inside : id ∈ before) : id < cut := less id inside cut List.mem_cons_self
  rw [← flatMap_between records ordered_before fun id inside => Nat.le_of_lt (less_cut id inside)]
  refine List.flatMap_congr fun id inside => ?_
  rw [recordsOf, ← endOf_suffix ordered suffix (List.mem_append_left _ inside),
    endOf_append (less_cut id inside)]

omit [Storable α] in
/-- The segments behind one hold the records from where it ends. -/
theorem flatMap_recordsOf_after (ordered : ids.Pairwise (· < ·)) (le_top : ∀ id ∈ ids, id ≤ records.length + 1)
    {after : List Nat} (suffix : cut :: after <:+ ids) :
    after.flatMap (recordsOf ids records) =
      between records (endOf ids (records.length + 1) cut) (records.length + 1) := by
  have ordered' := ordered.sublist suffix.sublist
  have ordered_after := (List.pairwise_cons.1 ordered').2
  have ends : endOf ids (records.length + 1) cut = after.headD (records.length + 1) := by
    rw [← endOf_suffix ordered suffix List.mem_cons_self, endOf_first ordered']
  rw [ends, ← flatMap_between records ordered_after fun id inside =>
    le_top id (suffix.subset (List.mem_cons_of_mem _ inside))]
  refine List.flatMap_congr fun id inside => ?_
  rw [recordsOf, endOf_suffix ordered ((List.suffix_cons cut after).trans suffix) inside]

/-- **What a queue gives when a segment was cut**: the records in front of the cut, the error if there is one,
and the records of the next segment and of those behind it. -/
theorem outlook_leftIn (filed : Filed records) (ordered : ids.Pairwise (· < ·)) (one_le : ∀ id ∈ ids, 1 ≤ id)
    (le_top : ∀ id ∈ ids, id ≤ records.length + 1) {acked first : Nat} (listed : first ∈ ids)
    (early : first ≤ acked + 1) (cut_listed : cut ∈ ids) (behind : first ≤ cut)
    (unread : acked + 1 < endOf ids (records.length + 1) cut)
    (inside : cut + k ≤ endOf ids (records.length + 1) cut) :
    outlook acked ((first :: ids.filter (first < ·)).map (leftIn ids records cut k rest)) =
      (between records (acked + 1) (cut + k)).map giving ++ (leftIn ids records cut k rest cut).fault ++
        (between records (endOf ids (records.length + 1) cut) (records.length + 1)).map giving := by
  have suffix := suffix_from ordered listed
  have member : cut ∈ first :: ids.filter (first < ·) := by
    rcases Nat.eq_or_lt_of_le behind with same | less
    · exact List.mem_cons.2 (.inl same.symm)
    · exact List.mem_cons_of_mem _ (List.mem_filter.2 ⟨cut_listed, by simpa using less⟩)
  obtain ⟨before, after, split⟩ := List.append_of_mem member
  rw [split] at suffix ⊢
  have starts : before.headD cut = first := by
    cases before <;> exact (List.cons.inj split).1.symm
  obtain ⟨-, ordered_cut, less⟩ := List.pairwise_append.1 (ordered.sublist suffix.sublist)
  have greater := (List.pairwise_cons.1 ordered_cut).1
  have in_front : outlook acked (before.map (leftIn ids records cut k rest)) =
      ((between records first cut).filter (acked < ·.version)).map giving := by
    rw [outlook_whole acked fun id inside => Nat.ne_of_lt (less id inside cut List.mem_cons_self),
      flatMap_recordsOf_before ordered suffix, starts]
  have here : (leftIn ids records cut k rest cut).given acked =
      ((between records cut (cut + k)).filter (acked < ·.version)).map giving ++
        (leftIn ids records cut k rest cut).fault := by
    have taken : (recordsOf ids records cut).take k = between records cut (cut + k) := by
      rw [recordsOf, ← take_between (one_le cut cut_listed) inside, Nat.add_sub_cancel_left]
    rw [leftIn_self, Stretch.given, Stretch.whole, taken]
  have behind_it : outlook acked (after.map (leftIn ids records cut k rest)) =
      ((between records (endOf ids (records.length + 1) cut) (records.length + 1)).filter
        (acked < ·.version)).map giving := by
    rw [outlook_whole acked fun id inside => Nat.ne_of_gt (greater id inside),
      flatMap_recordsOf_after ordered le_top ((List.suffix_append before _).trans suffix)]
  have last : endOf ids (records.length + 1) cut ≤ records.length + 1 := endOf_le le_top
  have joined : between records first cut ++ between records cut (cut + k) = between records first (cut + k) :=
    between_append behind (Nat.le_add_right cut k)
  rw [List.map_append, List.map_cons, outlook, List.flatMap_append, List.flatMap_cons, ← outlook, ← outlook,
    in_front, here, behind_it, List.append_assoc, List.append_assoc, ← List.append_assoc,
    ← List.map_append, ← List.filter_append, joined, filed.filter_between (one_le first listed) (by omega),
    filed.filter_between (by omega) (Nat.le_refl _), Nat.max_eq_right early, Nat.max_eq_left (by omega)]

end Cut

end Queue

/-! ## A folder in which a segment was cut -/

section Folder

variable {d : Disk} {folder : Place} {ids : List Nat} {records : List (Record α)} {acked : Nat}

theorem Remains.mem_iff (h : Remains d folder ids records acked) (id : Nat) :
    id ∈ ids ↔ HasSegment d folder id := by
  constructor
  · intro listed
    obtain ⟨file, -, found, -⟩ := h.stored id listed
    exact ⟨h.small id listed, file, found⟩
  · rintro ⟨small, file, found⟩
    obtain none_such | ⟨id', listed, same⟩ := h.only found
    · rw [segmentId?_segmentName small] at none_such
      cases none_such
    · exact segmentName_inj same ▸ listed

theorem Remains.acknowledgedIn_eq (h : Remains d folder ids records acked) : acknowledgedIn d folder = acked := by
  obtain ⟨file, found, acked⟩ := h.ackFile
  rw [acknowledgedIn, Disk.content?_eq_some_iff.2 ⟨file, found, rfl⟩, ← acked]
  rfl

/-- What a queue left behind can be opened, whatever happens to the content of its segments. -/
theorem Remains.recoverable_update (h : Remains d folder ids records acked) (more : acked < records.length)
    {id file : Nat} (found : d.lookup? (folder ++ [segmentName id]) = some (.file file)) (bytes : List UInt8) :
    Recoverable (d.update file bytes) folder ∧ acknowledgedIn (d.update file bytes) folder = acked := by
  have same : acknowledgedIn (d.update file bytes) folder = acked := by
    rw [acknowledgedIn, h.tidy.content?_update_other found (segmentName_ne_ackName id).symm, ← acknowledgedIn,
      h.acknowledgedIn_eq]
  refine ⟨⟨h.tidy.update _ _, fun name file' id' found' named => ?_, fun {name} ours isFolder => ?_, ?_⟩, same⟩
  · obtain none_such | ⟨id'', listed, rfl⟩ := h.only found'
    · rw [none_such] at named
      cases named
    · rw [segmentId?_segmentName (h.small id'' listed), Option.some.injEq] at named
      rw [named]
  · rw [Disk.lookup?_update] at isFolder
    rcases ours with rfl | ⟨id', small, rfl⟩
    · obtain ⟨file', there, -⟩ := h.ackFile
      rw [there] at isFolder
      cases isFolder
    · obtain none_such | ⟨id'', listed, same⟩ := h.only isFolder
      · rw [segmentId?_segmentName small] at none_such
        cases none_such
      · obtain ⟨file', -, there, -⟩ := h.stored id'' listed
        rw [same, there] at isFolder
        cases isFolder
  · have := h.filed.length_lt
    rw [same]
    omega

/-- What a segment holds. -/
theorem Remains.content (h : Remains d folder ids records acked) {id : Nat} (listed : id ∈ ids) :
    ∃ torn, Frame.Torn torn ∧ (∀ later ∈ ids, id < later → torn = []) ∧
      d.content? (folder ++ [segmentName id]) = some (framed (Queue.recordsOf ids records id) ++ torn) := by
  obtain ⟨file, torn, found, read, isTorn, none_torn⟩ := h.stored id listed
  exact ⟨torn, isTorn, none_torn, Disk.content?_eq_some_iff.2 ⟨file, found, read⟩⟩

namespace Queue

variable {cut later k file : Nat} {rest : List UInt8}

/-- The segments that are left when a queue was opened hold what they held before, the one that was cut what is
left of it, and the newest one nothing behind its records. -/
theorem Recovers.content_leftIn {ids' : List Nat} {w : SegmentWriter} {payloads : List (List UInt8)} {d' : Disk}
    {q : Queue} (left : Remains d folder ids records acked) (cut_listed : cut ∈ ids) (later_listed : later ∈ ids)
    (less : cut < later) (found : d.lookup? (folder ++ [segmentName cut]) = some (.file file))
    (newest : ∀ id ∈ ids, id ≤ w.id) (suffix : ids' <:+ ids)
    (h : Recovers (d.update file (framed ((recordsOf ids records cut).take k) ++ rest)) folder d' q ids' w
      payloads) :
    ∀ id ∈ ids', d'.content? (folder ++ [segmentName id]) = some
      (framed (leftIn ids records cut k rest id).records ++ (leftIn ids records cut k rest id).rest) := by
  have w_listed : w.id ∈ ids := suffix.subset (List.mem_of_getLast? h.settled.atEnd.newest)
  have before : cut < w.id := Nat.lt_of_lt_of_le less (newest later later_listed)
  have untouched {id : Nat} (other : id ≠ cut) := left.tidy.content?_update_other found
    (fun same => other (segmentName_inj same)) (framed ((recordsOf ids records cut).take k) ++ rest)
  intro id listed
  obtain ⟨torn, isTorn, none_torn, content⟩ := left.content (suffix.subset listed)
  by_cases last : id = w.id
  · -- the newest segment was not cut, and all its records are kept
    subst last
    have good := h.good
    have sized : ∀ r ∈ recordsOf ids records w.id, r.Sized := fun r inside =>
      left.filed.sized r (mem_of_mem_between inside)
    rw [untouched (Nat.ne_of_gt before), content, Option.getD_some] at good
    obtain rfl := good.unique (goodFrames_framed sized isTorn)
    rw [leftIn_other (Nat.ne_of_gt before), ← h.place, Disk.content?_eq_some_iff]
    refine ⟨w.file, h.settled.atEnd.place, ?_⟩
    rw [h.settled.atEnd.content, frames_map_payload]
    exact (List.append_nil _).symm
  · rw [h.others id listed last]
    by_cases here : id = cut
    · subst here
      rw [leftIn_self]
      exact left.tidy.content?_update_same found _
    · have none_behind := none_torn w.id w_listed
        (Nat.lt_of_le_of_ne (newest id (suffix.subset listed)) last)
      rw [untouched here, content, leftIn_other here, none_behind]
      rfl

/-- **A queue is opened after a segment was cut**: what is left in its segments is ahead of it, from the one that
it reads. -/
theorem openIn_cut (left : Remains d folder ids records acked) (durable : ∀ r ∈ records, r.Durable)
    (cut_listed : cut ∈ ids) (later_listed : later ∈ ids) (less : cut < later)
    (found : d.lookup? (folder ++ [segmentName cut]) = some (.file file))
    (unread : acked + 1 < endOf ids (records.length + 1) cut) (begun : Frame.Begun rest) (k maxSize : Nat) :
    ∃ d' q, openIn (d.update file (framed ((recordsOf ids records cut).take k) ++ rest)) folder maxSize =
        (d', .ok q) ∧ q.lastRead = acked ∧ q.readId ∈ ids ∧ q.readId ≤ acked + 1 ∧ q.readId ≤ cut ∧
      q.laterIds = ids.filter (q.readId < ·) ∧
      q.Faces d' (leftIn ids records cut k rest q.readId) (q.laterIds.map (leftIn ids records cut k rest)) := by
  have more : acked < records.length := by
    have : endOf ids (records.length + 1) cut ≤ records.length + 1 := endOf_le left.le_top
    omega
  obtain ⟨recoverable, acked_eq⟩ := left.recoverable_update more found
    (framed ((recordsOf ids records cut).take k) ++ rest)
  obtain ⟨d', q, ids', w, payloads, opened, -, h⟩ := openIn_recoverable recoverable maxSize
  have settled := h.settled
  have lastAck : q.lastAck = acked := h.lastAck.trans acked_eq
  obtain ⟨suffix, readId⟩ := h.kept ids (List.ne_nil_of_mem cut_listed) left.ordered left.mem_iff
  have last : ids.getLast? = some w.id := by
    obtain ⟨front, rfl⟩ := suffix
    rw [List.getLast?_append, settled.atEnd.newest, Option.some_or]
  have newest := le_getLast left.ordered last
  obtain ⟨read_listed, early⟩ := readIdFor_mem left.covers w.id
  rw [lastAck] at readId
  rw [← readId] at read_listed early
  have read_listed' : q.readId ∈ ids' := by
    rw [settled.readId, settled.table]
    exact readIdFor_listed (List.mem_of_getLast? settled.atEnd.newest) _
  -- the reader does not begin behind the segment, of which something is not acknowledged
  have behind : q.readId ≤ cut := by
    refine Nat.le_of_not_lt fun beyond => ?_
    have := endOf_le_later left.ordered read_listed beyond (records.length + 1)
    omega
  have laterIds := filter_behind_suffix left.ordered suffix read_listed'
  have versions : (ids'.flatMap fun id => (leftIn ids records cut k rest id).records).Pairwise
      (·.version < ·.version) := by
    obtain ⟨front, parts⟩ := suffix
    have all : (ids.flatMap fun id => (leftIn ids records cut k rest id).records).Pairwise
        (·.version < ·.version) := pairwise_leftIn left.filed left.ordered left.one_le left.le_top
    rw [← parts, List.flatMap_append, parts] at all
    exact (List.pairwise_append.1 all).2.1
  obtain ⟨same, faces⟩ := settled.faces read_listed' leftIn_whole
    (by rw [h.place]; exact h.content_leftIn left cut_listed later_listed less found newest suffix)
    (fun id _ => sound_leftIn durable begun) versions
  exact ⟨d', q, opened, settled.lastRead.trans lastAck, read_listed, early, behind, same.trans laterIds, faces⟩

end Queue

end Folder

/-! ## Runs -/

/-- A queue holds its list after any calls, and stays in its folder. -/
theorem StoredQueue.holds_run {s : StoredQueue} {l : ListQueue α} (h : s.Holds l) {calls : List (Call α)}
    (allowed : l.AllowsAll calls) :
    (s.run calls).Holds (l.run calls) ∧ (s.run calls).queue.folder = s.queue.folder := by
  induction calls generalizing s l with
  | nil => exact ⟨h, rfl⟩
  | cons c calls ih =>
    obtain ⟨first, rest⟩ := allowed
    obtain ⟨-, holds, folder⟩ := holds_call h first
    obtain ⟨holds', folder'⟩ := ih holds rest
    exact ⟨holds', folder'.trans folder⟩

/-- The disk when a queue was dropped. -/
def StoredQueue.dropped (s : StoredQueue) : Disk :=
  s.queue.drop s.disk

/-- Of a file so many bytes are left. -/
def Disk.cut (d : Disk) (file n : Nat) : Disk :=
  d.update file ((d.read file).take n)

/-- What a queue that holds a list leaves behind when it is dropped. -/
theorem StoredQueue.Holds.remains {s : StoredQueue} {l : ListQueue α} (h : s.Holds l) :
    ∃ ids, Remains s.dropped s.queue.folder ids l.records l.acked := by
  obtain ⟨ids, intact⟩ := h.intact
  obtain ⟨flushed, nothing⟩ := Queue.intact_flush intact
  have left := flushed.remains nothing
  rw [Queue.folder_flush, Queue.lastAck_flush] at left
  exact ⟨ids, h.acked ▸ left⟩

/-- A segment that holds the records up to a version is cut inside the frame of one of them. -/
structure CutInside (records : List (Record α)) (id next n version : Nat) (rest : List UInt8) : Prop where
  first : id ≤ version
  last : version < next
  content : (framed (between records id next)).take n = framed (between records id version) ++ rest
  some_rest : rest ≠ []
  head : ∃ r, records[version - 1]? = some r ∧ rest <+: Frame.write r.payload ∧ rest ≠ Frame.write r.payload

/-- **A cut that is at the end of no frame is inside one.** -/
theorem exists_cutInside {records : List (Record α)} {id next n : Nat} (one : 1 ≤ id)
    (top : next ≤ records.length + 1) (short : n < (framed (between records id next)).length)
    (within : ∀ version, n ≠ (framed (between records id version)).length) :
    ∃ version rest, CutInside records id next n version rest := by
  induction count : next - id generalizing id n with
  | zero =>
    rw [between_eq_nil (by omega)] at short
    cases short
  | succ count ih =>
    obtain ⟨r, found⟩ : ∃ r, records[id - 1]? = some r := ⟨_, List.getElem?_eq_getElem (by omega)⟩
    have parts {next : Nat} (less : id < next) :
        framed (between records id next) = Frame.write r.payload ++ framed (between records (id + 1) next) := by
      rw [between_eq_cons one less found, framed_cons]
    rw [parts (by omega), List.length_append] at short
    by_cases here : n < (Frame.write r.payload).length
    · have some_bytes : n ≠ 0 := by
        have := within id
        rwa [between_eq_nil (Nat.le_refl id)] at this
      have length : ((Frame.write r.payload).take n).length = n := by
        rw [List.length_take, Nat.min_eq_left (Nat.le_of_lt here)]
      refine ⟨id, (Frame.write r.payload).take n, Nat.le_refl id, by omega, ?_, fun none_left => ?_, r, found,
        List.take_prefix _ _, fun whole => ?_⟩
      · rw [parts (by omega), List.take_append_of_le_length (Nat.le_of_lt here), between_eq_nil (Nat.le_refl id),
          framed_nil, List.nil_append]
      · rw [none_left] at length
        exact some_bytes length.symm
      · rw [whole] at length
        omega
    · have within' (version : Nat) :
          n - (Frame.write r.payload).length ≠ (framed (between records (id + 1) version)).length := by
        by_cases later : id < version
        · have := within version
          rw [parts later, List.length_append] at this
          omega
        · have := within (id + 1)
          rw [parts (Nat.lt_succ_self id), between_eq_nil (Nat.le_refl (id + 1)), List.length_append] at this
          rw [between_eq_nil (by omega)]
          simp only [framed_nil, List.length_nil] at this ⊢
          omega
      obtain ⟨version, rest, cut⟩ := ih (by omega) (by omega) within' (by omega)
      have first := cut.first
      refine ⟨version, rest, by omega, cut.last, ?_, cut.some_rest, cut.head⟩
      rw [parts (by omega), parts (by omega), List.take_append, List.take_of_length_le (Nat.le_of_not_lt here),
        cut.content, List.append_assoc]

namespace Queue

/-- What is given of a queue in which a segment was cut inside the record of a version, up to the end of the
queue: the records in front of the cut that are not acknowledged, an error if at least four bytes are left of
the frame that was cut, and the records from the next segment on. -/
def drained (l : ListQueue α) (id next version : Nat) (rest : List UInt8) : List (Answer α) :=
  (between l.records (l.acked + 1) version).map giving ++
    (if rest.length < 4 then []
      else [.failed (.badFrame (segmentName id) (framed (between l.records id version)).length .truncated)]) ++
    (between l.records next (l.records.length + 1)).map giving

/-- **What is given of what a queue left behind, if one of its segments is cut.** -/
theorem answers_cut {d : Disk} {folder : Place} {ids : List Nat} {l : ListQueue α}
    (left : Remains d folder ids l.records l.acked) (durable : ∀ r ∈ l.records, r.Durable) {id later file n : Nat}
    (listed : id ∈ ids) (later_listed : later ∈ ids) (less : id < later)
    (found : d.lookup? (folder ++ [segmentName id]) = some (.file file)) {version : Nat} {rest : List UInt8}
    (cut : CutInside l.records id (endOf ids (l.records.length + 1) id) n version rest)
    (read : d.read file = framed (recordsOf ids l.records id))
    (unread : l.acked + 1 < endOf ids (l.records.length + 1) id) (maxSize : Nat) :
    ∃ d' q, openIn (d.cut file n) folder maxSize = (d', .ok q) ∧
      ∀ gets, StoredQueue.answers ⟨d', q⟩ (List.replicate gets (.get : Call α)) =
        (List.range gets).map fun i =>
          (drained l id (endOf ids (l.records.length + 1) id) version rest).getD i (.element none) := by
  have first := cut.first
  have last := cut.last
  have taken : (recordsOf ids l.records id).take (version - id) = between l.records id version :=
    take_between (left.one_le id listed) (Nat.le_of_lt last)
  have bytes : (d.read file).take n = framed ((recordsOf ids l.records id).take (version - id)) ++ rest := by
    rw [read, taken]
    exact cut.content
  have begun : Frame.Begun rest := by
    obtain ⟨r, known, head, part⟩ := cut.head
    refine ⟨r.payload, (durable r (List.mem_of_getElem? known)).fits, head, ?_⟩
    rw [← Frame.length_write]
    exact Nat.lt_of_le_of_ne head.length_le fun same => part (head.eq_of_length same)
  obtain ⟨d', q, opened, lastRead, read_listed, early, behind, laterIds, faces⟩ :=
    openIn_cut left durable listed later_listed less found unread begun (version - id) maxSize
  refine ⟨d', q, by rw [Disk.cut, bytes, opened], fun gets => ?_⟩
  rw [faces.answers_replicate, lastRead, laterIds, ← List.map_cons,
    outlook_leftIn left.filed left.ordered left.one_le left.le_top read_listed early listed behind unread
      (by omega), leftIn_self, taken, Nat.add_sub_cancel' first]
  rfl

/-- **A segment that was cut inside a frame.** Bytes are taken for the end of a segment if they are less than
four. A queue begins in a new folder, records are put, read and acknowledged, and the queue is opened again as
often as one likes; then it is dropped, and a segment that has another one behind it is cut inside a frame. What
the queue gives from then on is known: the records in front of the cut, then an error if at least four bytes of
that frame are left and nothing otherwise, and then the records of the next segment and of those behind it. -/
theorem drain_cut {d : Disk} {folder : Place} (free : d.Free folder) (maxSize : Nat) {calls : List (Call α)}
    (allowed : (ListQueue.empty : ListQueue α).AllowsAll calls) :
    (∀ bytes, (Frame.next bytes).1 = .finished ↔ bytes.length < 4) ∧
      ∃ d₁ q₁, openIn d folder maxSize = (d₁, .ok q₁) ∧
        let left := (StoredQueue.run ⟨d₁, q₁⟩ calls).dropped
        let l := (ListQueue.empty : ListQueue α).run calls
        ∀ {id later file : Nat}, left.lookup? (folder ++ [segmentName id]) = some (.file file) →
          id < UInt64.size → HasSegment left folder later → id < later →
          ∃ next, id < next ∧ HasSegment left folder next ∧
            left.read file = framed (between l.records id next) ∧
            ∀ n, l.acked + 1 < next → n < (left.read file).length →
              (∀ version, n ≠ (framed (between l.records id version)).length) →
              ∃ version rest, CutInside l.records id next n version rest ∧
                ∀ limit, ∃ d₂ q₂, openIn (left.cut file n) folder limit = (d₂, .ok q₂) ∧
                  ∀ gets, StoredQueue.answers ⟨d₂, q₂⟩ (List.replicate gets (.get : Call α)) =
                    (List.range gets).map fun i => (drained l id next version rest).getD i (.element none) := by
  refine ⟨fun bytes => Frame.next_eq_finished_iff, ?_⟩
  obtain ⟨d₀, made, blank⟩ := free.make
  obtain ⟨d₁, q₁, opened, holds, place⟩ := holds_create (α := α) made blank maxSize
  obtain ⟨holds', place'⟩ := StoredQueue.holds_run holds allowed
  obtain ⟨ids, remains⟩ := holds'.remains
  rw [place'.trans place] at remains
  refine ⟨d₁, q₁, opened, fun {id later file} found small there less => ?_⟩
  have listed := (remains.mem_iff id).2 ⟨small, file, found⟩
  have later_listed := (remains.mem_iff later).2 there
  obtain ⟨next_listed, beyond⟩ :=
    endOf_mem later_listed less (((ListQueue.empty : ListQueue α).run calls).records.length + 1)
  obtain ⟨file', torn, found', read, -, none_torn⟩ := remains.stored id listed
  obtain rfl : file = file' := by simpa [found] using found'
  rw [none_torn later later_listed less, List.append_nil] at read
  refine ⟨_, beyond, (remains.mem_iff _).1 next_listed, read, fun n unread short within => ?_⟩
  obtain ⟨version, rest, cut⟩ := exists_cutInside (remains.one_le id listed) (endOf_le remains.le_top)
    (read ▸ short) within
  exact ⟨version, rest, cut, fun limit =>
    answers_cut remains holds'.durable listed later_listed less found cut read unread limit⟩

/-- Two records in one segment, and one in the next. -/
def sealTwo : List (Call String) :=
  [.put 5 "a", .put 6 "b", .reopen 1, .put 7 "c"]

/-- Six bytes are left of the second frame, and it is known what is given. -/
theorem drain_cut_sealTwo : ∃ d q, openIn Disk.empty ["queue"] 100 = (d, .ok q) ∧
    let left := (StoredQueue.run ⟨d, q⟩ sealTwo).dropped
    let l := (ListQueue.empty : ListQueue String).run sealTwo
    ∃ next version rest, CutInside l.records 1 next 45 version rest ∧
      ∃ d₂ q₂, openIn (left.cut 1 45) ["queue"] 7 = (d₂, .ok q₂) ∧
        ∀ gets, StoredQueue.answers ⟨d₂, q₂⟩ (List.replicate gets (.get : Call String)) =
          (List.range gets).map fun i => (drained l 1 next version rest).getD i (.element none) := by
  have facts : (openIn Disk.empty ["queue"] 100).2.toOption.map (fun q =>
      let left := (StoredQueue.run ⟨(openIn Disk.empty ["queue"] 100).1, q⟩ sealTwo).dropped
      (left.lookup? ["queue", segmentName 1], left.lookup? ["queue", segmentName 3], (left.read 1).length)) =
      some (some (.file 1), some (.file 2), 78) := by decide +kernel
  have a : Record.Durable (⟨"a", 1, 5⟩ : Record String) := ⟨by decide +kernel, by decide +kernel⟩
  have b : Record.Durable (⟨"b", 2, 6⟩ : Record String) := ⟨by decide +kernel, by decide +kernel⟩
  have c : Record.Durable (⟨"c", 3, 7⟩ : Record String) := ⟨by decide +kernel, by decide +kernel⟩
  have allowed : (ListQueue.empty : ListQueue String).AllowsAll sealTwo :=
    ⟨fun _ => a, fun _ => b, trivial, fun _ => c, trivial⟩
  have within : ∀ version, 45 ≠
      (framed (between ((ListQueue.empty : ListQueue String).run sealTwo).records 1 version)).length
    | 0 | 1 | 2 | 3 => by decide +kernel
    | version + 4 => by
      have all : between ((ListQueue.empty : ListQueue String).run sealTwo).records 1 (version + 4) =
          ((ListQueue.empty : ListQueue String).run sealTwo).records :=
        List.take_of_length_le (Nat.le_add_left 3 version)
      rw [all]
      decide +kernel
  obtain ⟨-, d, q, opened, known⟩ := drain_cut free_empty 100 allowed
  simp only [opened, Except.toOption, Option.map_some, Option.some.injEq, Prod.mk.injEq] at facts
  obtain ⟨first, second, length⟩ := facts
  obtain ⟨next, beyond, -, -, cuts⟩ := known first (by decide) ⟨by decide, 2, second⟩ (by decide : 1 < 3)
  obtain ⟨version, rest, cut, opens⟩ := cuts 45 beyond (by rw [length]; decide) within
  exact ⟨d, q, opened, next, version, rest, cut, opens 7⟩

/-- Two bytes are left of the second frame. The first record is given, and then the third: the second is missing,
and nothing has failed. -/
theorem drain_misses_cut : ∃ d q d₂ q₂, openIn Disk.empty ["queue"] 100 = (d, .ok q) ∧
    let left := (StoredQueue.run ⟨d, q⟩ sealTwo).dropped
    left.lookup? ["queue", segmentName 1] = some (.file 1) ∧
    (left.read 1).take 41 = framed [(⟨"a", 1, 5⟩ : Record String)] ++
      (framed [(⟨"b", 2, 6⟩ : Record String)]).take 2 ∧
    openIn (left.cut 1 41) ["queue"] 100 = (d₂, .ok q₂) ∧
    StoredQueue.answers ⟨d₂, q₂⟩ [(.get : Call String), .get, .get] =
      [giving ⟨"a", 1, 5⟩, giving ⟨"c", 3, 7⟩, .element none] := by
  have facts : (openIn Disk.empty ["queue"] 100).2.toOption.map (fun q =>
      let left := (StoredQueue.run ⟨(openIn Disk.empty ["queue"] 100).1, q⟩ sealTwo).dropped
      (left.lookup? ["queue", segmentName 1], (left.read 1).take 41,
        (openIn (left.cut 1 41) ["queue"] 100).2.toOption.map fun q₂ => StoredQueue.answers
          ⟨(openIn (left.cut 1 41) ["queue"] 100).1, q₂⟩ [(.get : Call String), .get, .get])) =
      some (some (.file 1), framed [(⟨"a", 1, 5⟩ : Record String)] ++
        (framed [(⟨"b", 2, 6⟩ : Record String)]).take 2,
        some [giving ⟨"a", 1, 5⟩, giving ⟨"c", 3, 7⟩, .element none]) := by decide +kernel
  rcases opens : openIn Disk.empty ["queue"] 100 with ⟨d, e | q⟩
  · rw [opens] at facts
    cases facts
  simp only [opens, Except.toOption, Option.map_some, Option.some.injEq, Prod.mk.injEq] at facts
  obtain ⟨place, bytes, answers⟩ := facts
  rcases again : openIn ((StoredQueue.run ⟨d, q⟩ sealTwo).dropped.cut 1 41) ["queue"] 100 with ⟨d₂, e | q₂⟩
  · simp [again] at answers
  · simp only [again, Option.map_some, Option.some.injEq] at answers
    exact ⟨d, q, d₂, q₂, rfl, place, bytes, again, answers⟩

end Queue

end Outbox
