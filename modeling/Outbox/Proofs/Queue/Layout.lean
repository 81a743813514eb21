import Outbox.Proofs.Disk.Folder
import Outbox.Proofs.Queue.Names
import Outbox.Proofs.Queue.Segments

/-!
# How records lie on the disk

The records that were ever put into a queue have the versions 1, 2, 3, ... A segment holds those from
its own version to the next segment's, the last segment all the others. Segments may be missing at the
head of the table, where everything is acknowledged.

* `Filed` are the records of a queue, and `between` some of them in turn;
* `endOf` is where a segment ends;
* `Queue.text` is what a file holds once everything was handed to the disk;
* `Queue.Reading` says how far the reader is;
* `Queue.Intact` is the invariant of an open queue, and `Remains` says what there is without one.
-/

namespace Outbox

/-! ## Records -/

/-- The items from number `a` on, up to but without number `b`; the first one has number 1. -/
def between {β : Type} (items : List β) (a b : Nat) : List β :=
  (items.take (b - 1)).drop (a - 1)

section between

variable {β : Type} {items : List β} {a b : Nat}

theorem mem_of_mem_between {x : β} (h : x ∈ between items a b) : x ∈ items :=
  List.mem_of_mem_take (List.mem_of_mem_drop h)

theorem length_between (top : b ≤ items.length + 1) :
    (between items a b).length = b - 1 - (a - 1) := by
  rw [between, List.length_drop, List.length_take]
  omega

theorem between_eq_nil (h : b ≤ a) : between items a b = [] := by
  apply List.drop_eq_nil_of_le
  rw [List.length_take]
  omega

theorem between_eq_cons {x : β} (one : 1 ≤ a) (h : a < b) (found : items[a - 1]? = some x) :
    between items a b = x :: between items (a + 1) b := by
  have found' : (items.take (b - 1))[a - 1]? = some x := by
    rw [List.getElem?_take_of_lt (by omega), found]
  rw [List.getElem?_eq_some_iff] at found'
  obtain ⟨inside, eq⟩ := found'
  rw [between, List.drop_eq_getElem_cons inside, eq, between]
  congr 2
  omega

/-- Items that are added later are behind those that are there. -/
theorem between_of_le (h : b ≤ items.length + 1) (more : List β) :
    between (items ++ more) a b = between items a b := by
  rw [between, List.take_append_of_le_length (by omega), between]

/-- A stretch up to the end goes on with the items that are added. -/
theorem between_top (h : a ≤ items.length + 1) (more : List β) :
    between (items ++ more) a (items.length + more.length + 1) =
      between items a (items.length + 1) ++ more := by
  simp only [between, Nat.add_sub_cancel]
  rw [List.take_of_length_le (by simp), List.take_of_length_le (Nat.le_refl _),
    List.drop_append_of_le_length (by omega)]

/-- What is behind some items does not matter to them. -/
theorem between_take {k : Nat} (h : b ≤ k + 1) : between (items.take k) a b = between items a b := by
  rw [between, List.take_take, Nat.min_eq_left (by omega), between]

/-- A stretch and the one behind it. -/
theorem between_append {c : Nat} (h : a ≤ b) (h' : b ≤ c) :
    between items a b ++ between items b c = between items a c := by
  have first : items.take (b - 1) = (items.take (c - 1)).take (b - 1) := by
    rw [List.take_take, Nat.min_eq_left (by omega)]
  rw [between, between, between, first]
  generalize items.take (c - 1) = upTo
  conv => rhs; rw [← List.take_append_drop (b - 1) upTo]
  rw [List.drop_append]
  congr 1
  by_cases inside : b - 1 ≤ upTo.length
  · rw [List.length_take, Nat.min_eq_left inside, Nat.sub_eq_zero_of_le (show a - 1 ≤ b - 1 by omega),
      List.drop_zero]
  · rw [List.drop_eq_nil_of_le (by omega), List.drop_nil]

/-- The head of a stretch. -/
theorem take_between {c : Nat} (one : 1 ≤ a) (h : b ≤ c) :
    (between items a c).take (b - a) = between items a b := by
  by_cases empty : b ≤ a
  · rw [between_eq_nil empty, Nat.sub_eq_zero_of_le empty, List.take_zero]
  · rw [between, List.take_drop, List.take_take, between]
    congr 2
    omega

end between

variable {α : Type} [Storable α]

/-- Records as they were put into a queue. -/
structure Filed (records : List (Record α)) : Prop where
  numbered : ∀ {i : Nat} {r : Record α}, records[i]? = some r → r.version = i + 1
  sized : ∀ r ∈ records, r.Sized

/-- A record is put behind the others. -/
theorem Filed.concat {records : List (Record α)} (h : Filed records) {r : Record α}
    (next : r.version = records.length + 1) (sized : r.Sized) : Filed (records ++ [r]) where
  numbered {i r'} found := by
    rcases Nat.lt_trichotomy i records.length with inside | rfl | beyond
    · rw [List.getElem?_append_left inside] at found
      exact h.numbered found
    · rw [List.getElem?_concat_length, Option.some.injEq] at found
      rw [← found, next]
    · rw [List.getElem?_eq_none (by simp; omega)] at found
      cases found
  sized r' member := by
    rcases List.mem_append.1 member with old | new
    · exact h.sized r' old
    · exact List.mem_singleton.1 new ▸ sized

/-- The first records are as they were put into a queue. -/
theorem Filed.take {records : List (Record α)} (h : Filed records) (k : Nat) : Filed (records.take k) where
  numbered {i r} found := by
    rw [List.getElem?_take] at found
    split at found
    · exact h.numbered found
    · cases found
  sized r member := h.sized r (List.mem_of_mem_take member)

/-- There are never more records than 64 bits can count. -/
theorem Filed.length_lt {records : List (Record α)} (h : Filed records) :
    records.length < UInt64.size := by
  cases hl : records.getLast? with
  | none =>
    rw [List.getLast?_eq_none_iff.1 hl]
    exact Nat.two_pow_pos 64
  | some r =>
    have small := (h.sized r (List.mem_of_getLast? hl)).version_lt
    rw [List.getLast?_eq_getElem?] at hl
    have := h.numbered hl
    omega

/-- The records above a version. -/
theorem Filed.dropWhile_between {records : List (Record α)} (h : Filed records) {a b : Nat}
    (one : 1 ≤ a) (top : b ≤ records.length + 1) (above : Nat) :
    (between records a b).dropWhile (·.version ≤ above) =
      between records (max a (above + 1)) b := by
  induction n : b - a generalizing a with
  | zero => rw [between_eq_nil (by omega), between_eq_nil (by omega), List.dropWhile_nil]
  | succ n ih =>
    obtain ⟨r, found⟩ : ∃ r, records[a - 1]? = some r := ⟨_, List.getElem?_eq_getElem (by omega)⟩
    have version := h.numbered found
    rw [between_eq_cons one (by omega) found]
    by_cases old : a ≤ above
    · rw [List.dropWhile_cons_of_pos (by simp only [decide_eq_true_eq]; omega),
        ih (by omega) (by omega)]
      congr 1
      omega
    · rw [List.dropWhile_cons_of_neg (by simp only [decide_eq_true_eq]; omega),
        Nat.max_eq_left (by omega), between_eq_cons one (by omega) found]

/-! ## Where segments end -/

/-- Where a segment ends: where the next one begins, or else at `top`. -/
def endOf (ids : List Nat) (top id : Nat) : Nat :=
  (ids.filter (id < ·)).head?.getD top

section endOf

variable {ids : List Nat} {top id : Nat}

/-- The segments behind the next one, if the segments are in order. -/
theorem filter_of_filter_eq_cons (ordered : ids.Pairwise (· < ·)) {next : Nat} {rest : List Nat}
    (h : ids.filter (id < ·) = next :: rest) : ids.filter (next < ·) = rest := by
  have beyond : id < next := by
    have := List.mem_filter.1 (h ▸ List.mem_cons_self : next ∈ ids.filter (id < ·))
    simpa using this.2
  have sub : ids.filter (next < ·) = (ids.filter (id < ·)).filter (next < ·) := by
    rw [List.filter_filter]
    refine List.filter_congr fun x _ => ?_
    by_cases behind : next < x
    · simp [behind, Nat.lt_trans beyond behind]
    · simp [behind]
  have later := (ordered.filter (id < ·))
  rw [h, List.pairwise_cons] at later
  rw [sub, h, List.filter_cons_of_neg (by simp), List.filter_eq_self]
  intro x hx
  simpa using later.1 x hx

/-- Behind the first segment are the others. -/
theorem filter_behind_first (ordered : (id :: ids).Pairwise (· < ·)) : (id :: ids).filter (id < ·) = ids := by
  rw [List.filter_cons_of_neg (by simp), List.filter_eq_self]
  simpa using (List.pairwise_cons.1 ordered).1

/-- Segments that are removed at the head were not behind another one. -/
theorem filter_behind_suffix (ordered : ids.Pairwise (· < ·)) {ids' : List Nat} (suffix : ids' <:+ ids)
    (mem : id ∈ ids') : ids'.filter (id < ·) = ids.filter (id < ·) := by
  obtain ⟨front, rfl⟩ := suffix
  have before : front.filter (id < ·) = [] := by
    rw [List.filter_eq_nil_iff]
    intro first inside
    have := (List.pairwise_append.1 ordered).2.2 first inside id mem
    simp only [decide_eq_true_eq]
    omega
  rw [List.filter_append, before, List.nil_append]

/-- The segments from one of them on. -/
theorem suffix_from (ordered : ids.Pairwise (· < ·)) (listed : id ∈ ids) :
    id :: ids.filter (id < ·) <:+ ids := by
  obtain ⟨front, back, rfl⟩ := List.append_of_mem listed
  have suffix : id :: back <:+ front ++ id :: back := List.suffix_append ..
  rw [← filter_behind_suffix ordered suffix List.mem_cons_self,
    filter_behind_first (ordered.sublist suffix.sublist)]
  exact suffix

theorem endOf_eq_head {next : Nat} {rest : List Nat} (h : ids.filter (id < ·) = next :: rest) :
    endOf ids top id = next := by
  simp [endOf, h]

theorem endOf_eq_top (h : ∀ id' ∈ ids, id' ≤ id) : endOf ids top id = top := by
  have none_later : ids.filter (id < ·) = [] := by
    rw [List.filter_eq_nil_iff]
    intro id' mem
    have := h id' mem
    simpa using this
  simp [endOf, none_later]

/-- A segment that has one behind it ends there, however far the records go. -/
theorem endOf_of_later {id' : Nat} (mem : id' ∈ ids) (later : id < id') (top' : Nat) :
    endOf ids top' id = endOf ids top id := by
  cases h : ids.filter (id < ·) with
  | nil =>
    rw [List.filter_eq_nil_iff] at h
    exact absurd (by simpa using later) (h id' mem)
  | cons next rest => rw [endOf_eq_head h, endOf_eq_head h]

theorem endOf_le (h : ∀ id' ∈ ids, id' ≤ top) : endOf ids top id ≤ top := by
  cases hl : ids.filter (id < ·) with
  | nil => simp [endOf, hl]
  | cons next rest =>
    rw [endOf_eq_head hl]
    exact h next (List.mem_filter.1 (hl ▸ List.mem_cons_self : next ∈ ids.filter (id < ·))).1

theorem le_endOf (ids : List Nat) (h : id ≤ top) : id ≤ endOf ids top id := by
  cases hl : ids.filter (id < ·) with
  | nil => simpa [endOf, hl] using h
  | cons next rest =>
    rw [endOf_eq_head hl]
    have := List.mem_filter.1 (hl ▸ List.mem_cons_self : next ∈ ids.filter (id < ·))
    have beyond : id < next := by simpa using this.2
    exact Nat.le_of_lt beyond

/-- A segment that is removed at the head was not behind another one. -/
theorem endOf_cons {id₀ : Nat} (h : id₀ ≤ id) : endOf (id₀ :: ids) top id = endOf ids top id := by
  rw [endOf, List.filter_cons_of_neg (by simpa using h), endOf]

/-- A segment ends where a later one begins, if those in between do not. -/
theorem endOf_append {next : Nat} (h : id < next) (rest : List Nat) (top : Nat) :
    endOf (ids ++ next :: rest) top id = endOf ids next id := by
  rw [endOf, List.filter_append, List.filter_cons_of_pos (by simpa using h), endOf]
  cases ids.filter (id < ·) <;> rfl

/-- A segment that begins behind all records leaves the others as they are. -/
theorem endOf_concat (h : id < top) (top' : Nat) :
    endOf (ids ++ [top]) top' id = endOf ids top id :=
  endOf_append h [] top'

/-- The first segment of all ends where the second one begins. -/
theorem endOf_first (ordered : (id :: ids).Pairwise (· < ·)) (top : Nat) :
    endOf (id :: ids) top id = ids.headD top := by
  rw [endOf, filter_behind_first ordered, List.headD_eq_head?_getD]

/-- Segments end where they did when some are removed at the head. -/
theorem endOf_suffix (ordered : ids.Pairwise (· < ·)) {ids' : List Nat} (suffix : ids' <:+ ids)
    (mem : id ∈ ids') (top : Nat) : endOf ids' top id = endOf ids top id := by
  rw [endOf, endOf, filter_behind_suffix ordered suffix mem]

/-- A segment with another one behind it ends where one of them begins. -/
theorem endOf_mem {next : Nat} (listed : next ∈ ids) (later : id < next) (top : Nat) :
    endOf ids top id ∈ ids ∧ id < endOf ids top id := by
  have inside : next ∈ ids.filter (id < ·) := List.mem_filter.2 ⟨listed, by simpa using later⟩
  cases behind : ids.filter (id < ·) with
  | nil =>
    rw [behind] at inside
    cases inside
  | cons second rest =>
    have member : second ∈ ids.filter (id < ·) := behind ▸ List.mem_cons_self
    rw [endOf_eq_head behind]
    simpa using List.mem_filter.1 member

/-- A segment ends where a later one begins, or before. -/
theorem endOf_le_later (ordered : ids.Pairwise (· < ·)) {next : Nat} (listed : next ∈ ids)
    (later : id < next) (top : Nat) : endOf ids top id ≤ next := by
  have inside : next ∈ ids.filter (id < ·) := List.mem_filter.2 ⟨listed, by simpa using later⟩
  have ordered' := ordered.filter (id < ·)
  cases behind : ids.filter (id < ·) with
  | nil =>
    rw [behind] at inside
    cases inside
  | cons second rest =>
    rw [endOf_eq_head behind]
    rw [behind] at inside ordered'
    rcases List.mem_cons.1 inside with rfl | behind
    · exact Nat.le_refl _
    · exact Nat.le_of_lt ((List.pairwise_cons.1 ordered').1 next behind)

end endOf

/-! ## The invariant -/

/-- What there is in the folder of a queue that nobody has open: an acknowledged version, and segments
of these versions that hold these records. The last segment may have a torn end. -/
structure Remains (d : Disk) (folder : Place) (ids : List Nat) (records : List (Record α)) (acked : Nat) :
    Prop where
  tidy : d.Tidy folder
  filed : Filed records
  known : acked ≤ records.length
  ackFile : ∃ file, d.lookup? (folder ++ [ackName]) = some (.file file) ∧
    versionIn (d.read file) = acked
  ordered : ids.Pairwise (· < ·)
  one_le : ∀ id ∈ ids, 1 ≤ id
  le_top : ∀ id ∈ ids, id ≤ records.length + 1
  small : ∀ id ∈ ids, id < UInt64.size
  /-- What is not acknowledged is in some segment. -/
  covers : ∃ id ∈ ids, id ≤ acked + 1
  /-- There are no other segments in the folder. -/
  only : ∀ {name : String} {e : Entry}, d.lookup? (folder ++ [name]) = some e →
    segmentId? name = none ∨ ∃ id ∈ ids, name = segmentName id
  stored : ∀ id ∈ ids, ∃ file torn, d.lookup? (folder ++ [segmentName id]) = some (.file file) ∧
    d.read file = framed (between records id (endOf ids (records.length + 1) id)) ++ torn ∧
    Frame.Torn torn ∧ ∀ id' ∈ ids, id < id' → torn = []

/-- A folder stays in order when a file of it is written. -/
theorem Disk.Tidy.onlyChanges {d d' : Disk} {folder : Place} (h : d.Tidy folder) {file : Nat}
    (only : d.OnlyChanges d' file) : d'.Tidy folder where
  isFolder := by rw [only.lookup?, h.isFolder]
  named := h.named
  distinct := by rw [only.children]; exact h.distinct
  bounded found := by rw [only.length]; exact h.bounded (only.lookup? _ ▸ found)
  single ha hb := h.single (only.lookup? _ ▸ ha) (only.lookup? _ ▸ hb)

namespace Queue

/-- What is held back from a file. -/
def held (q : Queue) (file : Nat) : List UInt8 :=
  match q.writer with
  | some w => if w.file = file then w.buffer else []
  | none => []

/-- What a file holds once everything was handed to the disk. -/
def text (d : Disk) (q : Queue) (file : Nat) : List UInt8 :=
  d.read file ++ q.held file

/-- Where nothing is held back, the disk has everything. -/
theorem text_eq_read {q : Queue} (nothing : ∀ file, q.held file = []) (d : Disk) (file : Nat) :
    q.text d file = d.read file := by
  rw [text, nothing, List.append_nil]

/-- The reader of a queue is behind version `m` in its segment. If no segment is open, the reader
will be at the beginning of one. -/
structure Reading (d : Disk) (q : Queue) (ids : List Nat) (records : List (Record α)) (m : Nat) :
    Prop where
  listed : q.readId ∈ ids
  first : q.readId ≤ m + 1
  last : m + 1 ≤ endOf ids (records.length + 1) q.readId
  unopened : q.reader = none → m + 1 = q.readId
  opened : ∀ r, q.reader = some r → ∃ file k,
    d.lookup? (q.folder ++ [segmentName q.readId]) = some (.file file) ∧ r.file = some file ∧
      r.At (d.read file) k ∧
      (q.text d file).drop k = framed (between records (m + 1) (endOf ids (records.length + 1) q.readId))

/-- A reader that is not open yet will be at the beginning of its segment. -/
theorem reading_start {q : Queue} {ids : List Nat} {records : List (Record α)} (d : Disk)
    (closed : q.reader = none) (listed : q.readId ∈ ids) (one : 1 ≤ q.readId)
    (top : q.readId ≤ records.length + 1) : q.Reading d ids records (q.readId - 1) where
  listed := listed
  first := Nat.le_add_of_sub_le (Nat.le_refl _)
  last := by
    rw [Nat.sub_add_cancel one]
    exact le_endOf ids top
  unopened _ := Nat.sub_add_cancel one
  opened r hr := by
    rw [closed] at hr
    cases hr

/-- The reader stays where it is as long as its segment does. -/
theorem Reading.kept {d d' : Disk} {q q' : Queue} {ids ids' : List Nat} {records : List (Record α)}
    {m : Nat} (h : q.Reading d ids records m) (folder : q'.folder = q.folder)
    (readId : q'.readId = q.readId) (reader : q'.reader = q.reader) (listed : q.readId ∈ ids')
    (ends : endOf ids' (records.length + 1) q.readId = endOf ids (records.length + 1) q.readId)
    (lookup : d'.lookup? (q.folder ++ [segmentName q.readId]) =
      d.lookup? (q.folder ++ [segmentName q.readId]))
    (text : ∀ {file : Nat}, d.lookup? (q.folder ++ [segmentName q.readId]) = some (.file file) →
      d'.read file = d.read file ∧ q'.text d' file = q.text d file) :
    q'.Reading d' ids' records m where
  listed := readId ▸ listed
  first := readId ▸ h.first
  last := by
    rw [readId, ends]
    exact h.last
  unopened closed := by
    rw [readId]
    exact h.unopened (reader ▸ closed)
  opened r hr := by
    obtain ⟨file, k, found, isFile, position, ahead⟩ := h.opened r (reader ▸ hr)
    obtain ⟨read, same⟩ := text found
    rw [folder, readId, ends]
    exact ⟨file, k, lookup.trans found, isFile, read.symm ▸ position, same.symm ▸ ahead⟩

/-- A reader behind version `m` is no further than the queue was read, unless there is nothing in between:
then it is in front of all segments. -/
def Abreast (ids : List Nat) (lastRead m : Nat) : Prop :=
  m ≤ lastRead ∨ ∀ id ∈ ids, m < id

/-- Further back the reader misses less. -/
theorem Abreast.mono {ids : List Nat} {lastRead m m' : Nat} (h : Abreast ids lastRead m) (le : m' ≤ m) :
    Abreast ids lastRead m' :=
  h.imp (Nat.le_trans le) fun before id member => Nat.lt_of_le_of_lt le (before id member)

/-- A segment more behind the others does not matter. -/
theorem Abreast.concat {ids : List Nat} {lastRead m id top : Nat} (h : Abreast ids lastRead m)
    (listed : id ∈ ids) (later : ∀ id ∈ ids, id < top) : Abreast (ids ++ [top]) lastRead m := by
  refine h.imp_right fun before => List.forall_mem_append.2 ⟨before, List.forall_mem_singleton.2 ?_⟩
  exact Nat.lt_trans (before id listed) (later id listed)

/-- A reader at the beginning of the first segment has nothing in front of it. -/
theorem abreast_first {id : Nat} {ids : List Nat} (ordered : (id :: ids).Pairwise (· < ·)) (one : 1 ≤ id)
    (lastRead : Nat) : Abreast (id :: ids) lastRead (id - 1) := by
  refine .inr fun id' member => ?_
  rcases List.mem_cons.1 member with rfl | later
  · omega
  · have := (List.pairwise_cons.1 ordered).1 id' later
    omega

theorem Abreast.caughtUp {ids : List Nat} {lastRead m : Nat} (h : Abreast ids lastRead m) :
    Abreast ids lastRead (max m lastRead) := by
  rcases Nat.le_total m lastRead with le | le
  · exact .inl (Nat.max_le.2 ⟨le, Nat.le_refl _⟩)
  · exact (Nat.max_eq_left le).symm ▸ h

/-- What is in front of the reader was read or acknowledged. -/
theorem Abreast.le_max {ids : List Nat} {lastRead m : Nat} (h : Abreast ids lastRead m) {acked : Nat}
    (covers : ∃ id ∈ ids, id ≤ acked + 1) : m ≤ max lastRead acked := by
  obtain ⟨id, member, early⟩ := covers
  rcases h with back | before
  · omega
  · have := before id member
    omega

/-- An open queue with segments of these versions, into which these records were put. -/
structure Intact (d : Disk) (q : Queue) (ids : List Nat) (records : List (Record α)) : Prop where
  tidy : d.Tidy q.folder
  filed : Filed records
  lastPut : q.lastPut = records.length
  lastRead : q.lastRead ≤ records.length
  lastAck : q.lastAck ≤ records.length
  ackFile : d.lookup? (q.folder ++ [ackName]) = some (.file q.ackFile)
  acked : versionIn (d.read q.ackFile) = q.lastAck
  table : q.segments = ids.map fun id => (id, segmentName id)
  ordered : ids.Pairwise (· < ·)
  one_le : ∀ id ∈ ids, 1 ≤ id
  le_top : ∀ id ∈ ids, id ≤ records.length + 1
  small : ∀ id ∈ ids, id < UInt64.size
  /-- What is not acknowledged is in some segment. -/
  covers : ∃ id ∈ ids, id ≤ q.lastAck + 1
  /-- There are no other segments in the folder. -/
  only : ∀ {name : String} {e : Entry}, d.lookup? (q.folder ++ [name]) = some e →
    segmentId? name = none ∨ ∃ id ∈ ids, name = segmentName id
  stored : ∀ id ∈ ids, ∃ file, d.lookup? (q.folder ++ [segmentName id]) = some (.file file) ∧
    q.text d file = framed (between records id (endOf ids (records.length + 1) id))
  writer : ∀ w, q.writer = some w → w.id ∈ ids ∧ (∀ id ∈ ids, id ≤ w.id) ∧
    d.lookup? (q.folder ++ [segmentName w.id]) = some (.file w.file) ∧
    w.size = (q.text d w.file).length
  reading : ∃ m, q.Reading d ids records m ∧ Abreast ids q.lastRead m

/-- What a queue leaves behind if nothing is held back. -/
theorem Intact.remains {d : Disk} {q : Queue} {ids : List Nat} {records : List (Record α)}
    (h : q.Intact d ids records) (nothing : ∀ file, q.held file = []) :
    Remains d q.folder ids records q.lastAck where
  tidy := h.tidy
  filed := h.filed
  known := h.lastAck
  ackFile := ⟨q.ackFile, h.ackFile, h.acked⟩
  ordered := h.ordered
  one_le := h.one_le
  le_top := h.le_top
  small := h.small
  covers := h.covers
  only := h.only
  stored id member := by
    obtain ⟨file, found, text⟩ := h.stored id member
    rw [text_eq_read nothing] at text
    exact ⟨file, [], found, by rw [text, List.append_nil], Frame.torn_nil, fun _ _ _ => rfl⟩

/-- The names of the files of a queue. -/
def IsOurs (name : String) : Prop :=
  name = ackName ∨ ∃ id, name = segmentName id

/-- What happens to the disk is no matter to the queue, as long as its files are not touched and no
segments appear in its folder. -/
theorem Intact.elsewhere {d d' : Disk} {q : Queue} {ids : List Nat} {records : List (Record α)}
    (h : q.Intact d ids records) (tidy : d'.Tidy q.folder)
    (kept : ∀ {name : String}, IsOurs name →
      d'.lookup? (q.folder ++ [name]) = d.lookup? (q.folder ++ [name]))
    (only : ∀ {name : String} {e : Entry}, d'.lookup? (q.folder ++ [name]) = some e →
      d.lookup? (q.folder ++ [name]) = some e ∨ segmentId? name = none)
    (read : ∀ {name : String} {file : Nat}, IsOurs name →
      d.lookup? (q.folder ++ [name]) = some (.file file) → d'.read file = d.read file) :
    q.Intact d' ids records := by
  have segment (id : Nat) : IsOurs (segmentName id) := .inr ⟨id, rfl⟩
  have text {id file : Nat}
      (found : d.lookup? (q.folder ++ [segmentName id]) = some (.file file)) :
      q.text d' file = q.text d file := by
    rw [Queue.text, read (segment id) found, Queue.text]
  obtain ⟨m, reading, bound⟩ := h.reading
  refine ⟨tidy, h.filed, h.lastPut, h.lastRead, h.lastAck, (kept (.inl rfl)).trans h.ackFile, ?_,
    h.table, h.ordered, h.one_le, h.le_top, h.small, h.covers, ?_, ?_, ?_, m, ?_, bound⟩
  · rw [read (.inl rfl) h.ackFile, h.acked]
  · intro name e found
    rcases only found with old | none_such
    · exact h.only old
    · exact .inl none_such
  · intro id member
    obtain ⟨file, found, stored⟩ := h.stored id member
    exact ⟨file, (kept (segment id)).trans found, (text found).trans stored⟩
  · intro w hw
    obtain ⟨listed, last, found, size⟩ := h.writer w hw
    refine ⟨listed, last, (kept (segment w.id)).trans found, size.trans ?_⟩
    rw [text found]
  · exact reading.kept rfl rfl rfl reading.listed rfl (kept (segment _)) fun found =>
      ⟨read (segment _) found, text found⟩

end Queue

end Outbox
