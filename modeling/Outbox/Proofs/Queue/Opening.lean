import Outbox.Proofs.Queue.Pruning
import Outbox.Proofs.Queue.Putting

/-!
# Opening

What a queue leaves in its folder is all that another one needs to go on: the segments are found by
their names, the last version by a scan, and the reader begins behind what was acknowledged. In a
folder that is not there yet a queue begins with nothing.

* `segmentsIn_eq` is the table of segments;
* `intact_open` opens a queue again;
* `intact_create` opens one for the first time.
-/

namespace Outbox

/-! ## Tables -/

namespace SegmentTable

/-- A table in order has one file for a version. -/
def Sorted (table : SegmentTable) : Prop :=
  table.Pairwise fun s s' => s.1 < s'.1

theorem mem_set {table : SegmentTable} (sorted : Sorted table) (id : Nat) (file : String)
    (s : Nat × String) : s ∈ set table id file ↔ s = (id, file) ∨ s ∈ table ∧ s.1 ≠ id := by
  induction table with
  | nil => simp [set]
  | cons first rest ih =>
    obtain ⟨id', file'⟩ := first
    obtain ⟨before, sorted'⟩ := List.pairwise_cons.1 sorted
    have later (member : s ∈ rest) : id' < s.1 := before s member
    rw [set]
    split
    · next less =>
      have kept : s ∈ (id', file') :: rest → s.1 ≠ id := by
        intro member
        rcases List.mem_cons.1 member with rfl | member
        · exact Nat.ne_of_gt less
        · exact Nat.ne_of_gt (Nat.lt_trans less (later member))
      rw [List.mem_cons]
      exact or_congr_right ⟨fun member => ⟨member, kept member⟩, And.left⟩
    · split
      · next same =>
        subst same
        rw [List.mem_cons, List.mem_cons]
        constructor
        · rintro (new | member)
          · exact .inl new
          · exact .inr ⟨.inr member, Nat.ne_of_gt (later member)⟩
        · rintro (new | ⟨rfl | member, other⟩)
          · exact .inl new
          · exact absurd rfl other
          · exact .inr member
      · next other =>
        rw [List.mem_cons, ih sorted', List.mem_cons]
        constructor
        · rintro (rfl | new | ⟨member, ne⟩)
          · exact .inr ⟨.inl rfl, Ne.symm other⟩
          · exact .inl new
          · exact .inr ⟨.inr member, ne⟩
        · rintro (new | ⟨rfl | member, ne⟩)
          · exact .inr (.inl new)
          · exact .inl rfl
          · exact .inr (.inr ⟨member, ne⟩)

theorem Sorted.set {table : SegmentTable} (sorted : Sorted table) (id : Nat) (file : String) :
    Sorted (SegmentTable.set table id file) := by
  induction table with
  | nil => exact List.pairwise_singleton ..
  | cons first rest ih =>
    obtain ⟨id', file'⟩ := first
    obtain ⟨before, sorted'⟩ := List.pairwise_cons.1 sorted
    rw [SegmentTable.set]
    split
    · next less =>
      refine List.pairwise_cons.2 ⟨?_, sorted⟩
      intro s member
      rcases List.mem_cons.1 member with rfl | member
      · exact less
      · exact Nat.lt_trans less (before s member)
    · split
      · next same => exact List.pairwise_cons.2 ⟨fun s member => same ▸ before s member, sorted'⟩
      · refine List.pairwise_cons.2 ⟨?_, ih sorted'⟩
        intro s member
        rcases (mem_set sorted' id file s).1 member with rfl | ⟨member, -⟩
        · simp only
          omega
        · exact before s member

/-- Two tables in order are the same if they hold the same segments. -/
theorem Sorted.ext {table table' : SegmentTable} (sorted : Sorted table) (sorted' : Sorted table')
    (same : ∀ s, s ∈ table ↔ s ∈ table') : table = table' := by
  have nodup {t : SegmentTable} (h : Sorted t) : t.Nodup :=
    List.Pairwise.imp (fun less same => Nat.ne_of_lt less (congrArg Prod.fst same)) h
  have perm := (List.perm_ext_iff_of_nodup (nodup sorted) (nodup sorted')).2 same
  unfold Sorted at sorted sorted'
  refine List.Perm.eq_of_pairwise (fun s s' _ _ less less' => ?_) sorted sorted' perm
  omega

end SegmentTable

/-- One entry of a folder is looked at for a segment. -/
def noteSegment (table : SegmentTable) (child : String × Entry) : SegmentTable :=
  match child.2, segmentId? child.1 with
  | .file _, some id => table.set id child.1
  | _, _ => table

theorem segmentsIn_eq_foldl (d : Disk) (folder : Place) :
    segmentsIn d folder = (d.children folder).foldl noteSegment [] :=
  rfl

/-- An entry of a folder is the segment of a version. -/
structure IsSegment (child : String × Entry) (s : Nat × String) : Prop where
  isFile : ∃ file, child.2 = .file file
  id : segmentId? child.1 = some s.1
  name : s.2 = child.1

theorem mem_noteSegment {table : SegmentTable} (sorted : table.Sorted)
    (named : ∀ s ∈ table, s.2 = segmentName s.1) {child : String × Entry}
    (proper : ∀ s, IsSegment child s → child.1 = segmentName s.1) :
    (noteSegment table child).Sorted ∧ (∀ s ∈ noteSegment table child, s.2 = segmentName s.1) ∧
      ∀ s, s ∈ noteSegment table child ↔ s ∈ table ∨ IsSegment child s := by
  unfold noteSegment
  split
  · next file id isFile found =>
    have isSegment : IsSegment child (id, child.1) := ⟨⟨file, isFile⟩, found, rfl⟩
    have name : child.1 = segmentName id := proper (id, child.1) isSegment
    have mem (s : Nat × String) : s ∈ table.set id child.1 ↔ s ∈ table ∨ IsSegment child s := by
      rw [SegmentTable.mem_set sorted]
      constructor
      · rintro (rfl | ⟨member, -⟩)
        · exact .inr isSegment
        · exact .inl member
      · rintro (member | ⟨-, found', name'⟩)
        · by_cases same : s.1 = id
          · refine .inl (Prod.ext same ?_)
            rw [named s member, same, name]
          · exact .inr ⟨member, same⟩
        · rw [found, Option.some.injEq] at found'
          exact .inl (Prod.ext found'.symm name')
    refine ⟨sorted.set id child.1, ?_, mem⟩
    intro s member
    rcases (mem s).1 member with old | isSegment'
    · exact named s old
    · exact isSegment'.name.trans (proper s isSegment')
  · next other =>
    refine ⟨sorted, named, ?_⟩
    intro s
    refine ⟨.inl, ?_⟩
    rintro (member | ⟨⟨file, isFile⟩, found, -⟩)
    · exact member
    · exact (other file s.1 isFile found).elim

/-- In a folder whose segments have their proper names, those are found. -/
theorem mem_foldl_noteSegment {children : List (String × Entry)}
    (proper : ∀ child ∈ children, ∀ s, IsSegment child s → child.1 = segmentName s.1)
    {table : SegmentTable} (sorted : table.Sorted) (named : ∀ s ∈ table, s.2 = segmentName s.1) :
    SegmentTable.Sorted (children.foldl noteSegment table) ∧
      ∀ s, s ∈ children.foldl noteSegment table ↔
        s ∈ table ∨ ∃ child ∈ children, IsSegment child s := by
  induction children generalizing table with
  | nil => exact ⟨sorted, by simp⟩
  | cons child children ih =>
    obtain ⟨sorted', named', mem⟩ := mem_noteSegment sorted named (proper child List.mem_cons_self)
    obtain ⟨sorted'', mem'⟩ :=
      ih (fun c member => proper c (List.mem_cons_of_mem _ member)) sorted' named'
    refine ⟨sorted'', ?_⟩
    intro s
    rw [List.foldl_cons, mem', mem]
    simp only [List.mem_cons, exists_eq_or_imp, or_assoc]

/-- **The segments of a folder are found by their names.** -/
theorem segmentsIn_eq {d : Disk} {folder : Place} (tidy : d.Tidy folder) {ids : List Nat}
    (ordered : ids.Pairwise (· < ·)) (small : ∀ id ∈ ids, id < UInt64.size)
    (only : ∀ {name : String} {e : Entry}, d.lookup? (folder ++ [name]) = some e →
      segmentId? name = none ∨ ∃ id ∈ ids, name = segmentName id)
    (stored : ∀ id ∈ ids, ∃ file, d.lookup? (folder ++ [segmentName id]) = some (.file file)) :
    segmentsIn d folder = ids.map fun id => (id, segmentName id) := by
  have proper : ∀ child ∈ d.children folder, ∀ s, IsSegment child s →
      s.1 ∈ ids ∧ child.1 = segmentName s.1 := by
    rintro ⟨name, e⟩ member s ⟨-, found, -⟩
    obtain none_such | ⟨id, listed, rfl⟩ := only (tidy.mem_children.1 member)
    · rw [none_such] at found
      cases found
    · rw [segmentId?_segmentName (small id listed), Option.some.injEq] at found
      exact found ▸ ⟨listed, rfl⟩
  obtain ⟨sorted, mem⟩ := mem_foldl_noteSegment (fun c member s is => (proper c member s is).2)
    (show SegmentTable.Sorted [] from List.Pairwise.nil) (by simp)
  rw [segmentsIn_eq_foldl]
  apply sorted.ext (List.pairwise_map.2 ordered)
  intro s
  rw [mem, List.mem_map]
  constructor
  · rintro (none_yet | ⟨child, member, is⟩)
    · simp at none_yet
    · obtain ⟨listed, name⟩ := proper child member s is
      exact ⟨s.1, listed, Prod.ext rfl (name.symm.trans is.name.symm)⟩
  · rintro ⟨id, listed, rfl⟩
    obtain ⟨file, found⟩ := stored id listed
    exact .inr ⟨(segmentName id, .file file), tidy.mem_children.2 found, ⟨file, rfl⟩,
      segmentId?_segmentName (small id listed), rfl⟩

/-! ## Opening again -/

namespace Queue

/-- The reader begins in a segment that holds the first version that is not acknowledged, or would
hold it. -/
theorem readIdFor_mem {ids : List Nat} {lastAck : Nat} (covers : ∃ id ∈ ids, id ≤ lastAck + 1)
    (newest : Nat) :
    readIdFor (ids.map fun id => (id, segmentName id)) lastAck newest ∈ ids ∧
      readIdFor (ids.map fun id => (id, segmentName id)) lastAck newest ≤ lastAck + 1 := by
  have table : (ids.map fun id => (id, segmentName id)).map Prod.fst = ids := by
    rw [List.map_map]
    exact List.map_id ids
  unfold readIdFor
  rw [table]
  simp only
  split
  · next id _ found =>
    obtain ⟨listed, early⟩ := List.mem_filter.1 (List.mem_of_getLast? found)
    exact ⟨listed, by simpa using early⟩
  all_goals
    next nothing _ =>
    obtain ⟨id, listed, early⟩ := covers
    rw [List.getLast?_eq_none_iff, List.filter_eq_nil_iff] at nothing
    exact absurd (by simpa using early) (nothing id listed)

variable {α : Type} [Storable α] {d : Disk} {q : Queue} {ids : List Nat}
  {records : List (Record α)}

/-- The last version in the last segment. -/
theorem getLast?_between (filed : Filed records) {id : Nat} (one : 1 ≤ id) :
    ((between records id (records.length + 1)).getLast?.map Record.version) =
      if records.length < id then none else some records.length := by
  rw [between, Nat.add_sub_cancel, List.take_length, List.getLast?_drop]
  by_cases beyond : records.length < id
  · rw [if_pos (by omega), if_pos beyond, Option.map_none]
  · obtain ⟨r, found⟩ : ∃ r, records[records.length - 1]? = some r :=
      ⟨_, List.getElem?_eq_getElem (by omega)⟩
    have version := filed.numbered found
    rw [if_neg (by omega), if_neg beyond, List.getLast?_eq_getElem?, found, Option.map_some, version]
    congr 1
    omega

/-- The writer is opened behind the records of the last segment, and what is torn there is cut off. -/
theorem openNewest_eq {folder : Place} {acked : Nat} (h : Remains d folder ids records acked) :
    ∃ (d' : Disk) (w : SegmentWriter),
      openNewest d folder (ids.map fun id => (id, segmentName id)) acked =
        (d', .ok (ids.map fun id => (id, segmentName id), w, records.length)) ∧
      d.OnlyChanges d' w.file ∧ w.id ∈ ids ∧ (∀ id ∈ ids, id ≤ w.id) ∧
      d.lookup? (folder ++ [segmentName w.id]) = some (.file w.file) ∧ w.buffer = [] ∧
      w.size = (d'.read w.file).length ∧
      d'.read w.file = framed (between records w.id (records.length + 1)) := by
  have some_id : ids ≠ [] := by
    obtain ⟨id, listed, -⟩ := h.covers
    exact List.ne_nil_of_mem listed
  obtain ⟨last, hlast⟩ : ∃ last, ids.getLast? = some last :=
    ⟨_, List.getLast?_eq_some_getLast some_id⟩
  have listed : last ∈ ids := List.mem_of_getLast? hlast
  have greatest : ∀ id ∈ ids, id ≤ last := by
    obtain ⟨front, rfl⟩ := List.getLast?_eq_some_iff.1 hlast
    intro id member
    rcases List.mem_append.1 member with before | same
    · exact Nat.le_of_lt ((List.pairwise_append.1 h.ordered).2.2 id before last (by simp))
    · exact Nat.le_of_eq (List.mem_singleton.1 same)
  obtain ⟨file, torn, found, text, isTorn, -⟩ := h.stored last listed
  rw [endOf_eq_top greatest] at text
  have content : d.content? (folder ++ [segmentName last]) = some (d.read file) := by
    rw [Disk.content?, Disk.file?, found]
    rfl
  have scan : scanSegment (d.read file) =
      ⟨(framed (between records last (records.length + 1))).length,
        if records.length < last then none else some records.length⟩ := by
    rw [text, scanSegment_framed (fun r member => h.filed.sized r (mem_of_mem_between member)) isTorn,
      getLast?_between h.filed (h.one_le last listed)]
  generalize hgood : framed (between records last (records.length + 1)) = good at text scan
  have opened : SegmentWriter.openAt d folder last good.length =
      (d.update file good, .ok ⟨last, file, [], good.length⟩) := by
    simp only [SegmentWriter.openAt, Disk.Tidy.create?_file found, text, List.take_left]
  have version : max ((if records.length < last then none else some records.length).getD (last - 1))
      acked = records.length := by
    have top := h.le_top last listed
    have acked := h.known
    split
    · rw [Option.getD_none]
      omega
    · rw [Option.getD_some]
      omega
  have rewritten : (d.update file good).read file = good :=
    Disk.read_update_same (h.tidy.bounded found) good
  refine ⟨d.update file good, ⟨last, file, [], good.length⟩, ?_, .update .., listed, greatest, found,
    rfl, by rw [rewritten], by rw [rewritten, hgood]⟩
  simp only [openNewest, List.getLast?_map, hlast, Option.map_some, content, scan, opened, version]

/-- **What is left of a queue is opened** behind what was acknowledged, with the records there are. -/
theorem intact_open {folder : Place} {acked : Nat} (h : Remains d folder ids records acked)
    (maxSize : Nat) :
    ∃ d' q ids', openIn d folder maxSize = (d', .ok q) ∧ (ids' <:+ ids ∧ Pruned ids' acked) ∧
      q.Intact d' ids' records ∧ (∀ file, q.held file = []) ∧ q.folder = folder ∧ q.maxSize = maxSize ∧
      q.writer.isSome ∧ q.lastAck = acked ∧ q.lastRead = acked := by
  obtain ⟨ackFile, ack_found, ack_read⟩ := h.ackFile
  have table : segmentsIn d folder = ids.map fun id => (id, segmentName id) :=
    segmentsIn_eq h.tidy h.ordered h.small h.only fun id listed => by
      obtain ⟨file, -, found, -⟩ := h.stored id listed
      exact ⟨file, found⟩
  obtain ⟨d₁, w, newest, changes, listed, greatest, place, empty, size, last⟩ := openNewest_eq h
  obtain ⟨reads, early⟩ := readIdFor_mem h.covers w.id
  generalize hread : readIdFor (ids.map fun id => (id, segmentName id)) acked w.id = readId at *
  generalize hq : (⟨folder, maxSize, ids.map fun id => (id, segmentName id), some w, readId, none,
    ackFile, records.length, acked, acked⟩ : Queue) = q₀
  have nothing (file : Nat) : q₀.held file = [] := by simp [← hq, held, empty]
  have text (file : Nat) : q₀.text d₁ file = d₁.read file := text_eq_read nothing d₁ file
  have lookup (p : Place) : d₁.lookup? p = d.lookup? p := changes.lookup? p
  have ack_other : ackFile ≠ w.file := fun same =>
    segmentName_ne_ackName w.id (h.tidy.single place (same ▸ ack_found))
  have fresh : q₀.Intact d₁ ids records := by
    subst hq
    refine ⟨h.tidy.onlyChanges changes, h.filed, rfl, h.known, h.known, (lookup _).trans ack_found, ?_,
      rfl, h.ordered, h.one_le, h.le_top, h.small, h.covers, fun found =>
      h.only ((lookup _).symm.trans found), ?_, ?_, readId - 1,
      reading_start d₁ rfl reads (h.one_le readId reads) (h.le_top readId reads), ?_⟩
    · exact (congrArg versionIn (changes.other ack_other)).trans ack_read
    · intro id member
      obtain ⟨file, torn, found, stored, -, whole⟩ := h.stored id member
      refine ⟨file, (lookup _).trans found, (text file).trans ?_⟩
      by_cases same : id = w.id
      · subst same
        obtain rfl : file = w.file := by simpa [found] using place
        rw [last, endOf_eq_top greatest]
      · have other : file ≠ w.file := fun eq => same (segmentName_inj (h.tidy.single (eq ▸ found) place))
        have before : id < w.id := Nat.lt_of_le_of_ne (greatest id member) same
        rw [changes.other other, stored, whole w.id listed before, List.append_nil]
    · rintro _ ⟨⟩
      exact ⟨listed, greatest, (lookup _).trans place,
        size.trans (congrArg List.length (text w.file).symm)⟩
    · exact .inl (by simp only; omega)
  obtain ⟨d', q', ids', pruned, kept, suffix, stop, intact⟩ := intact_prune fresh
  have held' (file : Nat) : q'.held file = [] := by rw [held, kept.writer]; exact nothing file
  subst hq
  refine ⟨d', q', ids', ?_, ⟨suffix, stop⟩, intact, held', kept.folder, kept.maxSize, by rw [kept.writer]; rfl,
    kept.lastAck, kept.lastRead⟩
  have made : d.makeFolders? folder = some d := if_pos h.tidy.isFolder
  simp only [openIn, made, Disk.Tidy.create?_file ack_found, ack_read, table, newest, hread, pruned]

/-- **A queue is opened for the first time**, in a folder with nothing in it, and is empty. -/
theorem intact_create {d₁ : Disk} {folder : Place} (made : d.makeFolders? folder = some d₁)
    (blank : d₁.Blank folder) (maxSize : Nat) :
    ∃ d' q ids, openIn d folder maxSize = (d', .ok q) ∧ q.Intact d' ids ([] : List (Record α)) ∧
      q.folder = folder ∧ q.maxSize = maxSize ∧ q.writer.isSome ∧ q.lastAck = 0 ∧ q.lastRead = 0 := by
  have tidy₁ := blank.tidy
  have nothing := blank.lookup?
  obtain ⟨d₂, created, tidy₂, length, unread, lookups⟩ :=
    tidy₁.create isName_ackName (nothing ackName)
  have ackFile : d₂.lookup? (folder ++ [ackName]) = some (.file d₁.contents.length) :=
    (lookups _).trans (if_pos rfl)
  have acked : versionIn (d₂.read d₁.contents.length) = 0 := by
    rw [unread, Disk.read_of_le (Nat.le_refl _), versionIn_nil]
  have table : segmentsIn d₂ folder = [] := by
    show segmentsIn d₂ folder = ([] : List Nat).map fun id => (id, segmentName id)
    refine segmentsIn_eq tidy₂ List.Pairwise.nil (by simp) (fun {name e} found => ?_) (by simp)
    rw [lookups, nothing] at found
    split at found
    · next ack => exact .inl (ack ▸ segmentId?_ackName)
    · cases found
  have one : d₂.lookup? (folder ++ [segmentName 1]) = none := by
    rw [lookups, if_neg (segmentName_ne_ackName 1), nothing]
  obtain ⟨d₃, -, opened, tidy₃, reads, lookups₃⟩ := openAt_new tidy₂ (by decide) one
  have unwritten : d₃.read d₂.contents.length = [] := by rw [reads, Disk.read_of_le (Nat.le_refl _)]
  have newest : openNewest d₂ folder [] 0 =
      (d₃, .ok ([(1, segmentName 1)], ⟨1, d₂.contents.length, [], 0⟩, 0)) := by
    simp only [openNewest, List.getLast?_nil, Nat.zero_add, opened, SegmentTable.set]
  have start : readIdFor [(1, segmentName 1)] 0 1 = 1 := rfl
  have ack_other : ackName ≠ segmentName 1 := (segmentName_ne_ackName 1).symm
  have fresh : Intact d₃ ⟨folder, maxSize, [(1, segmentName 1)], some ⟨1, d₂.contents.length, [], 0⟩, 1,
      none, d₁.contents.length, 0, 0, 0⟩ [1] ([] : List (Record α)) := by
    have text : Queue.text d₃ ⟨folder, maxSize, [(1, segmentName 1)],
        some ⟨1, d₂.contents.length, [], 0⟩, 1, none, d₁.contents.length, 0, 0, 0⟩
        d₂.contents.length = [] := by
      simp [Queue.text, held, unwritten]
    refine ⟨tidy₃, ⟨by simp, by simp⟩, rfl, Nat.le_refl _, Nat.le_refl _, ?_, ?_, rfl,
      List.pairwise_singleton .., by simp, by simp, by simp [UInt64.size], ⟨1, by simp⟩, ?_, ?_, ?_, 0,
      reading_start d₃ rfl (by simp) (Nat.le_refl _) (Nat.le_refl _), .inl (Nat.zero_le _)⟩
    · exact (lookups₃ _).trans ((if_neg ack_other).trans ackFile)
    · show versionIn (d₃.read d₁.contents.length) = 0
      rw [reads, acked]
    · intro name e found
      have found' := (lookups₃ name).symm.trans found
      split at found'
      · next named => exact .inr ⟨1, by simp, named⟩
      · rw [lookups, nothing] at found'
        split at found'
        · next ack => exact .inl (ack ▸ segmentId?_ackName)
        · cases found'
    · intro id member
      obtain rfl := List.mem_singleton.1 member
      refine ⟨d₂.contents.length, (lookups₃ _).trans (if_pos rfl), ?_⟩
      rw [text]
      rfl
    · rintro _ ⟨⟩
      refine ⟨by simp, by simp, (lookups₃ _).trans (if_pos rfl), ?_⟩
      rw [text]
      rfl
  obtain ⟨d', q', ids', pruned, kept, -, -, intact⟩ := intact_prune fresh
  refine ⟨d', q', ids', ?_, intact, kept.folder, kept.maxSize, by rw [kept.writer]; rfl, kept.lastAck,
    kept.lastRead⟩
  simp only [openIn, made, created, acked, table, newest, start, pruned]

end Queue

end Outbox
