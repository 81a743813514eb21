import Outbox.Proofs.Queue.Corruption
import Outbox.Proofs.Queue.Scanning

/-!
# Opening whatever there is

A queue is opened in any folder in which its files have their names, whatever these files hold. In the newest
segment the good frames at its head are kept and the rest is cut off. This settles everything: opening the
folder once more changes nothing and gives the same queue.

* `HasSegment` and `acknowledgedIn` look at a folder, and `Recoverable` are the folders in question;
* `exists_segmentIds` lists the segments, `openNewest_recovers` opens the newest one, and
  `pruneAlong_acknowledged` removes those that are not needed;
* `Queue.openIn_recoverable` opens a queue, and `Settled.openIn` says that it can be done again;
* `Queue.openIn_recovers` is the result.
-/

namespace Outbox

/-! ## A folder -/

/-- The acknowledged version in a folder, zero if none was written. -/
def acknowledgedIn (d : Disk) (folder : Place) : Nat :=
  ((d.content? (folder ++ [ackName])).map versionIn).getD 0

/-- There is a segment that begins with a version. -/
def HasSegment (d : Disk) (folder : Place) (id : Nat) : Prop :=
  id < UInt64.size ∧ ∃ file, d.lookup? (folder ++ [segmentName id]) = some (.file file)

/-- Files that can be taken for segments have the names of segments. -/
def ProperNames (d : Disk) (folder : Place) : Prop :=
  ∀ (name : String) (file id : Nat), d.lookup? (folder ++ [name]) = some (.file file) →
    segmentId? name = some id → name = segmentName id

/-- The names that files of a queue can have. -/
def HasOurName (name : String) : Prop :=
  name = ackName ∨ ∃ id < UInt64.size, name = segmentName id

/-- A folder in which a queue can be opened. Nothing is said of what its files hold, but that a version
follows the acknowledged one. -/
structure Recoverable (d : Disk) (folder : Place) : Prop where
  tidy : d.Tidy folder
  proper : ProperNames d folder
  /-- No folder is in the place of a file. -/
  files : ∀ {name : String}, HasOurName name → d.lookup? (folder ++ [name]) ≠ some .folder
  bounded : acknowledgedIn d folder + 1 < UInt64.size

theorem lt_of_segmentId? {name : String} {id : Nat} (h : segmentId? name = some id) : id < UInt64.size := by
  unfold segmentId? Decimal.readBelow? at h
  split at h
  · split at h
    · exact of_decide_eq_true (Option.filter_eq_some_iff.1 h).2
    · cases h
  · cases h

section Folder

variable {d d' : Disk} {folder : Place} {ids ids' : List Nat}

/-- A file is there, or nothing is. -/
theorem Recoverable.file_or_none (h : Recoverable d folder) {name : String} (ours : HasOurName name) :
    (∃ file, d.lookup? (folder ++ [name]) = some (.file file)) ∨ d.lookup? (folder ++ [name]) = none := by
  cases found : d.lookup? (folder ++ [name]) with
  | none => exact .inr rfl
  | some e =>
    cases e with
    | file file => exact .inl ⟨file, rfl⟩
    | folder => exact absurd found (h.files ours)

/-- The segments in a folder are listed in order. -/
theorem exists_segmentIds (tidy : d.Tidy folder) (proper : ProperNames d folder) :
    ∃ ids : List Nat, segmentsIn d folder = (ids.map fun id => (id, segmentName id)) ∧ ids.Pairwise (· < ·) ∧
      ∀ id, id ∈ ids ↔ HasSegment d folder id := by
  have named : ∀ child ∈ d.children folder, ∀ s, IsSegment child s → child.1 = segmentName s.1 := by
    rintro ⟨name, e⟩ member s ⟨⟨file, rfl⟩, found, -⟩
    exact proper name file s.1 (tidy.mem_children.1 member) found
  obtain ⟨sorted, mem⟩ := mem_foldl_noteSegment named (show SegmentTable.Sorted [] from List.Pairwise.nil)
    (by simp)
  rw [← segmentsIn_eq_foldl] at sorted mem
  have mem_iff (s : Nat × String) :
      s ∈ segmentsIn d folder ↔ HasSegment d folder s.1 ∧ s.2 = segmentName s.1 := by
    rw [mem]
    constructor
    · rintro (none_yet | ⟨⟨name, e⟩, member, is⟩)
      · simp at none_yet
      · have proper := named _ member s is
        obtain ⟨⟨file, rfl⟩, found, name_eq⟩ := is
        have there := tidy.mem_children.1 member
        simp only at proper found name_eq
        refine ⟨⟨lt_of_segmentId? found, file, by rwa [← proper]⟩, name_eq.trans proper⟩
    · rintro ⟨⟨small, file, found⟩, name_eq⟩
      exact .inr ⟨(segmentName s.1, .file file), tidy.mem_children.2 found, ⟨file, rfl⟩,
        segmentId?_segmentName small, name_eq⟩
  refine ⟨(segmentsIn d folder).map Prod.fst, ?_, List.pairwise_map.2 sorted, fun id => ?_⟩
  · rw [List.map_map]
    conv => lhs; rw [← List.map_id (segmentsIn d folder)]
    refine List.map_congr_left fun s member => ?_
    exact Prod.ext rfl ((mem_iff s).1 member).2
  · rw [List.mem_map]
    constructor
    · rintro ⟨s, member, rfl⟩
      exact ((mem_iff s).1 member).1
    · intro there
      exact ⟨(id, segmentName id), (mem_iff _).2 ⟨there, rfl⟩, rfl⟩

/-- Versions in order are known from which of them there are. -/
theorem eq_of_mem_iff (ordered : ids.Pairwise (· < ·)) (ordered' : ids'.Pairwise (· < ·))
    (same : ∀ id, id ∈ ids ↔ id ∈ ids') : ids = ids' :=
  have nodup {ids : List Nat} (ordered : ids.Pairwise (· < ·)) : ids.Nodup := ordered.imp Nat.ne_of_lt
  ((List.perm_ext_iff_of_nodup (nodup ordered) (nodup ordered')).2 same).eq_of_pairwise
    (fun _ _ _ _ less less' => by omega) ordered ordered'

/-- The segments in a folder are known if they are known by version. -/
theorem segmentsIn_of_mem_iff (tidy : d.Tidy folder) (proper : ProperNames d folder)
    (ordered : ids.Pairwise (· < ·)) (mem : ∀ id, id ∈ ids ↔ HasSegment d folder id) :
    segmentsIn d folder = ids.map fun id => (id, segmentName id) := by
  obtain ⟨ids', listed, ordered', mem'⟩ := exists_segmentIds tidy proper
  rw [listed, eq_of_mem_iff ordered' ordered fun id => (mem' id).trans (mem id).symm]

/-- Files keep their proper names if new ones have such names. -/
theorem ProperNames.mono (h : ProperNames d folder)
    (new : ∀ {name : String} {e : Entry}, d'.lookup? (folder ++ [name]) = some e →
      d.lookup? (folder ++ [name]) = some e ∨ HasOurName name) :
    ProperNames d' folder := by
  intro name file id found named
  rcases new found with old | rfl | ⟨id', small, rfl⟩
  · exact h name file id old named
  · rw [segmentId?_ackName] at named
    cases named
  · rw [segmentId?_segmentName small, Option.some.injEq] at named
    rw [named]

/-- The file of the acknowledged version is opened, or created with nothing in it, unless a folder is in its
place. -/
theorem create_ackFile (tidy : d.Tidy folder) (free : d.lookup? (folder ++ [ackName]) ≠ some .folder) :
    ∃ d' file, d.create? (folder ++ [ackName]) = some (d', file) ∧ d'.Tidy folder ∧
      d'.lookup? (folder ++ [ackName]) = some (.file file) ∧
      versionIn (d'.read file) = acknowledgedIn d folder ∧ (∀ file, d'.read file = d.read file) ∧
      ∀ name, name ≠ ackName → d'.lookup? (folder ++ [name]) = d.lookup? (folder ++ [name]) := by
  cases found : d.lookup? (folder ++ [ackName]) with
  | some e =>
    cases e with
    | folder => exact absurd found free
    | file file =>
      refine ⟨d, file, Disk.Tidy.create?_file found, tidy, found, ?_, fun _ => rfl, fun _ _ => rfl⟩
      simp [acknowledgedIn, Disk.content?, Disk.file?, found]
  | none =>
    obtain ⟨d', created, tidy', -, reads, lookups⟩ := tidy.create isName_ackName found
    refine ⟨d', _, created, tidy', (lookups _).trans (if_pos rfl), ?_, reads,
      fun name other => (lookups name).trans (if_neg other)⟩
    rw [reads, Disk.read_of_le (Nat.le_refl _)]
    simp [acknowledgedIn, Disk.content?, Disk.file?, found]

theorem Recoverable.create_ackFile (h : Recoverable d folder) :
    ∃ d' file, d.create? (folder ++ [ackName]) = some (d', file) ∧ d'.Tidy folder ∧ ProperNames d' folder ∧
      d'.lookup? (folder ++ [ackName]) = some (.file file) ∧
      versionIn (d'.read file) = acknowledgedIn d folder ∧ (∀ file, d'.read file = d.read file) ∧
      ∀ name, name ≠ ackName → d'.lookup? (folder ++ [name]) = d.lookup? (folder ++ [name]) := by
  obtain ⟨d', file, created, tidy, found, acked, reads, other⟩ := Outbox.create_ackFile h.tidy (h.files (.inl rfl))
  refine ⟨d', file, created, tidy, h.proper.mono fun {name e} there => ?_, found, acked, reads, other⟩
  by_cases same : name = ackName
  · exact .inr (.inl same)
  · exact .inl ((other name same).symm.trans there)

/-- A folder is in order if it holds nothing but files, each under one name. -/
theorem tidy_of_files (files : List (String × Nat)) (isFolder : d.lookup? folder = some .folder)
    (named : folder.all isName = true)
    (children : d.children folder = files.map fun f => (f.1, .file f.2)) (names : (files.map Prod.fst).Nodup)
    (single : (files.map Prod.snd).Nodup) (there : ∀ f ∈ files, f.2 < d.contents.length) :
    d.Tidy folder ∧ ∀ {name : String} {e : Entry},
      d.lookup? (folder ++ [name]) = some e ↔ ∃ f ∈ files, name = f.1 ∧ e = .file f.2 := by
  have distinct : ((d.children folder).map Prod.fst).Nodup := by
    rw [children, List.map_map]
    exact names
  have found {name : String} {e : Entry} :
      d.lookup? (folder ++ [name]) = some e ↔ ∃ f ∈ files, name = f.1 ∧ e = .file f.2 := by
    have listed : d.lookup? (folder ++ [name]) = some e ↔ (name, e) ∈ d.children folder := by
      rw [Disk.lookup?_child]
      exact ⟨Disk.mem_of_lookup, Disk.lookup_of_mem distinct⟩
    rw [listed, children, List.mem_map]
    simp only [Prod.mk.injEq, eq_comm]
  have alone : ∀ f ∈ files, ∀ f' ∈ files, f.2 = f'.2 → f = f' := by
    intro f member f' member' same
    obtain ⟨i, hi, rfl⟩ := List.mem_iff_getElem.1 member
    obtain ⟨j, hj, rfl⟩ := List.mem_iff_getElem.1 member'
    have differ := List.pairwise_iff_getElem.1 (List.pairwise_map.1 single)
    rcases Nat.lt_trichotomy i j with less | rfl | less
    · exact absurd same (differ i j hi hj less)
    · rfl
    · exact absurd same.symm (differ j i hj hi less)
  refine ⟨⟨isFolder, named, distinct, fun {name id} h => ?_, fun {a b id} ha hb => ?_⟩, found⟩
  · obtain ⟨f, member, -, is⟩ := found.1 h
    cases is
    exact there f member
  · obtain ⟨f, member, rfl, is⟩ := found.1 ha
    obtain ⟨f', member', rfl, is'⟩ := found.1 hb
    rw [alone f member f' member' (Entry.file.inj (is.symm.trans is'))]

/-- A queue can be opened in a folder that holds the acknowledged version and segments, each in a file of its
own. -/
theorem recoverable_of_children (folder : Place) (ack : Nat) (segments : List (Nat × Nat))
    (isFolder : d.lookup? folder = some .folder) (named : folder.all isName = true)
    (children : d.children folder =
      (ackName, .file ack) :: segments.map fun s => (segmentName s.1, .file s.2))
    (distinct : (segments.map Prod.fst).Nodup) (small : ∀ s ∈ segments, s.1 < UInt64.size)
    (files : (ack :: segments.map Prod.snd).Nodup)
    (there : ∀ file ∈ ack :: segments.map Prod.snd, file < d.contents.length)
    (bounded : acknowledgedIn d folder + 1 < UInt64.size) :
    Recoverable d folder ∧ ∀ id, HasSegment d folder id ↔ id ∈ segments.map Prod.fst := by
  obtain ⟨tidy, found⟩ := tidy_of_files
    ((ackName, ack) :: segments.map fun s => (segmentName s.1, s.2)) isFolder named
    (by rw [children, List.map_cons, List.map_map]; rfl)
    (by
      rw [List.map_cons, List.map_map, List.nodup_cons]
      constructor
      · rw [List.mem_map]
        rintro ⟨s, -, same⟩
        exact segmentName_ne_ackName s.1 same
      · refine List.pairwise_map.2 ((List.pairwise_map.1 distinct).imp fun other same => ?_)
        exact other (segmentName_inj same))
    (by rw [List.map_cons, List.map_map]; exact files)
    (fun f member => there f.2 (by
      rcases List.mem_cons.1 member with rfl | member
      · exact List.mem_cons_self
      · obtain ⟨s, listed, rfl⟩ := List.mem_map.1 member
        exact List.mem_cons_of_mem _ (List.mem_map_of_mem listed)))
  have listed {name : String} {e : Entry} : d.lookup? (folder ++ [name]) = some e ↔
      (name = ackName ∧ e = .file ack) ∨ ∃ s ∈ segments, name = segmentName s.1 ∧ e = .file s.2 := by
    rw [found]
    simp only [List.mem_cons, exists_eq_or_imp]
    refine or_congr_right ⟨?_, ?_⟩
    · rintro ⟨f, member, named, is⟩
      obtain ⟨s, listed, rfl⟩ := List.mem_map.1 member
      exact ⟨s, listed, named, is⟩
    · rintro ⟨s, listed, named, is⟩
      exact ⟨_, List.mem_map_of_mem listed, named, is⟩
  refine ⟨⟨tidy, fun name file id h proper => ?_, fun {name} _ h => ?_, bounded⟩, fun id => ?_⟩
  · rcases listed.1 h with ⟨rfl, -⟩ | ⟨s, member, rfl, -⟩
    · rw [segmentId?_ackName] at proper
      cases proper
    · rw [segmentId?_segmentName (small s member), Option.some.injEq] at proper
      rw [proper]
  · rcases listed.1 h with ⟨-, is⟩ | ⟨s, -, -, is⟩ <;> cases is
  · rw [List.mem_map]
    constructor
    · rintro ⟨-, file, h⟩
      rcases listed.1 h with ⟨named, -⟩ | ⟨s, member, named, -⟩
      · exact absurd named (segmentName_ne_ackName id)
      · exact ⟨s, member, (segmentName_inj named).symm⟩
    · rintro ⟨s, member, rfl⟩
      exact ⟨small s member, s.2, listed.2 (.inr ⟨s, member, rfl, rfl⟩)⟩

end Folder

/-! ## The newest segment -/

namespace Queue

/-- A writer is at the end of the newest segment, which holds these good frames and nothing else. -/
structure AtEnd (d : Disk) (folder : Place) (ids : List Nat) (w : SegmentWriter)
    (payloads : List (List UInt8)) : Prop where
  newest : ids.getLast? = some w.id
  place : d.lookup? (folder ++ [segmentName w.id]) = some (.file w.file)
  content : d.read w.file = frames payloads
  counts : ∀ payload ∈ payloads, Frame.Counts payload
  buffer : w.buffer = []
  size : w.size = (frames payloads).length

/-- The last version put into a queue that was opened: that of the last record of the newest segment, or the
one before the segment if it is empty, or the acknowledged one if that is greater. -/
def lastPutOf (id acked : Nat) (payloads : List (List UInt8)) : Nat :=
  max ((payloads.getLast?.bind Record.version?).getD (id - 1)) acked

variable {d d' : Disk} {folder : Place} {ids ids' : List Nat} {acked : Nat} {w : SegmentWriter}
  {payloads : List (List UInt8)}

/-- The newest segment is opened again as it is. -/
theorem AtEnd.openNewest (h : AtEnd d folder ids w payloads) (acked : Nat) :
    openNewest d folder (ids.map fun id => (id, segmentName id)) acked =
      (d, .ok (ids.map fun id => (id, segmentName id), w, lastPutOf w.id acked payloads)) := by
  have content := Disk.content?_eq_some_iff.2 ⟨w.file, h.place, h.content⟩
  have scan := scanSegment_good (goodFrames_frames h.counts)
  have opened : SegmentWriter.openAt d folder w.id (frames payloads).length = (d, .ok w) := by
    have whole : d.update w.file ((d.read w.file).take (frames payloads).length) = d := by
      rw [h.content, List.take_length, ← h.content, Disk.update_read]
    have same : w = ⟨w.id, w.file, [], (frames payloads).length⟩ := by rw [← h.buffer, ← h.size]
    simp only [SegmentWriter.openAt, Disk.Tidy.create?_file h.place, whole, ← same]
  simp only [Queue.openNewest, List.getLast?_map, h.newest, Option.map_some, content, scan, opened, lastPutOf]

/-- The greatest of some numbers in order is the last. -/
theorem le_getLast (ordered : ids.Pairwise (· < ·)) {last : Nat} (h : ids.getLast? = some last) :
    ∀ id ∈ ids, id ≤ last := by
  obtain ⟨front, rfl⟩ := List.getLast?_eq_some_iff.1 h
  intro id member
  rcases List.mem_append.1 member with before | same
  · exact Nat.le_of_lt ((List.pairwise_append.1 ordered).2.2 id before last (by simp))
  · exact Nat.le_of_eq (List.mem_singleton.1 same)

/-- **The newest segment is opened**, whatever it holds: its good frames are kept, and nothing else changes in
the folder. Where there is no segment, an empty one is created. -/
theorem openNewest_recovers (tidy : d.Tidy folder) (proper : ProperNames d folder)
    (free : ids = [] → acked + 1 < UInt64.size ∧ d.lookup? (folder ++ [segmentName (acked + 1)]) = none)
    (ordered : ids.Pairwise (· < ·)) (mem : ∀ id, id ∈ ids ↔ HasSegment d folder id) :
    ∃ d' ids' w payloads, openNewest d folder (ids.map fun id => (id, segmentName id)) acked =
        (d', .ok (ids'.map fun id => (id, segmentName id), w, lastPutOf w.id acked payloads)) ∧
      AtEnd d' folder ids' w payloads ∧
      GoodFrames ((d.content? (folder ++ [segmentName w.id])).getD []) payloads ∧
      (ids' = ids ∨ ids = [] ∧ ids' = [acked + 1]) ∧
      d'.Tidy folder ∧ ProperNames d' folder ∧ (∀ id, id ∈ ids' ↔ HasSegment d' folder id) ∧
      (∀ name, name ≠ segmentName w.id → d'.lookup? (folder ++ [name]) = d.lookup? (folder ++ [name])) ∧
      ∀ file, file ≠ w.file → d'.read file = d.read file := by
  cases last : ids.getLast? with
  | none =>
    obtain rfl := List.getLast?_eq_none_iff.1 last
    obtain ⟨small, free⟩ := free rfl
    obtain ⟨d', -, opened, tidy', reads, lookups⟩ := openAt_new tidy small free
    have place : d'.lookup? (folder ++ [segmentName (acked + 1)]) = some (.file d.contents.length) :=
      (lookups _).trans (if_pos rfl)
    have nothing : d'.read d.contents.length = [] := by rw [reads, Disk.read_of_le (Nat.le_refl _)]
    refine ⟨d', [acked + 1], ⟨acked + 1, d.contents.length, [], 0⟩, [], ?_, ?_, ?_, .inr ⟨rfl, rfl⟩, tidy',
      proper.mono fun {name e} found => ?_, ?_,
      fun name other => (lookups name).trans (if_neg other), fun file _ => reads file⟩
    · simp [Queue.openNewest, opened, SegmentTable.set, lastPutOf]
    · exact ⟨rfl, place, nothing, by simp, rfl, rfl⟩
    · have none_there : d.content? (folder ++ [segmentName (acked + 1)]) = none := by
        simp [Disk.content?, Disk.file?, free]
      rw [none_there]
      exact goodFrames_nil
    · rw [lookups] at found
      split at found
      · next named => exact .inr (.inr ⟨acked + 1, small, named⟩)
      · exact .inl found
    · intro id
      rw [List.mem_singleton]
      constructor
      · rintro rfl
        exact ⟨small, _, place⟩
      · rintro ⟨small', file, found⟩
        rw [lookups] at found
        split at found
        · next same => exact segmentName_inj same
        · exact absurd ((mem id).2 ⟨small', file, found⟩) List.not_mem_nil
  | some id =>
    obtain ⟨small, file, place⟩ := (mem id).1 (List.mem_of_getLast? last)
    have content : d.content? (folder ++ [segmentName id]) = some (d.read file) :=
      Disk.content?_eq_some_iff.2 ⟨file, place, rfl⟩
    obtain ⟨payloads, good⟩ := exists_goodFrames (d.read file)
    have opened : SegmentWriter.openAt d folder id (frames payloads).length =
        (d.update file (frames payloads), .ok ⟨id, file, [], (frames payloads).length⟩) := by
      simp only [SegmentWriter.openAt, Disk.Tidy.create?_file place, good.take_length]
    refine ⟨d.update file (frames payloads), ids, ⟨id, file, [], (frames payloads).length⟩, payloads, ?_, ?_,
      by rwa [content], .inl rfl, tidy.update _ _, proper, mem, fun _ _ => rfl,
      fun other different => Disk.read_update_other (Ne.symm different) _⟩
    · simp only [Queue.openNewest, List.getLast?_map, last, Option.map_some, content, scanSegment_good good,
        opened, lastPutOf]
    · exact ⟨last, place, Disk.read_update_same (tidy.bounded place) _, good.counts, rfl, rfl⟩

/-! ## Segments that are not needed -/

/-- The reader begins in the same segment without the first one, if the second holds the next version or an
earlier one. -/
theorem readIdFor_of_done {id next : Nat} {rest : List Nat} (less : id < next) (done : next ≤ acked + 1)
    (newest : Nat) :
    readIdFor ((id :: next :: rest).map fun id => (id, segmentName id)) acked newest =
      readIdFor ((next :: rest).map fun id => (id, segmentName id)) acked newest := by
  have first : id ≤ acked + 1 := by omega
  unfold readIdFor
  simp only [List.map_map, List.map_cons, Function.comp_def, List.map_id', List.filter_cons, first, done,
    decide_true, if_true, List.getLast?_cons_cons]
  rw [List.getLast?_cons]

/-- The reader begins in a segment that there is, if the newest one is. -/
theorem readIdFor_listed {newest : Nat} (listed : newest ∈ ids) (acked : Nat) :
    readIdFor (ids.map fun id => (id, segmentName id)) acked newest ∈ ids := by
  unfold readIdFor
  simp only [List.map_map, Function.comp_def, List.map_id']
  split
  · next id _ found => exact (List.mem_filter.1 (List.mem_of_getLast? found)).1
  · next id _ found => exact List.mem_of_head? found
  · exact listed

/-- Segments are removed from a folder, at the head of the list. -/
structure Released (d d' : Disk) (folder : Place) (ids ids' : List Nat) : Prop where
  suffix : ids' <:+ ids
  last : ids'.getLast? = ids.getLast?
  tidy : d'.Tidy folder
  contents : d'.contents = d.contents
  gone : ∀ id ∈ ids, id ∉ ids' → d'.lookup? (folder ++ [segmentName id]) = none
  kept : ∀ name, (∀ id ∈ ids, id ∉ ids' → name ≠ segmentName id) →
    d'.lookup? (folder ++ [name]) = d.lookup? (folder ++ [name])

theorem released_refl (tidy : d.Tidy folder) (ids : List Nat) : Released d d folder ids ids :=
  ⟨List.suffix_refl _, rfl, tidy, rfl, fun _ listed removed => absurd listed removed, fun _ _ => rfl⟩

namespace Released

theorem read (h : Released d d' folder ids ids') (file : Nat) : d'.read file = d.read file := by
  rw [Disk.read, Disk.read, h.contents]

/-- A segment that is left is where it was. -/
theorem lookup?_of_mem (h : Released d d' folder ids ids') {id : Nat} (left : id ∈ ids') :
    d'.lookup? (folder ++ [segmentName id]) = d.lookup? (folder ++ [segmentName id]) := by
  refine h.kept _ fun id' _ removed same => removed ?_
  rwa [← segmentName_inj same]

theorem lookup?_ackName (h : Released d d' folder ids ids') :
    d'.lookup? (folder ++ [ackName]) = d.lookup? (folder ++ [ackName]) :=
  h.kept _ fun id _ _ => (segmentName_ne_ackName id).symm

theorem lookup?_of_some (h : Released d d' folder ids ids') {name : String} {e : Entry}
    (found : d'.lookup? (folder ++ [name]) = some e) : d.lookup? (folder ++ [name]) = some e := by
  rw [← h.kept name, found]
  rintro id listed removed rfl
  rw [h.gone id listed removed] at found
  cases found

/-- Exactly the segments that are left are in the folder. -/
theorem mem_iff (h : Released d d' folder ids ids') (mem : ∀ id, id ∈ ids ↔ HasSegment d folder id) (id : Nat) :
    id ∈ ids' ↔ HasSegment d' folder id := by
  constructor
  · intro left
    obtain ⟨small, file, found⟩ := (mem id).1 (h.suffix.subset left)
    exact ⟨small, file, (h.lookup?_of_mem left).trans found⟩
  · rintro ⟨small, file, found⟩
    refine Classical.byContradiction fun removed => ?_
    rw [h.gone id ((mem id).2 ⟨small, file, h.lookup?_of_some found⟩) removed] at found
    cases found

theorem proper (h : Released d d' folder ids ids') (proper : ProperNames d folder) : ProperNames d' folder :=
  proper.mono fun found => .inl (h.lookup?_of_some found)

/-- The newest segment is left. -/
theorem atEnd (h : Released d d' folder ids ids') (atEnd : AtEnd d folder ids w payloads) :
    AtEnd d' folder ids' w payloads := by
  have newest : ids'.getLast? = some w.id := h.last.trans atEnd.newest
  exact ⟨newest, (h.lookup?_of_mem (List.mem_of_getLast? newest)).trans atEnd.place,
    (h.read _).trans atEnd.content, atEnd.counts, atEnd.buffer, atEnd.size⟩

end Released

/-- Nothing is removed where nothing is to be removed. -/
theorem pruneAlong_of_pruned {q : Queue} (stop : Pruned ids q.lastAck) (d : Disk) :
    q.pruneAlong d (ids.map fun id => (id, segmentName id)) = ⟨d, q, .ok ()⟩ := by
  match ids with
  | [] | [_] => rfl
  | _ :: next :: rest => exact if_pos (stop next rest rfl)

/-- The reader never begins in a segment that is not needed. -/
theorem ne_readIdFor_of_done {id next : Nat} {rest : List Nat} (ordered : (id :: next :: rest).Pairwise (· < ·))
    (done : next ≤ acked + 1) (newest : Nat) :
    readIdFor ((id :: next :: rest).map fun id => (id, segmentName id)) acked newest ≠ id := by
  obtain ⟨less, ordered⟩ := List.pairwise_cons.1 ordered
  have listed : readIdFor ((next :: rest).map fun id => (id, segmentName id)) acked newest ∈ next :: rest :=
    (readIdFor_mem ⟨next, List.mem_cons_self, done⟩ newest).1
  rw [readIdFor_of_done (less next List.mem_cons_self) done]
  exact (Nat.ne_of_lt (less _ listed)).symm

/-- What is not needed is removed from the head of the table, and the reader stays where it is. -/
theorem pruneAlong_acknowledged {q : Queue} {newest : Nat} (tidy : d.Tidy q.folder)
    (table : q.segments = ids.map fun id => (id, segmentName id)) (ordered : ids.Pairwise (· < ·))
    (stored : ∀ id ∈ ids, ∃ file, d.lookup? (q.folder ++ [segmentName id]) = some (.file file))
    (reads : q.readId = readIdFor q.segments q.lastAck newest) :
    ∃ d' ids', q.pruneAlong d q.segments =
        ⟨d', { q with segments := ids'.map fun id => (id, segmentName id) }, .ok ()⟩ ∧
      Released d d' q.folder ids ids' ∧ Pruned ids' q.lastAck ∧
      q.readId = readIdFor (ids'.map fun id => (id, segmentName id)) q.lastAck newest := by
  induction ids generalizing d q with
  | nil =>
    have stop : Pruned [] q.lastAck := fun _ _ tail => by cases tail
    exact ⟨d, [], by rw [table, pruneAlong_of_pruned stop, ← table], released_refl tidy _, stop,
      table ▸ reads⟩
  | cons id ids ih =>
    by_cases stop : Pruned (id :: ids) q.lastAck
    · exact ⟨d, id :: ids, by rw [table, pruneAlong_of_pruned stop, ← table], released_refl tidy _, stop,
        table ▸ reads⟩
    obtain ⟨next, rest, rfl, done⟩ : ∃ next rest, ids = next :: rest ∧ next ≤ q.lastAck + 1 := by
      simpa [Pruned] using stop
    obtain ⟨file, found⟩ := stored id List.mem_cons_self
    obtain ⟨d₁, removed, tidy₁, contents, lookups⟩ := tidy.unlink found
    obtain ⟨less, ordered'⟩ := List.pairwise_cons.1 ordered
    have elsewhere : q.readId ≠ id := by
      rw [reads, table]
      exact ne_readIdFor_of_done ordered done newest
    have table' : (q.segments.filter fun s => s.1 ≠ id) =
        (next :: rest).map fun id => (id, segmentName id) := by
      rw [table, List.map_cons, List.filter_cons_of_neg (by simp), List.filter_eq_self]
      intro s member
      obtain ⟨id', member', rfl⟩ := List.mem_map.1 member
      have := less id' member'
      simp only [ne_eq, decide_eq_true_eq]
      omega
    have first : q.removeSegment d id next (segmentName id) =
        ⟨d₁, { q with segments := (next :: rest).map fun id => (id, segmentName id) }, .ok ()⟩ := by
      simp only [removeSegment, elsewhere, if_false, removed, table']
    have other {id' : Nat} (member : id' ∈ next :: rest) : segmentName id' ≠ segmentName id := fun same => by
      have := less id' member
      have := segmentName_inj same
      omega
    obtain ⟨d', ids', pruned, released, stop', reads'⟩ := ih (d := d₁)
      (q := { q with segments := (next :: rest).map fun id => (id, segmentName id) }) tidy₁ rfl ordered'
      (fun id' member => by
        obtain ⟨file', found'⟩ := stored id' (List.mem_cons_of_mem _ member)
        exact ⟨file', by rw [lookups, if_neg (other member), found']⟩)
      (by rw [reads, table, readIdFor_of_done (less next List.mem_cons_self) done])
    have gone : id ∉ ids' := fun member =>
      absurd (less id (released.suffix.subset member)) (Nat.lt_irrefl id)
    refine ⟨d', ids', ?_, ⟨released.suffix.trans (List.suffix_cons _ _), ?_, released.tidy,
      released.contents.trans contents, ?_, ?_⟩, stop', reads'⟩
    · rw [table, List.map_cons, List.map_cons, pruneAlong, if_neg (by omega), first]
      exact pruned
    · rw [released.last, List.getLast?_cons_cons]
    · intro id' member removed'
      rcases List.mem_cons.1 member with rfl | member
      · rw [released.kept _ fun id'' member _ => (other member).symm, lookups, if_pos rfl]
      · exact released.gone id' member removed'
    · intro name other'
      rw [released.kept name fun id' member removed' => other' id' (List.mem_cons_of_mem _ member) removed',
        lookups, if_neg (other' id List.mem_cons_self gone)]

/-! ## Opening -/

/-- A queue that was just opened: nothing was read, nothing is held back, and nothing is left to be done in
its folder. -/
structure Settled (d : Disk) (q : Queue) (ids : List Nat) (w : SegmentWriter) (payloads : List (List UInt8)) :
    Prop where
  tidy : d.Tidy q.folder
  proper : ProperNames d q.folder
  ackFile : d.lookup? (q.folder ++ [ackName]) = some (.file q.ackFile)
  acked : versionIn (d.read q.ackFile) = q.lastAck
  table : q.segments = ids.map fun id => (id, segmentName id)
  ordered : ids.Pairwise (· < ·)
  mem : ∀ id, id ∈ ids ↔ HasSegment d q.folder id
  stop : Pruned ids q.lastAck
  writer : q.writer = some w
  atEnd : AtEnd d q.folder ids w payloads
  lastPut : q.lastPut = lastPutOf w.id q.lastAck payloads
  lastRead : q.lastRead = q.lastAck
  reader : q.reader = none
  readId : q.readId = readIdFor q.segments q.lastAck w.id

/-- **A queue that was just opened is opened again** as it is. -/
theorem Settled.openIn {q : Queue} (h : Settled d q ids w payloads) (maxSize : Nat) :
    openIn d q.folder maxSize = (d, .ok { q with maxSize }) := by
  have made : d.makeFolders? q.folder = some d := if_pos h.tidy.isFolder
  have segments := segmentsIn_of_mem_iff h.tidy h.proper h.ordered h.mem
  have same : { q with maxSize } = (⟨q.folder, maxSize, ids.map fun id => (id, segmentName id), some w,
      readIdFor (ids.map fun id => (id, segmentName id)) q.lastAck w.id, none, q.ackFile,
      lastPutOf w.id q.lastAck payloads, q.lastAck, q.lastAck⟩ : Queue) := by
    rw [← h.table, ← h.writer, ← h.readId, ← h.reader, ← h.lastPut]
    congr 1
    exact h.lastRead
  have pruned := pruneAlong_of_pruned (q := { q with maxSize }) h.stop d
  rw [same] at pruned ⊢
  simp only [Queue.openIn, made, Disk.Tidy.create?_file h.ackFile, h.acked, segments,
    h.atEnd.openNewest q.lastAck, prune, pruned]

/-- Dropping a queue that was just opened leaves the disk as it is. -/
theorem Settled.drop {q : Queue} (h : Settled d q ids w payloads) : q.drop d = d := by
  have handed := SegmentWriter.flush_of_empty (d := d) h.atEnd.buffer
  simp only [Queue.drop, flush, h.writer, handed]

/-- The segment in which a queue goes on: the newest one in a folder, or else a new one behind the
acknowledged version. -/
def IsNewest (d : Disk) (folder : Place) (id : Nat) : Prop :=
  (HasSegment d folder id ∧ ∀ id', HasSegment d folder id' → id' ≤ id) ∨
    (id = acknowledgedIn d folder + 1 ∧ ∀ id', ¬ HasSegment d folder id')

theorem IsNewest.eq {id id' : Nat} (h : IsNewest d folder id)
    (newest : HasSegment d folder id' ∧ ∀ id, HasSegment d folder id → id ≤ id') : id = id' := by
  rcases h with ⟨there, greatest⟩ | ⟨-, nothing⟩
  · exact Nat.le_antisymm (newest.2 id there) (greatest id' newest.1)
  · exact absurd newest.1 (nothing id')

/-- What opening a queue in a folder does: of the newest segment it keeps the good frames, and of the other
segments the last ones as they are. -/
structure Recovers (d : Disk) (folder : Place) (d' : Disk) (q : Queue) (ids : List Nat) (w : SegmentWriter)
    (payloads : List (List UInt8)) : Prop where
  settled : Settled d' q ids w payloads
  place : q.folder = folder
  lastAck : q.lastAck = acknowledgedIn d folder
  newest : IsNewest d folder w.id
  good : GoodFrames ((d.content? (folder ++ [segmentName w.id])).getD []) payloads
  others : ∀ id ∈ ids, id ≠ w.id →
    d'.content? (folder ++ [segmentName id]) = d.content? (folder ++ [segmentName id])
  /-- The reader begins where it would with all segments. -/
  kept : ∀ ids₀ : List Nat, ids₀ ≠ [] → ids₀.Pairwise (· < ·) → (∀ id, id ∈ ids₀ ↔ HasSegment d folder id) →
    ids <:+ ids₀ ∧ q.readId = readIdFor (ids₀.map fun id => (id, segmentName id)) q.lastAck w.id

/-- **A queue is opened in any folder in which its files have their names**, with what the folder holds. -/
theorem openIn_recoverable (h : Recoverable d folder) (maxSize : Nat) :
    ∃ d' q ids w payloads, openIn d folder maxSize = (d', .ok q) ∧ q.maxSize = maxSize ∧
      Recovers d folder d' q ids w payloads := by
  obtain ⟨d₁, ackFile, created, tidy₁, proper₁, ack_found, acked, reads₁, lookups₁⟩ := h.create_ackFile
  have segment (id : Nat) : d₁.lookup? (folder ++ [segmentName id]) = d.lookup? (folder ++ [segmentName id]) :=
    lookups₁ _ (segmentName_ne_ackName id)
  have has (id : Nat) : HasSegment d₁ folder id ↔ HasSegment d folder id := by
    rw [HasSegment, segment, HasSegment]
  have content (id : Nat) :
      d₁.content? (folder ++ [segmentName id]) = d.content? (folder ++ [segmentName id]) := by
    rw [Disk.content?, Disk.content?, Disk.file?, Disk.file?, segment, show d₁.read = d.read from funext reads₁]
  obtain ⟨ids₁, listed, ordered₁, mem₁⟩ := exists_segmentIds tidy₁ proper₁
  have free (none_there : ids₁ = []) : acknowledgedIn d folder + 1 < UInt64.size ∧
      d₁.lookup? (folder ++ [segmentName (acknowledgedIn d folder + 1)]) = none := by
    refine ⟨h.bounded, ?_⟩
    rw [segment]
    rcases h.file_or_none (.inr ⟨acknowledgedIn d folder + 1, h.bounded, rfl⟩) with found | nothing
    · have member := (mem₁ _).2 ((has _).2 ⟨h.bounded, found⟩)
      rw [none_there] at member
      cases member
    · exact nothing
  obtain ⟨d₂, ids₂, w, payloads, opened, atEnd₂, good, same_ids, tidy₂, proper₂, mem₂, lookups₂, reads₂⟩ :=
    openNewest_recovers tidy₁ proper₁ free ordered₁ mem₁
  have ordered₂ : ids₂.Pairwise (· < ·) := by
    rcases same_ids with rfl | ⟨-, rfl⟩
    · exact ordered₁
    · exact List.pairwise_singleton ..
  obtain ⟨d', ids, pruned, released, stop, reads⟩ := pruneAlong_acknowledged
    (q := ⟨folder, maxSize, ids₂.map fun id => (id, segmentName id), some w,
      readIdFor (ids₂.map fun id => (id, segmentName id)) (acknowledgedIn d folder) w.id, none, ackFile,
      lastPutOf w.id (acknowledgedIn d folder) payloads, acknowledgedIn d folder, acknowledgedIn d folder⟩)
    tidy₂ rfl ordered₂ (fun id member => ((mem₂ id).1 member).2) rfl
  dsimp only at released stop reads pruned
  have made : d.makeFolders? folder = some d := if_pos h.tidy.isFolder
  have atEnd := released.atEnd atEnd₂
  have ack_other : ackName ≠ segmentName w.id := (segmentName_ne_ackName w.id).symm
  have ack_found' : d'.lookup? (folder ++ [ackName]) = some (.file ackFile) := by
    rw [released.lookup?_ackName, lookups₂ _ ack_other, ack_found]
  have ack_file : ackFile ≠ w.file := fun same =>
    ack_other (released.tidy.single (same ▸ ack_found') atEnd.place)
  refine ⟨d', ⟨folder, maxSize, ids.map fun id => (id, segmentName id), some w,
      readIdFor (ids₂.map fun id => (id, segmentName id)) (acknowledgedIn d folder) w.id, none, ackFile,
      lastPutOf w.id (acknowledgedIn d folder) payloads, acknowledgedIn d folder, acknowledgedIn d folder⟩,
    ids, w, payloads, ?_, rfl, ⟨released.tidy, released.proper proper₂, ack_found', ?_, rfl,
    ordered₂.sublist released.suffix.sublist, released.mem_iff mem₂, stop, rfl, atEnd, rfl, rfl, rfl, reads⟩,
    rfl, rfl, ?_, by rwa [← content], ?_, ?_⟩
  · simp only [openIn, made, created, acked, listed, opened, prune, pruned]
  · rw [released.read, reads₂ _ ack_file, acked]
  · -- the newest segment was there, or none was
    rcases same_ids with rfl | ⟨rfl, rfl⟩
    · have newest := atEnd₂.newest
      exact .inl ⟨(has _).1 ((mem₁ _).1 (List.mem_of_getLast? newest)), fun id there =>
        le_getLast ordered₁ newest id ((mem₁ id).2 ((has id).2 there))⟩
    · refine .inr ⟨Option.some.inj atEnd₂.newest.symm, fun id there => ?_⟩
      exact absurd ((mem₁ id).2 ((has id).2 there)) List.not_mem_nil
  · intro id member other
    have name : segmentName id ≠ segmentName w.id := fun same => other (segmentName_inj same)
    obtain ⟨-, file, found⟩ := (mem₂ id).1 (released.suffix.subset member)
    have file_other : file ≠ w.file := fun same => name (tidy₂.single (same ▸ found) atEnd₂.place)
    rw [← content, Disk.content?, Disk.content?, Disk.file?, Disk.file?, released.lookup?_of_mem member,
      ← lookups₂ _ name, found]
    exact congrArg some ((released.read file).trans (reads₂ file file_other))
  · intro ids₀ some_there ordered₀ mem₀
    have same : ids₀ = ids₁ := eq_of_mem_iff ordered₀ ordered₁ fun id =>
      (mem₀ id).trans ((has id).symm.trans (mem₁ id).symm)
    rcases same_ids with rfl | ⟨none_there, -⟩
    · exact ⟨same ▸ released.suffix, by rw [same]⟩
    · exact absurd (same.trans none_there) some_there

/-- **Recovery is total, and once is enough.** In any folder in which its files have their names a queue is
opened, whatever these files hold. It goes on in the newest segment, of which the good frames at its head are
kept: the longest sequence of complete frames with the right checksum and a version. The last version is that
of the last of them, or else the one before the segment, or the acknowledged one if that is greater. Dropped
and opened again it is the same queue on the same disk, but for the limit that it is opened with. -/
theorem openIn_recovers (h : Recoverable d folder) (maxSize : Nat) :
    ∃ d' q w payloads, openIn d folder maxSize = (d', .ok q) ∧ q.maxSize = maxSize ∧ q.writer = some w ∧
      IsNewest d folder w.id ∧
      GoodFrames ((d.content? (folder ++ [segmentName w.id])).getD []) payloads ∧
      d'.content? (folder ++ [segmentName w.id]) = some (frames payloads) ∧
      q.lastAck = acknowledgedIn d folder ∧
      q.lastPut = max ((payloads.getLast?.bind Record.version?).getD (w.id - 1)) q.lastAck ∧
      q.segments = segmentsIn d' folder ∧
      q.drop d' = d' ∧ ∀ limit, openIn d' folder limit = (d', .ok { q with maxSize := limit }) := by
  obtain ⟨d', q, ids, w, payloads, opened, limit, recovers⟩ := openIn_recoverable h maxSize
  have settled := recovers.settled
  obtain rfl := recovers.place
  have content := Disk.content?_eq_some_iff.2 ⟨w.file, settled.atEnd.place, settled.atEnd.content⟩
  refine ⟨d', q, w, payloads, opened, limit, settled.writer, recovers.newest, recovers.good, content,
    recovers.lastAck, settled.lastPut, ?_, settled.drop, settled.openIn⟩
  rw [settled.table, segmentsIn_of_mem_iff settled.tidy settled.proper settled.ordered settled.mem]

/-- A folder in disorder. The file of the acknowledged version is too short, a segment is empty, and in the
newest one a frame is damaged and the last one incomplete. -/
def disorderedFolder : Disk where
  entries := [(["queue"], .folder), (["queue", ackName], .file 0), (["queue", segmentName 1], .file 1),
    (["queue", segmentName 3], .file 2)]
  contents := [[7, 7], [], framed [(⟨"c", 3, 5⟩ : Record String)] ++
      (framed [(⟨"d", 4, 5⟩ : Record String)]).dropLast ++ [11] ++
        (framed [(⟨"e", 5, 5⟩ : Record String)]).take 30]

theorem recoverable_disorderedFolder : Recoverable disorderedFolder ["queue"] :=
  (recoverable_of_children ["queue"] 0 [(1, 1), (3, 2)] rfl (by decide) rfl (by decide) (by decide)
    (by decide) (by decide) (by decide)).1

/-- It is opened with one record in the newest segment, and opened again as it is. -/
theorem openIn_recovers_disordered : ∃ d q, openIn disorderedFolder ["queue"] 1 = (d, .ok q) ∧
    q.lastPut = 3 ∧ d.content? ["queue", segmentName 3] = some (framed [(⟨"c", 3, 5⟩ : Record String)]) ∧
      openIn d ["queue"] 7 = (d, .ok { q with maxSize := 7 }) := by
  have facts : (openIn disorderedFolder ["queue"] 1).2.toOption.map (fun q => (q.lastPut,
      (openIn disorderedFolder ["queue"] 1).1.content? ["queue", segmentName 3])) =
      some (3, some (framed [(⟨"c", 3, 5⟩ : Record String)])) := by decide +kernel
  obtain ⟨d, q, -, -, opened, -, -, -, -, -, -, -, -, -, again⟩ :=
    openIn_recovers recoverable_disorderedFolder 1
  simp only [opened, Except.toOption, Option.map_some, Option.some.injEq, Prod.mk.injEq] at facts
  exact ⟨d, q, opened, facts.1, facts.2, again 7⟩

end Queue

end Outbox
