import Outbox.Proofs.Queue.Layout

/-!
# Acknowledging

A segment is removed when the next one begins at or before the first version that is not
acknowledged. Nothing is lost by that but what was acknowledged, and the reader goes on behind it.

* `intact_removeSegment` and `intact_prune` remove segments;
* `intact_ack_new` and `intact_ack` acknowledge.
-/

namespace Outbox.Queue

variable {α : Type} [Storable α] {d : Disk} {q : Queue} {ids : List Nat}
  {records : List (Record α)}

/-- What removing segments leaves as it was. -/
structure Kept (q q' : Queue) : Prop where
  folder : q'.folder = q.folder
  maxSize : q'.maxSize = q.maxSize
  writer : q'.writer = q.writer
  ackFile : q'.ackFile = q.ackFile
  lastPut : q'.lastPut = q.lastPut
  lastRead : q'.lastRead = q.lastRead
  lastAck : q'.lastAck = q.lastAck

theorem Kept.refl (q : Queue) : q.Kept q :=
  ⟨rfl, rfl, rfl, rfl, rfl, rfl, rfl⟩

theorem Kept.trans {q q' q'' : Queue} (h : q.Kept q') (h' : q'.Kept q'') : q.Kept q'' :=
  ⟨h'.folder.trans h.folder, h'.maxSize.trans h.maxSize, h'.writer.trans h.writer,
    h'.ackFile.trans h.ackFile, h'.lastPut.trans h.lastPut, h'.lastRead.trans h.lastRead,
    h'.lastAck.trans h.lastAck⟩

/-- Removing a segment changes the table and moves the reader, in any queue. -/
theorem kept_removeSegment (d : Disk) (q : Queue) (id next : Nat) (file : String) :
    q.Kept (q.removeSegment d id next file).queue := by
  unfold removeSegment
  dsimp only
  split <;> split <;> exact ⟨rfl, rfl, rfl, rfl, rfl, rfl, rfl⟩

theorem kept_pruneAlong (d : Disk) (q : Queue) (table : SegmentTable) :
    q.Kept (q.pruneAlong d table).queue := by
  fun_induction pruneAlong d q table with
  | case1 => exact .refl _
  | case2 d q id file next nextFile rest _ d' q' removed ih =>
    have kept := kept_removeSegment d q id next file
    rw [removed] at kept
    exact kept.trans ih
  | case3 d q id file next nextFile rest _ d' q' e removed =>
    have kept := kept_removeSegment d q id next file
    rwa [removed] at kept
  | case4 => exact .refl _

/-- **The first segment is removed** where all of its records are acknowledged. -/
theorem intact_removeSegment {id next : Nat} {rest : List Nat}
    (h : q.Intact d (id :: next :: rest) records) (done : next ≤ q.lastAck + 1) :
    ∃ d' q', q.removeSegment d id next (segmentName id) = ⟨d', q', .ok ()⟩ ∧ q.Kept q' ∧
      q'.Intact d' (next :: rest) records := by
  obtain ⟨file, found, -⟩ := h.stored id List.mem_cons_self
  obtain ⟨d', removed, tidy, contents, lookups⟩ := h.tidy.unlink found
  have ordered := List.pairwise_cons.1 h.ordered
  have later : ∀ id' ∈ next :: rest, id < id' := ordered.1
  have read (file : Nat) : d'.read file = d.read file := by rw [Disk.read, Disk.read, contents]
  have lookup_kept {id' : Nat} (member : id' ∈ next :: rest) :
      d'.lookup? (q.folder ++ [segmentName id']) = d.lookup? (q.folder ++ [segmentName id']) := by
    have other : segmentName id' ≠ segmentName id := fun same => by
      have := later id' member
      have := segmentName_inj same
      omega
    rw [lookups, if_neg other]
  have end_kept {id' : Nat} (member : id' ∈ next :: rest) :
      endOf (next :: rest) (records.length + 1) id' =
        endOf (id :: next :: rest) (records.length + 1) id' :=
    (endOf_cons (Nat.le_of_lt (later id' member))).symm
  have table : (q.segments.filter fun s => s.1 ≠ id) =
      (next :: rest).map fun id => (id, segmentName id) := by
    rw [h.table, List.map_cons, List.filter_cons_of_neg (by simp), List.filter_eq_self]
    intro s member
    obtain ⟨id', member', rfl⟩ := List.mem_map.1 member
    have := later id' member'
    simp only [ne_eq, decide_eq_true_eq]
    omega
  -- the reader leaves the segment if it was in it
  obtain ⟨reader, readId, moved, m, reading, bound⟩ : ∃ reader readId,
      q.removeSegment d id next (segmentName id) = ⟨d', { q with
        segments := q.segments.filter fun s => s.1 ≠ id
        readId := readId
        reader := reader }, .ok ()⟩ ∧
      ∃ m, Reading d' { q with
        segments := q.segments.filter fun s => s.1 ≠ id
        readId := readId
        reader := reader } (next :: rest) records m ∧ Abreast (next :: rest) q.lastRead m := by
    obtain ⟨m, reading, bound⟩ := h.reading
    by_cases within : q.readId = id
    · have second : next ∈ id :: next :: rest := List.mem_cons_of_mem _ List.mem_cons_self
      refine ⟨none, next, by simp [removeSegment, removed, within], next - 1, ?_,
        abreast_first ordered.2 (h.one_le next second) q.lastRead⟩
      exact reading_start d' rfl List.mem_cons_self (h.one_le next second) (h.le_top next second)
    · have listed : q.readId ∈ next :: rest := by
        rcases List.mem_cons.1 reading.listed with first | listed
        · exact absurd first within
        · exact listed
      refine ⟨q.reader, q.readId, by simp [removeSegment, removed, within], m, ?_,
        bound.imp_right fun before id' member => before id' (List.mem_cons_of_mem _ member)⟩
      refine reading.kept rfl rfl rfl listed (end_kept listed) (lookup_kept listed) fun _ => ⟨read _, ?_⟩
      rw [Queue.text, read]
      rfl
  refine ⟨d', _, moved, ⟨rfl, rfl, rfl, rfl, rfl, rfl, rfl⟩, tidy, h.filed, h.lastPut, h.lastRead,
    h.lastAck, ?_, ?_, table, ordered.2, fun id' member => h.one_le id' (List.mem_cons_of_mem _ member),
    fun id' member => h.le_top id' (List.mem_cons_of_mem _ member),
    fun id' member => h.small id' (List.mem_cons_of_mem _ member), ⟨next, List.mem_cons_self, done⟩,
    ?_, ?_, ?_, m, reading, bound⟩
  · exact (lookups _).trans ((if_neg (segmentName_ne_ackName id).symm).trans h.ackFile)
  · show versionIn (d'.read q.ackFile) = q.lastAck
    rw [read, h.acked]
  · intro name e found'
    have found'' := (lookups name).symm.trans found'
    split at found''
    · cases found''
    · next other =>
      obtain none_such | ⟨id', member, named⟩ := h.only found''
      · exact .inl none_such
      · rcases List.mem_cons.1 member with rfl | member
        · exact absurd named other
        · exact .inr ⟨id', member, named⟩
  · intro id' member
    obtain ⟨file', found', text⟩ := h.stored id' (List.mem_cons_of_mem _ member)
    refine ⟨file', (lookup_kept member).trans found', ?_⟩
    rw [Queue.text, read, end_kept member]
    exact text
  · intro w hw
    obtain ⟨listed, last, place, measured⟩ := h.writer w hw
    have kept : w.id ∈ next :: rest := by
      rcases List.mem_cons.1 listed with first | kept
      · have := last next (by simp)
        have := later next List.mem_cons_self
        omega
      · exact kept
    refine ⟨kept, fun id' member => last id' (List.mem_cons_of_mem _ member),
      (lookup_kept kept).trans place, ?_⟩
    rw [Queue.text, read]
    exact measured

/-- Where removing segments stops: the next segment begins behind the first version that is not
acknowledged, or there is none. -/
def Pruned (ids : List Nat) (lastAck : Nat) : Prop :=
  ∀ next rest, ids.tail = next :: rest → lastAck + 1 < next

/-- Segments are removed along the table. -/
theorem intact_pruneAlong (h : q.Intact d ids records) :
    ∃ d' q' ids', q.pruneAlong d q.segments = ⟨d', q', .ok ()⟩ ∧ q.Kept q' ∧ ids' <:+ ids ∧
      Pruned ids' q.lastAck ∧ q'.Intact d' ids' records := by
  induction ids generalizing d q with
  | nil =>
    obtain ⟨id, member, -⟩ := h.covers
    cases member
  | cons id ids ih =>
    cases ids with
    | nil =>
      refine ⟨d, q, [id], ?_, .refl q, List.suffix_refl _, ?_, h⟩
      · rw [h.table]
        rfl
      · intro next rest tail
        cases tail
    | cons next rest =>
      by_cases done : q.lastAck + 1 < next
      · refine ⟨d, q, id :: next :: rest, ?_, .refl q, List.suffix_refl _, ?_, h⟩
        · rw [h.table]
          exact if_pos done
        · intro _ _ tail
          cases tail
          exact done
      · obtain ⟨d₁, q₁, removed, kept, intact⟩ := intact_removeSegment h (by omega)
        obtain ⟨d', q', ids', pruned, kept', suffix, stop, intact'⟩ := ih intact
        refine ⟨d', q', ids', ?_, kept.trans kept', suffix.trans (List.suffix_cons _ _),
          kept.lastAck ▸ stop, intact'⟩
        rw [intact.table] at pruned
        rw [h.table]
        simp only [List.map_cons, pruneAlong, if_neg done, removed] at pruned ⊢
        exact pruned

/-- **Pruning keeps the records that are not acknowledged.** -/
theorem intact_prune (h : q.Intact d ids records) :
    ∃ d' q' ids', q.prune d = ⟨d', q', .ok ()⟩ ∧ q.Kept q' ∧ ids' <:+ ids ∧
      Pruned ids' q.lastAck ∧ q'.Intact d' ids' records :=
  intact_pruneAlong h

/-- The acknowledged version is written. -/
theorem intact_noteAck (h : q.Intact d ids records) {version : Nat} (newer : q.lastAck ≤ version)
    (known : version ≤ records.length) :
    Intact (d.update q.ackFile (versionBytes version ++ (d.read q.ackFile).drop 8))
      { q with lastAck := version } ids records := by
  have small := h.filed.length_lt
  have only := Disk.OnlyChanges.update d q.ackFile (versionBytes version ++ (d.read q.ackFile).drop 8)
  generalize hd : d.update q.ackFile (versionBytes version ++ (d.read q.ackFile).drop 8) = d' at only ⊢
  have lookup (p : Place) : d'.lookup? p = d.lookup? p := only.lookup? p
  -- the acknowledged version has a file of its own
  have read {id file : Nat} (found : d.lookup? (q.folder ++ [segmentName id]) = some (.file file)) :
      d'.read file = d.read file := by
    refine only.other fun same => segmentName_ne_ackName id (h.tidy.single found ?_)
    rw [same]
    exact h.ackFile
  have text {id file : Nat} (found : d.lookup? (q.folder ++ [segmentName id]) = some (.file file)) :
      Queue.text d' { q with lastAck := version } file = q.text d file := by
    rw [Queue.text, read found]
    rfl
  obtain ⟨id, member, covers⟩ := h.covers
  refine ⟨h.tidy.onlyChanges only, h.filed, h.lastPut, h.lastRead, known, (lookup _).trans h.ackFile,
    ?_, h.table, h.ordered, h.one_le, h.le_top, h.small, ⟨id, member, ?_⟩, fun found =>
    h.only ((lookup _).symm.trans found), ?_, ?_, ?_⟩
  · show versionIn (d'.read q.ackFile) = version
    rw [← hd, Disk.read_update_same (h.tidy.bounded h.ackFile), versionIn_versionBytes (by omega)]
  · simp only
    omega
  · intro id member
    obtain ⟨file, found, stored⟩ := h.stored id member
    exact ⟨file, (lookup _).trans found, (text found).trans stored⟩
  · intro w hw
    obtain ⟨listed, last, place, measured⟩ := h.writer w hw
    exact ⟨listed, last, (lookup _).trans place, measured.trans (by rw [text place])⟩
  · obtain ⟨m, reading, bound⟩ := h.reading
    exact ⟨m, reading.kept rfl rfl rfl reading.listed rfl (lookup _) fun found => ⟨read found, text found⟩,
      bound⟩

/-- A version that was not acknowledged yet is noted, and segments are removed. -/
theorem intact_ack_new (h : q.Intact d ids records) {version : Nat} (new : q.lastAck < version)
    (known : version ≤ records.length) :
    ∃ d' q' ids', q.ack d version = ⟨d', q', .ok ()⟩ ∧ Kept { q with lastAck := version } q' ∧
      ids' <:+ ids ∧ Pruned ids' version ∧ q'.Intact d' ids' records := by
  unfold ack
  rw [if_neg (Nat.not_le_of_lt new)]
  exact intact_prune (intact_noteAck h (Nat.le_of_lt new) known)

/-- **Acknowledging keeps the records behind the version.** -/
theorem intact_ack (h : q.Intact d ids records) {version : Nat} (known : version ≤ records.length) :
    ∃ d' q' ids', q.ack d version = ⟨d', q', .ok ()⟩ ∧ q'.Intact d' ids' records ∧
      Kept { q with lastAck := max version q.lastAck } q' := by
  by_cases old : version ≤ q.lastAck
  · refine ⟨d, q, ids, if_pos old, h, ?_⟩
    rw [Nat.max_eq_right old]
    exact .refl q
  · obtain ⟨d', q', ids', acked, kept, -, -, intact⟩ := intact_ack_new h (Nat.lt_of_not_le old) known
    refine ⟨d', q', ids', acked, intact, ?_⟩
    rw [Nat.max_eq_left (by omega)]
    exact kept

end Outbox.Queue
