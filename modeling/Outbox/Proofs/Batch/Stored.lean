import Outbox.Proofs.Batch.Coverage
import Outbox.Proofs.Queue.Refinement

/-!
# A queue as a source of records

A queue on a disk yields its unread records one after the other. Collecting from it ends because there
are never more of them than bytes on the disk, in the writer and in the reader.

* `Intact.length_le` counts the records that are not acknowledged against the disk;
* `queueSource_yields` is the result.
-/

namespace Outbox

/-! ## Sizes -/

/-- The length of some texts together. -/
def totalLength (texts : List (List UInt8)) : Nat :=
  (texts.map List.length).foldr (· + ·) 0

theorem totalLength_set {texts : List (List UInt8)} {i : Nat} (h : i < texts.length)
    (text : List UInt8) :
    totalLength (texts.set i text) + (texts.getD i []).length = totalLength texts + text.length := by
  induction texts generalizing i with
  | nil => simp at h
  | cons first texts ih =>
    cases i with
    | zero =>
      show text.length + totalLength texts + first.length = first.length + totalLength texts + text.length
      omega
    | succ i =>
      have rest := ih (Nat.lt_of_succ_lt_succ h)
      show first.length + totalLength (texts.set i text) + (texts.getD i []).length =
        first.length + totalLength texts + text.length
      omega

/-- Some texts of a list are not longer than all of them. -/
theorem sum_le_totalLength {files : List Nat} (distinct : files.Nodup) (texts : List (List UInt8)) :
    (files.map fun i => (texts.getD i []).length).foldr (· + ·) 0 ≤ totalLength texts := by
  induction files generalizing texts with
  | nil => exact Nat.zero_le _
  | cons i files ih =>
    obtain ⟨other, distinct'⟩ := List.nodup_cons.1 distinct
    rw [List.map_cons, List.foldr_cons]
    by_cases inside : i < texts.length
    · -- without the text of this file, the others are what they were
      have same : (files.map fun j => ((texts.set i []).getD j []).length) =
          files.map fun j => (texts.getD j []).length := by
        apply List.map_congr_left
        intro j mem
        have ne : i ≠ j := fun same => other (same ▸ mem)
        rw [List.getD_eq_getElem?_getD, List.getElem?_set_ne ne, List.getD_eq_getElem?_getD]
      have rest := ih distinct' (texts.set i [])
      rw [same] at rest
      have total := totalLength_set inside []
      simp only [List.length_nil] at total
      omega
    · have nothing : (texts.getD i []).length = 0 := by
        rw [List.getD_eq_getElem?_getD, List.getElem?_eq_none (Nat.le_of_not_lt inside)]
        rfl
      have rest := ih distinct' texts
      omega

/-- Segments that hold as much as there is between their versions hold all together. -/
theorem le_sum_of_endOf {ids : List Nat} (ordered : ids.Pairwise (· < ·)) {top : Nat}
    {size : Nat → Nat} (h : ∀ id ∈ ids, endOf ids top id ≤ id + size id) {first : Nat}
    (mem : first ∈ ids) : top ≤ first + (ids.map size).foldr (· + ·) 0 := by
  induction ids generalizing first with
  | nil => cases mem
  | cons id ids ih =>
    obtain ⟨later, ordered'⟩ := List.pairwise_cons.1 ordered
    have h' : ∀ id' ∈ ids, endOf ids top id' ≤ id' + size id' := by
      intro id' mem'
      rw [← endOf_cons (Nat.le_of_lt (later id' mem'))]
      exact h id' (List.mem_cons_of_mem _ mem')
    have here := h id List.mem_cons_self
    rw [List.map_cons, List.foldr_cons]
    rcases List.mem_cons.1 mem with rfl | mem'
    · cases ids with
      | nil =>
        rw [endOf_eq_top (by simp)] at here
        omega
      | cons next rest =>
        have ends : endOf (first :: next :: rest) top first = next := by
          simp [endOf, later next List.mem_cons_self]
        rw [ends] at here
        have := ih ordered' h' List.mem_cons_self
        omega
    · have := ih ordered' h' mem'
      omega

theorem totalLength_flush (d : Disk) (w : SegmentWriter) :
    totalLength (w.flush d).1.contents ≤ totalLength d.contents + w.buffer.length := by
  unfold SegmentWriter.flush
  split
  · exact Nat.le_add_right _ _
  · show totalLength (d.contents.set w.file (d.read w.file ++ w.buffer)) ≤ _
    by_cases inside : w.file < d.contents.length
    · have total := totalLength_set inside (d.read w.file ++ w.buffer)
      have same : (d.contents.getD w.file []).length = (d.read w.file).length := rfl
      rw [List.length_append] at total
      omega
    · rw [List.set_eq_of_length_le (Nat.le_of_not_lt inside)]
      exact Nat.le_add_right _ _

/-! ## Records and bytes -/

variable {α : Type} [Storable α]

/-- Every record that is not acknowledged takes some bytes on the disk. -/
theorem Queue.Intact.length_le {d : Disk} {q : Queue} {ids : List Nat} {records : List (Record α)}
    (h : q.Intact d ids records) (nothing : ∀ file, q.held file = []) :
    records.length ≤ q.lastAck + totalLength d.contents := by
  let fileOf (id : Nat) : Nat := (d.file? (q.folder ++ [segmentName id])).getD 0
  have stored : ∀ id ∈ ids, d.lookup? (q.folder ++ [segmentName id]) = some (.file (fileOf id)) ∧
      d.read (fileOf id) = framed (between records id (endOf ids (records.length + 1) id)) := by
    intro id mem
    obtain ⟨file, found, text⟩ := h.stored id mem
    have here : fileOf id = file := by simp [fileOf, Disk.file?, found]
    rw [here]
    exact ⟨found, (text_eq_read nothing d file).symm.trans text⟩
  have distinct : (ids.map fileOf).Nodup := by
    refine List.pairwise_map.2 (h.ordered.imp_of_mem fun {a b} ha hb less same => ?_)
    have name := h.tidy.single (stored a ha).1 (same ▸ (stored b hb).1)
    exact Nat.ne_of_lt less (segmentName_inj name)
  have filled : ∀ id ∈ ids,
      endOf ids (records.length + 1) id ≤ id + (d.contents.getD (fileOf id) []).length := by
    intro id mem
    have text : d.contents.getD (fileOf id) [] =
        framed (between records id (endOf ids (records.length + 1) id)) := (stored id mem).2
    have enough := length_le_length_framed (between records id (endOf ids (records.length + 1) id))
    have one := h.one_le id mem
    have top : endOf ids (records.length + 1) id ≤ records.length + 1 := endOf_le h.le_top
    rw [length_between top] at enough
    rw [text]
    omega
  obtain ⟨first, mem, covers⟩ := h.covers
  have all := le_sum_of_endOf h.ordered filled mem
  have total := sum_le_totalLength distinct d.contents
  rw [List.map_map] at total
  have same : ((fun i => (d.contents.getD i []).length) ∘ fileOf) =
      fun id => (d.contents.getD (fileOf id) []).length := rfl
  rw [same] at total
  omega

namespace StoredQueue

variable {s : StoredQueue} {l : ListQueue α}

/-- There are not more unread records than bytes. -/
theorem Holds.unread_le_bytes (h : s.Holds l) : l.records.length - l.read ≤ s.bytes := by
  obtain ⟨ids, intact⟩ := h.intact
  obtain ⟨flushed, nothing⟩ := Queue.intact_flush intact
  obtain ⟨writer, same, -⟩ := Queue.flush_eq s.disk s.queue
  have acked : (s.queue.flush s.disk).2.lastAck = s.queue.lastAck := by rw [same]
  have records := flushed.length_le nothing
  have disk : totalLength (s.queue.flush s.disk).1.contents ≤
      totalLength s.disk.contents + (s.queue.writer.map fun w => w.buffer.length).getD 0 := by
    unfold Queue.flush
    split
    · exact Nat.le_add_right _ _
    · next w hw =>
      rw [hw]
      exact totalLength_flush s.disk w
  have bytes : s.bytes = totalLength s.disk.contents +
      (s.queue.writer.map fun w => w.buffer.length).getD 0 +
      (s.queue.reader.map fun r => r.fetched.length).getD 0 := rfl
  have := h.acked
  have := h.ordered
  omega

end StoredQueue

/-! ## The source -/

/-- A record as it is delivered. -/
def queued (r : Record Operation) : Queued :=
  ⟨r.version, r.obj⟩

/-- A queue in a folder holds the records of a list and has read so many of them that these are left. -/
def StoredQueue.Left (l : ListQueue Operation) (folder : Place) (s : StoredQueue)
    (rest : List Queued) : Prop :=
  ∃ read, s.Holds { l with read := read } ∧ s.queue.folder = folder ∧
    rest = (l.records.drop read).map queued

/-- **A queue yields its unread records.** -/
theorem queueSource_yields (l : ListQueue Operation) (folder : Place) :
    queueSource.Yields (StoredQueue.Left l folder) where
  drained {s} h := by
    obtain ⟨read, holds, place, none_left⟩ := h
    have ended : l.records.length ≤ read := by
      simpa [List.drop_eq_nil_iff] using none_left.symm
    obtain ⟨d', q', got, holds', place'⟩ := holds.get
    simp only [List.getElem?_eq_none ended, Option.map_none, if_neg (Nat.not_lt_of_le ended)]
      at got holds'
    refine ⟨⟨d', q'⟩, ?_, read, holds', place'.trans place, none_left⟩
    simp only [queueSource, nextOfQueue, got]
    rfl
  reads {s r rs} h := by
    obtain ⟨read, holds, place, left⟩ := h
    have inside : read < l.records.length := by
      have some_left := congrArg List.length left
      simp only [List.length_cons, List.length_map, List.length_drop] at some_left
      omega
    obtain ⟨d', q', got, holds', place'⟩ := holds.get
    simp only [List.getElem?_eq_getElem inside, Option.map_some, if_pos inside] at got holds'
    rw [List.drop_eq_getElem_cons inside, List.map_cons, List.cons.injEq] at left
    refine ⟨⟨d', q'⟩, ?_, read + 1, holds', place'.trans place, left.2⟩
    simp only [queueSource, nextOfQueue, got, left.1]
    rfl
  bounded {s rs} h := by
    obtain ⟨read, holds, -, rfl⟩ := h
    rw [List.length_map, List.length_drop]
    exact holds.unread_le_bytes

end Outbox
