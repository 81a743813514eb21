import Outbox.Proofs.Disk.Elsewhere
import Outbox.Proofs.Queue.AckFile

/-!
# A queue works in its folder

All that a queue does to the disk happens in its folder: it writes the segment that it has open and the file of
the acknowledged version, creates segments and removes them, and in the end removes the folder. So a queue in
another folder holds what it held.

* `Queue.AtHome` is a queue that writes a file of its folder, and `Queue.Stays` what it does then;
* `stays_put`, `stays_get` and `stays_close` are laws of the operations that keep this, and `inside_ack`,
  `inside_removeIfEmpty` and `inside_openIn` those of the others;
* `StoredQueue.Holds.aside` says that a queue does not mind what leaves its folder alone.
-/

namespace Outbox

/-- Writing one file of a folder happens in it. -/
theorem Disk.Inside.onlyChanges {d d' : Disk} {folder : Place} {file : Nat} (only : d.OnlyChanges d' file)
    (listed : d.Lists folder file) : d.Inside d' folder where
  outside := by rw [Disk.outside, only.entries, Disk.outside]
  length := Nat.le_of_eq only.length.symm
  read file' _ foreign := only.other (by rintro rfl; exact foreign listed)
  fresh file' listed' := .inl (by simpa only [Disk.Lists, only.lookup?] using listed')

/-- The files of a folder have their names there when one of them was written. -/
theorem Disk.Lists.onlyChanges {d d' : Disk} {folder : Place} {file changed : Nat} (listed : d.Lists folder file)
    (only : d.OnlyChanges d' changed) : d'.Lists folder file := by
  simpa only [Disk.Lists, only.lookup?] using listed

/-- A segment is opened in its folder. -/
structure SegmentWriter.OpensIn (d : Disk) (folder : Place) (r : Disk × Except QueueError SegmentWriter) : Prop where
  inside : d.Inside r.1 folder
  kept : ∀ file, d.Lists folder file → r.1.Lists folder file
  listed : ∀ w, r.2 = .ok w → r.1.Lists folder w.file

theorem SegmentWriter.opensIn_openAt (d : Disk) (folder : Place) (id length : Nat) :
    OpensIn d folder (openAt d folder id length) := by
  unfold openAt
  cases created : d.create? (folder ++ [segmentName id]) with
  | none => exact ⟨.refl d folder, fun _ old => old, nofun⟩
  | some o =>
    obtain ⟨d₁, file⟩ := o
    obtain ⟨inside, listed, kept⟩ := Disk.Inside.create created
    refine ⟨inside.trans (.update listed _), fun file old => (kept file old).onlyChanges (.update ..), ?_⟩
    intro w opened
    cases opened
    exact listed.onlyChanges (.update ..)

namespace Queue

variable {α : Type} [Storable α] {d d' d'' : Disk} {q q' q'' : Queue}

/-! ## What keeps a queue at home -/

/-- The file that a queue writes is in its folder. -/
def AtHome (d : Disk) (q : Queue) : Prop :=
  ∀ w, q.writer = some w → d.Lists q.folder w.file

/-- A queue worked in its folder, and has a file there that it writes, or none. -/
structure Stays (d : Disk) (q : Queue) (d' : Disk) (q' : Queue) : Prop where
  inside : d.Inside d' q.folder
  folder : q'.folder = q.folder
  atHome : q'.AtHome d'

theorem AtHome.stays (h : q.AtHome d) : Stays d q d q :=
  ⟨.refl d _, rfl, h⟩

theorem Stays.trans (h : Stays d q d' q') (h' : Stays d' q' d'' q'') : Stays d q d'' q'' :=
  ⟨h.inside.trans (h.folder ▸ h'.inside), h'.folder.trans h.folder, h'.atHome⟩

/-- Anything else may change in a queue but its folder and its writer. -/
theorem Stays.kept (h : Stays d q d' q') (folder : q''.folder = q'.folder) (writer : q''.writer = q'.writer) :
    Stays d q d' q'' where
  inside := h.inside
  folder := folder.trans h.folder
  atHome w hw := by
    rw [folder]
    exact h.atHome w (writer ▸ hw)

/-- The file that is open for writing is written. -/
theorem AtHome.writes (h : q.AtHome d) {w : SegmentWriter} (hw : q.writer = some w)
    (only : d.OnlyChanges d' w.file) {w' : SegmentWriter} (file : w'.file = w.file) :
    Stays d q d' { q with writer := some w' } where
  inside := .onlyChanges only (h w hw)
  folder := rfl
  atHome _ written := by
    cases written
    exact file ▸ (h w hw).onlyChanges only

theorem stays_flush (h : q.AtHome d) : Stays d q (q.flush d).1 (q.flush d).2 := by
  cases hw : q.writer with
  | none =>
    rw [flush_eq_of_closed d q hw]
    exact h.stays
  | some w =>
    rw [flush_eq_of_writer d q hw]
    exact h.writes hw (.update ..) rfl

theorem stays_close (h : q.AtHome d) : Stays d q (q.close d).1 (q.close d).2 :=
  ⟨(stays_flush h).inside, (stays_flush h).folder, nofun⟩

theorem stays_roll (h : q.AtHome d) (id : Nat) : Stays d q (q.roll d id).disk (q.roll d id).queue := by
  have flushed := stays_flush h
  unfold roll
  generalize q.flush d = o at flushed ⊢
  obtain ⟨d₁, q₁⟩ := o
  dsimp only at flushed ⊢
  have opens := SegmentWriter.opensIn_openAt d₁ q.folder id 0
  generalize SegmentWriter.openAt d₁ q.folder id 0 = opened at opens ⊢
  refine flushed.trans ?_
  rw [← flushed.folder] at opens
  obtain ⟨d₂, e | w⟩ := opened
  · exact ⟨opens.inside, rfl, fun w hw => opens.kept w.file (flushed.atHome w hw)⟩
  · refine ⟨opens.inside, rfl, fun _ written => ?_⟩
    cases written
    exact opens.listed w rfl

theorem stays_rollFor (h : q.AtHome d) (w : SegmentWriter) (id bytes : Nat) :
    Stays d q (q.rollFor d w id bytes).disk (q.rollFor d w id bytes).queue := by
  unfold rollFor
  split
  · exact stays_roll h id
  · exact h.stays

theorem stays_append (h : q.AtHome d) (payload : List UInt8) :
    Stays d q (q.append d payload).disk (q.append d payload).queue := by
  unfold append
  cases hw : q.writer with
  | none => exact h.stays
  | some w =>
    exact h.writes hw (SegmentWriter.onlyChanges_put d w payload) (SegmentWriter.file_put d w payload)

theorem stays_put (h : q.AtHome d) (now : Int) (obj : α) :
    Stays d q (q.put d now obj).disk (q.put d now obj).queue := by
  unfold put
  cases hw : q.writer with
  | none => exact h.stays
  | some w =>
    have rolled := stays_rollFor h w (q.lastPut + 1) (Frame.size (Record.payload ⟨obj, q.lastPut + 1, now⟩))
    dsimp only
    generalize q.rollFor d w _ _ = o at rolled ⊢
    obtain ⟨d₁, q₁, e | ⟨⟩⟩ := o
    · exact rolled
    · have appended := stays_append rolled.atHome (Record.payload ⟨obj, q.lastPut + 1, now⟩)
      dsimp only at appended ⊢
      generalize q₁.append d₁ _ = o at appended ⊢
      obtain ⟨d₂, q₂, e | ⟨⟩⟩ := o
      · exact rolled.trans appended
      · exact (rolled.trans appended).kept rfl rfl

theorem stays_get (h : q.AtHome d) : Stays d q (q.get (α := α) d).disk (q.get (α := α) d).queue := by
  have flushed := stays_flush h
  unfold get
  generalize q.flush d = o at flushed ⊢
  obtain ⟨d₁, q₁⟩ := o
  obtain ⟨reader, readId, lastRead, moved, -⟩ := getThrough_moves (α := α) d₁ q₁ q₁.laterIds
  dsimp only at flushed ⊢
  rw [moved]
  exact flushed.kept rfl rfl

/-! ## What removes files -/

theorem inside_removeSegment (d : Disk) (q : Queue) (id next : Nat) (file : String) :
    d.Inside (q.removeSegment d id next file).disk q.folder := by
  unfold removeSegment
  cases removed : d.unlink? (q.folder ++ [file]) with
  | none => exact .refl d _
  | some d' => exact .unlink removed

theorem inside_pruneAlong (d : Disk) (q : Queue) (table : SegmentTable) :
    d.Inside (q.pruneAlong d table).disk q.folder := by
  fun_induction pruneAlong d q table with
  | case1 => exact .refl _ _
  | case2 d q id file next nextFile rest _ d' q' removed ih =>
    have inside := inside_removeSegment d q id next file
    have kept := kept_removeSegment d q id next file
    rw [removed] at inside kept
    exact inside.trans (kept.folder ▸ ih)
  | case3 d q id file next nextFile rest _ d' q' e removed =>
    have inside := inside_removeSegment d q id next file
    rwa [removed] at inside
  | case4 => exact .refl _ _

theorem inside_ack (ackFile : d.Lists q.folder q.ackFile) (version : Nat) :
    d.Inside (q.ack d version).disk q.folder := by
  unfold ack
  split
  · exact .refl d _
  · exact (Disk.Inside.update ackFile _).trans (inside_pruneAlong _ { q with lastAck := version } _)

theorem inside_removeIfEmpty (h : q.AtHome d) : d.Inside (q.removeIfEmpty d).disk q.folder := by
  have closed := (stays_close h).inside
  unfold removeIfEmpty
  split
  · dsimp only
    split
    · exact closed
    · next removed => exact closed.trans (.removeAll removed)
  · exact .refl d _

/-! ## Opening -/

theorem inside_openNewest (d : Disk) (folder : Place) (segments : SegmentTable) (lastAck : Nat) :
    d.Inside (openNewest d folder segments lastAck).1 folder := by
  unfold openNewest
  split
  · have opens := SegmentWriter.opensIn_openAt d folder (lastAck + 1) 0
    dsimp only
    split <;> next opened =>
      rw [opened] at opens
      exact opens.inside
  · next id _ _ =>
    split
    · exact .refl d folder
    · next bytes _ =>
      have opens := SegmentWriter.opensIn_openAt d folder id (scanSegment bytes).length
      dsimp only
      split <;> next opened =>
        rw [opened] at opens
        exact opens.inside

/-- **A queue is opened** in its folder, whether this succeeds or not. -/
theorem inside_openIn {folder : Place} (isFolder : d.lookup? folder = some .folder) (maxSize : Nat) :
    d.Inside (openIn d folder maxSize).1 folder := by
  have made : d.makeFolders? folder = some d := if_pos isFolder
  unfold openIn
  rw [made]
  dsimp only
  cases created : d.create? (folder ++ [ackName]) with
  | none => exact .refl d folder
  | some o =>
    obtain ⟨d₁, ackFile⟩ := o
    have first := (Disk.Inside.create created).1
    have newest := inside_openNewest d₁ folder (segmentsIn d₁ folder) (versionIn (d₁.read ackFile))
    dsimp only
    generalize openNewest d₁ folder (segmentsIn d₁ folder) (versionIn (d₁.read ackFile)) = o at newest ⊢
    obtain ⟨d₂, e | ⟨segments, w, lastPut⟩⟩ := o
    · exact first.trans newest
    · have pruned := inside_pruneAlong d₂ ⟨folder, maxSize, segments, some w,
        readIdFor segments (versionIn (d₁.read ackFile)) w.id, none, ackFile, lastPut,
        versionIn (d₁.read ackFile), versionIn (d₁.read ackFile)⟩ segments
      dsimp only
      unfold prune
      split <;> next same =>
        rw [same] at pruned
        exact (first.trans newest).trans pruned

/-! ## A queue that is in order -/

theorem Intact.atHome {ids : List Nat} {records : List (Record α)} (h : q.Intact d ids records) : q.AtHome d :=
  fun w hw => ⟨segmentName w.id, (h.writer w hw).2.2.1⟩

end Queue

/-- **A queue does not mind** what leaves its folder alone. -/
theorem StoredQueue.Holds.aside {α : Type} [Storable α] {s : StoredQueue} {l : ListQueue α} (h : s.Holds l)
    {d' : Disk} (aside : s.disk.Aside d' s.queue.folder) : Holds ⟨d', s.queue⟩ l := by
  obtain ⟨ids, intact⟩ := h.intact
  have intact' := intact.elsewhere (aside.tidy intact.tidy) (fun {name} _ => aside.lookup? name)
    (fun {name e} found => .inl ((aside.lookup? name).symm.trans found))
    (fun {name file} _ found => aside.read file ⟨name, found⟩)
  exact ⟨⟨ids, intact'⟩, h.read, h.acked, h.isOpen, h.ordered, h.durable⟩

end Outbox
