import Outbox.Proofs.Queue.Arrangement
import Outbox.Proofs.Queue.Flushing

/-!
# The file of the acknowledged version

The acknowledged version is in a file that nobody else writes. It has a name of its own from the beginning,
and segments have other names: so none of them comes into that file, as long as nobody gives it the name of a
segment.

* `Disk.Sole` is a file with one name, and `Disk.Tidy.create?_sole` the law of opening a file by its name;
* `Queue.Sits` is a queue whose files are apart, which `Queue.sits_iff` finds out, and `StoredQueue.Sits.turn` says that this is kept by every
  move, and `StoredQueue.Sits.reach` by all in turn.
-/

namespace Outbox

/-! ## A file with one name -/

/-- A file has no other name in a folder than this one. -/
structure Disk.Sole (d : Disk) (folder : Place) (name : String) (file : Nat) : Prop where
  old : file < d.contents.length
  only : ∀ {other : String}, d.lookup? (folder ++ [other]) = some (.file file) → other = name

namespace Disk

variable {d d' : Disk} {folder : Place} {name : String} {file : Nat}

theorem Sole.onlyChanges (h : d.Sole folder name file) {changed : Nat} (only : d.OnlyChanges d' changed) :
    d'.Sole folder name file where
  old := only.length ▸ h.old
  only found := h.only ((only.lookup? _).symm.trans found)

/-- Whether a folder is in order is seen in its list. -/
theorem tidy_iff : d.Tidy folder ↔ d.lookup? folder = some .folder ∧ folder.all isName = true ∧
    ((d.children folder).map Prod.fst).Nodup ∧
    (∀ c ∈ d.children folder, c.2 = .folder ∨ ∃ id < d.contents.length, c.2 = .file id) ∧
    ∀ a ∈ d.children folder, ∀ b ∈ d.children folder, a.2 = b.2 → a.2 = .folder ∨ a.1 = b.1 := by
  constructor
  · intro h
    refine ⟨h.isFolder, h.named, h.distinct, ?_, ?_⟩
    · rintro ⟨name, folder | id⟩ listed
      · exact .inl rfl
      · exact .inr ⟨id, h.bounded (h.mem_children.1 listed), rfl⟩
    · rintro ⟨a, folder | id⟩ listed ⟨b, e⟩ listed' same
      · exact .inl rfl
      · obtain rfl : Entry.file id = e := same
        exact .inr (h.single (h.mem_children.1 listed) (h.mem_children.1 listed'))
  · rintro ⟨isFolder, named, distinct, bounded, single⟩
    refine ⟨isFolder, named, distinct, fun {name id} found => ?_, fun {a b id} found found' => ?_⟩
    · rw [lookup?_child] at found
      rcases bounded _ (mem_of_lookup found) with other | ⟨id', small, same⟩
      · cases other
      · cases same
        exact small
    · rw [lookup?_child] at found found'
      rcases single _ (mem_of_lookup found) _ (mem_of_lookup found') rfl with other | same
      · cases other
      · exact same

theorem Tidy.sole_iff (h : d.Tidy folder) : d.Sole folder name file ↔
    file < d.contents.length ∧ ∀ c ∈ d.children folder, c.2 = .file file → c.1 = name := by
  constructor
  · rintro ⟨old, only⟩
    refine ⟨old, ?_⟩
    rintro ⟨other, e⟩ listed same
    exact only ((h.mem_children.1 listed).trans (congrArg some same))
  · rintro ⟨old, only⟩
    exact ⟨old, fun found => only (_, _) (h.mem_children.2 found) rfl⟩

instance (d : Disk) (folder : Place) : Decidable (d.Tidy folder) :=
  decidable_of_iff _ tidy_iff.symm

/-- **A file that is opened by its name** is not one with another name, whether it was there or is new. -/
theorem Tidy.create?_sole (h : d.Tidy folder) (created : d.create? (folder ++ [name]) = some (d', file)) :
    d'.Tidy folder ∧ d'.Sole folder name file ∧ ∀ {own : String} {file' : Nat}, d.Sole folder own file' →
      d'.Sole folder own file' ∧ (name ≠ own → file ≠ file') := by
  cases found : d.lookup? (folder ++ [name]) with
  | some e =>
    cases e with
    | folder =>
      rw [create?, found] at created
      cases created
    | file id =>
      rw [create?_file found] at created
      cases created
      exact ⟨h, ⟨h.bounded found, fun found' => h.single found' found⟩,
        fun sole => ⟨sole, fun other same => other (sole.only (same ▸ found))⟩⟩
  | none =>
    have valid : isName name = true := by
      rw [create?, found] at created
      by_cases fits : d.lookup? (folder ++ [name]).dropLast = some .folder ∧ (folder ++ [name]).all isName
      · simpa using (List.all_eq_true.1 fits.2) name (by simp)
      · rw [if_neg fits] at created
        cases created
    obtain ⟨d₁, created', tidy, length, -, lookups⟩ := h.create valid found
    rw [created'] at created
    cases created
    refine ⟨tidy, ⟨by omega, fun {other} named => ?_⟩, fun {own file'} sole =>
      ⟨⟨by have := sole.old; omega, fun {other} named => ?_⟩, fun _ same => ?_⟩⟩
    · rw [lookups] at named
      split at named
      · next same => exact same
      · exact absurd (h.bounded named) (Nat.lt_irrefl _)
    · rw [lookups] at named
      split at named
      · have := sole.old
        cases named
        omega
      · exact sole.only named
    · have := sole.old
      omega

/-- A name that is removed is not given to another file. -/
theorem Tidy.unlink?_sole (h : d.Tidy folder) (removed : d.unlink? (folder ++ [name]) = some d') :
    d'.Tidy folder ∧ ∀ {own : String} {file' : Nat}, d.Sole folder own file' → d'.Sole folder own file' := by
  cases found : d.lookup? (folder ++ [name]) with
  | none =>
    rw [unlink?, found] at removed
    cases removed
  | some e =>
    cases e with
    | folder =>
      rw [unlink?, found] at removed
      cases removed
    | file id =>
      obtain ⟨d₁, removed', tidy, contents, lookups⟩ := h.unlink found
      rw [removed'] at removed
      cases removed
      refine ⟨tidy, fun {own file'} sole => ⟨contents ▸ sole.old, fun {other} named => ?_⟩⟩
      rw [lookups] at named
      split at named
      · cases named
      · exact sole.only named

end Disk

/-- A segment does not come into the file of the acknowledged version. -/
theorem SegmentWriter.openAt_sole {d d' : Disk} {folder : Place} (tidy : d.Tidy folder) {id length : Nat}
    {r : Except QueueError SegmentWriter} (opened : openAt d folder id length = (d', r)) :
    d'.Tidy folder ∧ ∀ {file : Nat}, d.Sole folder ackName file →
      d'.Sole folder ackName file ∧ ∀ w, r = .ok w → w.file ≠ file := by
  cases created : d.create? (folder ++ [segmentName id]) with
  | none =>
    simp only [openAt, created] at opened
    cases opened
    exact ⟨tidy, fun sole => ⟨sole, by simp⟩⟩
  | some o =>
    obtain ⟨d₁, file⟩ := o
    simp only [openAt, created] at opened
    cases opened
    obtain ⟨tidy₁, -, others⟩ := tidy.create?_sole created
    refine ⟨tidy₁.update _ _, fun sole => ?_⟩
    obtain ⟨sole₁, apart⟩ := others sole
    refine ⟨sole₁.onlyChanges (.update ..), ?_⟩
    rintro _ ⟨⟩
    exact apart (segmentName_ne_ackName id)

/-! ## A queue whose files are apart -/

/-- A queue that writes its records and the acknowledged version in different files, also in its next
segments. -/
structure Queue.Sits (d : Disk) (q : Queue) : Prop where
  tidy : d.Tidy q.folder
  apart : q.Apart
  sole : q.writer.isSome → d.Sole q.folder ackName q.ackFile

namespace Queue

variable {α : Type} [Storable α] {d : Disk} {q : Queue}

theorem Sits.onlyChanges (h : q.Sits d) {d' : Disk} {changed : Nat} (only : d.OnlyChanges d' changed) :
    q.Sits d' where
  tidy := h.tidy.onlyChanges only
  apart := h.apart
  sole isOpen := (h.sole isOpen).onlyChanges only

instance (q : Queue) : Decidable q.Apart :=
  decidable_of_iff (∀ w ∈ q.writer.toList, w.file ≠ q.ackFile) (by simp [Apart])

/-- Whether the files are apart is seen in the list of the folder. -/
theorem sits_iff : q.Sits d ↔ d.Tidy q.folder ∧ q.Apart ∧ (q.writer.isSome →
    q.ackFile < d.contents.length ∧ ∀ c ∈ d.children q.folder, c.2 = .file q.ackFile → c.1 = ackName) :=
  ⟨fun h => ⟨h.tidy, h.apart, fun isOpen => h.tidy.sole_iff.1 (h.sole isOpen)⟩,
    fun ⟨tidy, apart, sole⟩ => ⟨tidy, apart, fun isOpen => tidy.sole_iff.2 (sole isOpen)⟩⟩

instance (d : Disk) (q : Queue) : Decidable (q.Sits d) :=
  decidable_of_iff _ sits_iff.symm

/-- Anything else may change in a queue but its folder and its files. -/
theorem Sits.kept (h : q.Sits d) {q' : Queue} (folder : q'.folder = q.folder) (ackFile : q'.ackFile = q.ackFile)
    (writer : ∀ w', q'.writer = some w' → ∃ w, q.writer = some w ∧ w'.file = w.file) : q'.Sits d where
  tidy := folder ▸ h.tidy
  apart w' hw' := by
    obtain ⟨w, hw, file⟩ := writer w' hw'
    rw [file, ackFile]
    exact h.apart w hw
  sole isOpen := by
    obtain ⟨w', hw'⟩ := Option.isSome_iff_exists.1 isOpen
    obtain ⟨w, hw, -⟩ := writer w' hw'
    rw [folder, ackFile]
    exact h.sole (hw ▸ rfl)

theorem Intact.sits {ids : List Nat} {records : List (Record α)} (h : q.Intact d ids records) : q.Sits d where
  tidy := h.tidy
  apart _ hw := (h.ackFile_ne hw).symm
  sole _ := ⟨h.tidy.bounded h.ackFile, fun found => h.tidy.single found h.ackFile⟩

theorem Sits.flush (h : q.Sits d) : (q.flush d).2.Sits (q.flush d).1 := by
  cases hw : q.writer with
  | none => rwa [flush_eq_of_closed d q hw]
  | some w =>
    rw [flush_eq_of_writer d q hw]
    exact (h.onlyChanges (.update ..)).kept rfl rfl fun _ written => ⟨w, hw, by cases written; rfl⟩

/-! ### Putting -/

theorem Sits.roll (h : q.Sits d) (isOpen : q.writer.isSome) (id : Nat) :
    (q.roll d id).queue.Sits (q.roll d id).disk := by
  have flushed := h.flush
  have folder := folder_flush d q
  have still : (q.flush d).2.writer.isSome := (isOpen_flush d q).trans isOpen
  unfold Queue.roll
  generalize q.flush d = o at flushed folder still ⊢
  obtain ⟨d₁, q₁⟩ := o
  dsimp only at flushed folder still ⊢
  rw [← folder]
  cases opened : SegmentWriter.openAt d₁ q₁.folder id 0 with
  | mk d₂ r =>
    obtain ⟨tidy, apart⟩ := SegmentWriter.openAt_sole flushed.tidy opened
    obtain ⟨sole, apart⟩ := apart (flushed.sole still)
    cases r with
    | error e => exact ⟨tidy, flushed.apart, fun _ => sole⟩
    | ok w => exact ⟨tidy, fun w' written => by cases written; exact apart w rfl, fun _ => sole⟩

theorem Sits.rollFor (h : q.Sits d) {w : SegmentWriter} (hw : q.writer = some w) (id bytes : Nat) :
    (q.rollFor d w id bytes).queue.Sits (q.rollFor d w id bytes).disk := by
  unfold Queue.rollFor
  split
  · exact h.roll (hw ▸ rfl) id
  · exact h

theorem Sits.append (h : q.Sits d) (payload : List UInt8) :
    (q.append d payload).queue.Sits (q.append d payload).disk := by
  unfold Queue.append
  cases hw : q.writer with
  | none => exact h
  | some w =>
    have only := SegmentWriter.onlyChanges_put d w payload
    have file := SegmentWriter.file_put d w payload
    exact (h.onlyChanges only).kept rfl rfl fun _ written => ⟨w, hw, by cases written; exact file⟩

theorem Sits.put (h : q.Sits d) (now : Int) (obj : α) : (q.put d now obj).queue.Sits (q.put d now obj).disk := by
  unfold Queue.put
  cases hw : q.writer with
  | none => exact h
  | some w =>
    have rolled := h.rollFor hw (q.lastPut + 1) (Frame.size (Record.payload ⟨obj, q.lastPut + 1, now⟩))
    dsimp only
    generalize q.rollFor d w _ _ = o at rolled ⊢
    obtain ⟨d₁, q₁, e | ⟨⟩⟩ := o
    · exact rolled
    · have appended := rolled.append (Record.payload ⟨obj, q.lastPut + 1, now⟩)
      dsimp only at appended ⊢
      generalize q₁.append d₁ _ = o at appended ⊢
      obtain ⟨d₂, q₂, e | ⟨⟩⟩ := o
      · exact appended
      · exact appended.kept rfl rfl fun w' written => ⟨w', written, rfl⟩

/-! ### Getting and acknowledging -/

theorem Sits.get (h : q.Sits d) : (q.get (α := α) d).queue.Sits (q.get (α := α) d).disk := by
  have flushed := h.flush
  unfold Queue.get
  generalize q.flush d = o at flushed ⊢
  obtain ⟨d₁, q₁⟩ := o
  obtain ⟨reader, readId, lastRead, moved, -⟩ := getThrough_moves (α := α) d₁ q₁ q₁.laterIds
  dsimp only at flushed ⊢
  rw [moved]
  exact flushed.kept rfl rfl fun w written => ⟨w, written, rfl⟩

theorem Sits.getUpTo (h : q.Sits d) (n : Nat) :
    (q.getUpTo (α := α) d n).queue.Sits (q.getUpTo (α := α) d n).disk := by
  induction n generalizing d q with
  | zero => exact h
  | succ n ih =>
    have got := h.get (α := α)
    rw [Queue.getUpTo]
    generalize q.get (α := α) d = o at got ⊢
    obtain ⟨d₁, q₁, e | _ | element⟩ := o
    · exact got
    · exact got
    · exact ih got

theorem Sits.removeSegment (h : q.Sits d) (id next : Nat) (file : String) :
    (q.removeSegment d id next file).queue.Sits (q.removeSegment d id next file).disk := by
  have kept := kept_removeSegment d q id next file
  have moved : (q.removeSegment d id next file).queue.Sits d :=
    h.kept kept.folder kept.ackFile fun w written => ⟨w, kept.writer ▸ written, rfl⟩
  have disk : (q.removeSegment d id next file).disk = (d.unlink? (q.folder ++ [file])).getD d := by
    unfold Queue.removeSegment
    cases d.unlink? (q.folder ++ [file]) <;> rfl
  rw [disk]
  cases removed : d.unlink? (q.folder ++ [file]) with
  | none => exact moved
  | some d' =>
    rw [← kept.folder] at removed
    obtain ⟨tidy, sole⟩ := moved.tidy.unlink?_sole removed
    exact ⟨tidy, moved.apart, fun isOpen => sole (moved.sole isOpen)⟩

theorem Sits.pruneAlong (h : q.Sits d) (table : SegmentTable) :
    (q.pruneAlong d table).queue.Sits (q.pruneAlong d table).disk := by
  fun_induction Queue.pruneAlong d q table with
  | case1 => exact h
  | case2 d q id file next nextFile rest _ d' q' removed ih =>
    have sits := h.removeSegment id next file
    rw [removed] at sits
    exact ih sits
  | case3 d q id file next nextFile rest _ d' q' e removed =>
    have sits := h.removeSegment id next file
    rwa [removed] at sits
  | case4 => exact h

theorem Sits.ack (h : q.Sits d) (version : Nat) : (q.ack d version).queue.Sits (q.ack d version).disk := by
  unfold Queue.ack
  split
  · exact h
  · exact ((h.onlyChanges (.update ..)).kept rfl rfl fun w written => ⟨w, written, rfl⟩ :
      Queue.Sits _ { q with lastAck := version }).pruneAlong _

theorem Sits.close (h : q.Sits d) : (q.close d).2.Sits (q.close d).1 :=
  h.flush.kept rfl rfl fun _ written => nomatch written

/-! ### Opening -/

theorem openNewest_sole {folder : Place} (tidy : d.Tidy folder) {segments : SegmentTable} {lastAck : Nat} {d' : Disk}
    {r : Except QueueError (SegmentTable × SegmentWriter × Nat)}
    (opened : openNewest d folder segments lastAck = (d', r)) :
    d'.Tidy folder ∧ ∀ {file : Nat}, d.Sole folder ackName file →
      d'.Sole folder ackName file ∧ ∀ table w lastPut, r = .ok (table, w, lastPut) → w.file ≠ file := by
  -- what is told of a segment that is opened holds of all that is made of its writer
  have through {id length : Nat} {f : SegmentWriter → SegmentTable × SegmentWriter × Nat} (same : ∀ w, (f w).2.1 = w)
      (disk : d' = (SegmentWriter.openAt d folder id length).1)
      (outcome : r = (SegmentWriter.openAt d folder id length).2.map f) :
      d'.Tidy folder ∧ ∀ {file : Nat}, d.Sole folder ackName file →
        d'.Sole folder ackName file ∧ ∀ table w lastPut, r = .ok (table, w, lastPut) → w.file ≠ file := by
    cases segment : SegmentWriter.openAt d folder id length with
    | mk d₁ r₁ =>
      rw [segment] at disk outcome
      subst disk outcome
      obtain ⟨tidy₁, apart⟩ := SegmentWriter.openAt_sole tidy segment
      refine ⟨tidy₁, fun sole => ⟨(apart sole).1, fun table w' lastPut found => ?_⟩⟩
      cases r₁ with
      | error e => cases found
      | ok w =>
        have named := same w
        rw [Except.ok.inj found] at named
        exact (apart sole).2 w' (congrArg _ named.symm)
  unfold openNewest at opened
  split at opened
  · -- there is no segment, and the first one is made
    dsimp only at opened
    split at opened <;> next segment =>
      cases opened
      exact through (f := fun w => (segments.set (lastAck + 1) (segmentName (lastAck + 1)), w, lastAck))
        (fun _ => rfl) (by rw [segment]) (by rw [segment]; rfl)
  · next id _ _ =>
    split at opened
    · cases opened
      exact ⟨tidy, fun sole => ⟨sole, by simp⟩⟩
    · next bytes _ =>
      dsimp only at opened
      split at opened <;> next segment =>
        cases opened
        exact through (f := fun w => (segments, w, max ((scanSegment bytes).lastVersion.getD (id - 1)) lastAck))
          (fun _ => rfl) (by rw [segment]) (by rw [segment]; rfl)

/-- **A queue that is opened in a folder in order** has its files apart; and the folder is in order if it cannot
be opened. -/
theorem openIn_sits {folder : Place} (tidy : d.Tidy folder) {maxSize : Nat} {d' : Disk}
    {r : Except QueueError Queue} (opened : openIn d folder maxSize = (d', r)) :
    d'.Tidy folder ∧ ∀ q, r = .ok q → q.Sits d' ∧ q.folder = folder := by
  have made : d.makeFolders? folder = some d := if_pos tidy.isFolder
  unfold openIn at opened
  rw [made] at opened
  dsimp only at opened
  cases created : d.create? (folder ++ [ackName]) with
  | none =>
    rw [created] at opened
    cases opened
    exact ⟨tidy, by simp⟩
  | some o =>
    obtain ⟨d₂, ackFile⟩ := o
    obtain ⟨tidy₂, sole₂, -⟩ := tidy.create?_sole created
    rw [created] at opened
    dsimp only at opened
    cases newest : openNewest d₂ folder (segmentsIn d₂ folder) (versionIn (d₂.read ackFile)) with
    | mk d₃ r₃ =>
      obtain ⟨tidy₃, apart⟩ := openNewest_sole tidy₂ newest
      obtain ⟨sole₃, apart⟩ := apart sole₂
      rw [newest] at opened
      obtain e | ⟨segments, w, lastPut⟩ := r₃
      · cases opened
        exact ⟨tidy₃, by simp⟩
      · dsimp only at opened
        generalize hq : (⟨folder, maxSize, segments, some w, readIdFor segments (versionIn (d₂.read ackFile)) w.id, none,
          ackFile, lastPut, versionIn (d₂.read ackFile), versionIn (d₂.read ackFile)⟩ : Queue) = q₃ at opened
        have sits : q₃.Sits d₃ := by
          subst hq
          exact ⟨tidy₃, fun w' written => by cases written; exact apart _ _ _ rfl, fun _ => sole₃⟩
        have pruned := sits.pruneAlong q₃.segments
        have kept := kept_pruneAlong d₃ q₃ q₃.segments
        unfold prune at opened
        generalize q₃.pruneAlong d₃ q₃.segments = o at opened pruned kept
        have place : o.queue.folder = folder := by
          rw [kept.folder, ← hq]
        obtain ⟨d₄, q₄, e | ⟨⟩⟩ := o
        · cases opened
          exact ⟨place ▸ pruned.tidy, by simp⟩
        · cases opened
          refine ⟨place ▸ pruned.tidy, ?_⟩
          rintro _ ⟨⟩
          exact ⟨pruned, place⟩

end Queue

/-! ## Whatever happens -/

namespace StoredQueue

variable {α : Type} [Storable α] {s : StoredQueue}

/-- A queue on a disk whose files are apart. -/
def Sits (s : StoredQueue) : Prop :=
  s.queue.Sits s.disk

/-- Nobody else spoils the order of the folder, or gives the file of the acknowledged version another name. -/
def Spares (s : StoredQueue) : Move α → Prop
  | .call _ => True
  | .names entries => Sits ⟨{ s.disk with entries := entries }, s.queue⟩

/-- Nobody does in turn. -/
def SparesAll (s : StoredQueue) : List (Move α) → Prop
  | [] => True
  | m :: moves => s.Spares m ∧ SparesAll (s.turn m).1 moves

instance (s : StoredQueue) (m : Move α) : Decidable (s.Spares m) :=
  match m with
  | .call _ => isTrue trivial
  | .names entries => inferInstanceAs (Decidable (Queue.Sits { s.disk with entries := entries } s.queue))

/-- Whether the files stay apart is found out by letting it all happen. -/
def decideSparesAll (s : StoredQueue) : (moves : List (Move α)) → Decidable (s.SparesAll moves)
  | [] => isTrue trivial
  | m :: moves =>
    have := decideSparesAll (s.turn m).1 moves
    inferInstanceAs (Decidable (s.Spares m ∧ (s.turn m).1.SparesAll moves))

instance (s : StoredQueue) (moves : List (Move α)) : Decidable (s.SparesAll moves) :=
  s.decideSparesAll moves

/-- **The files of a queue stay apart**, whatever is asked. -/
theorem Sits.turn (h : s.Sits) {m : Move α} (spares : s.Spares m) : (s.turn m).1.Sits := by
  cases m with
  | names entries => exact spares
  | call c =>
    cases c with
    | put now obj => exact Queue.Sits.put h now obj
    | get => exact Queue.Sits.get h
    | getUpTo n => exact Queue.Sits.getUpTo h n
    | ack version => exact Queue.Sits.ack h version
    | flush => exact Queue.Sits.flush h
    | close => exact Queue.Sits.close h
    | reopen maxSize =>
      have folder := Queue.folder_flush s.disk s.queue
      have tidy : (s.queue.drop s.disk).Tidy s.queue.folder := folder ▸ (Queue.Sits.flush h).tidy
      simp only [StoredQueue.turn]
      cases opened : Queue.openIn (s.queue.drop s.disk) s.queue.folder maxSize with
      | mk d r =>
        obtain ⟨tidy', sits⟩ := Queue.openIn_sits tidy opened
        cases r with
        | ok q => exact (sits q rfl).1
        | error e =>
          refine ⟨folder.symm ▸ tidy', ?_, ?_⟩
          · rintro _ ⟨⟩
          · rintro ⟨⟩

theorem Sits.reach (h : s.Sits) {moves : List (Move α)} (spares : s.SparesAll moves) : (s.reach moves).Sits := by
  induction moves generalizing s with
  | nil => exact h
  | cons m moves ih => exact ih (h.turn spares.1) spares.2

end StoredQueue

end Outbox
