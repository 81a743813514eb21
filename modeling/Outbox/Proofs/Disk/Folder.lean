import Outbox.Disk.Tree

/-!
# Folders that are kept in order

A folder whose files are only worked on through the operations of the disk stays in order: its names
are different, each file has one name in it, and no name stands for a file that never was.

* `Disk.lookup?_child` and `Disk.mem_children` are the two views of a folder, by name and as a list;
* `Disk.Tidy` is the order;
* `Tidy.create`, `Tidy.unlink` and `Tidy.update` say what the operations do in such a folder, and
  that it stays one.
-/

namespace Outbox.Disk

/-! ## Two views of a folder -/

theorem nameIn?_eq_some_iff {folder p : Place} {name : String} :
    nameIn? folder p = some name ↔ p = folder ++ [name] := by
  induction folder generalizing p with
  | nil =>
    cases p with
    | nil => simp [nameIn?]
    | cons b p' => cases p' <;> simp [nameIn?]
  | cons a folder ih =>
    cases p with
    | nil => simp [nameIn?]
    | cons b p' =>
      by_cases h : a = b
      · simp [nameIn?, h, ih]
      · simp [nameIn?, h, Ne.symm h]

/-- What is at a place in a folder is what the folder lists there. -/
theorem lookup?_child (d : Disk) (folder : Place) (name : String) :
    d.lookup? (folder ++ [name]) = (d.children folder).lookup name := by
  have below : folder ++ [name] ≠ [] := by simp
  rw [lookup?, if_neg below, children]
  induction d.entries with
  | nil => rfl
  | cons entry entries ih =>
    obtain ⟨p, e⟩ := entry
    cases hn : nameIn? folder p with
    | none =>
      have other : (folder ++ [name] == p) = false := by
        rw [beq_eq_false_iff_ne]
        rintro rfl
        simp [nameIn?_eq_some_iff.2] at hn
      simp [List.lookup_cons, other, hn, ih]
    | some name' =>
      obtain rfl := nameIn?_eq_some_iff.1 hn
      simp only [List.lookup_cons, List.filterMap_cons, hn, Option.map_some]
      by_cases same : name = name'
      · simp [same]
      · have other : (folder ++ [name] == folder ++ [name']) = false := by simpa using same
        have other' : (name == name') = false := by simpa using same
        rw [other, other', ih]

theorem mem_of_lookup {β : Type} {l : List (String × β)} {name : String} {e : β}
    (h : l.lookup name = some e) : (name, e) ∈ l := by
  obtain ⟨front, rest, rfl, -⟩ := List.lookup_eq_some_iff.1 h
  simp

theorem lookup_of_mem {β : Type} {l : List (String × β)} (distinct : (l.map Prod.fst).Nodup)
    {name : String} {e : β} (h : (name, e) ∈ l) : l.lookup name = some e := by
  induction l with
  | nil => simp at h
  | cons x l ih =>
    obtain ⟨name', e'⟩ := x
    simp only [List.map_cons, List.nodup_cons] at distinct
    rw [List.lookup_cons]
    rcases List.mem_cons.1 h with same | later
    · cases same
      simp
    · have other : (name == name') = false := by
        rw [beq_eq_false_iff_ne]
        rintro rfl
        exact distinct.1 (List.mem_map.2 ⟨(name, e), later, rfl⟩)
      rw [other]
      exact ih distinct.2 later

/-- Without the entries of one key, the others are found as before. -/
theorem lookup_filter_ne {κ β : Type} [BEq κ] [LawfulBEq κ] [DecidableEq κ] (l : List (κ × β))
    (k k' : κ) : (l.filter fun x => x.1 ≠ k).lookup k' = if k' = k then none else l.lookup k' := by
  induction l with
  | nil => simp
  | cons x l ih =>
    obtain ⟨k₀, e⟩ := x
    by_cases gone : k₀ = k
    · subst gone
      rw [List.filter_cons_of_neg (by simp), ih, List.lookup_cons]
      by_cases same : k' = k₀
      · simp [same]
      · have other : (k' == k₀) = false := by simpa using same
        simp [same, other]
    · rw [List.filter_cons_of_pos (by simpa using gone), List.lookup_cons, List.lookup_cons, ih]
      by_cases same : k' = k₀
      · simp [same, gone]
      · have other : (k' == k₀) = false := by simpa using same
        rw [other]

/-- Without the entry of one name, a folder lists the others. -/
theorem children_without (d : Disk) (folder : Place) (name : String) :
    children { d with entries := d.entries.filter fun e => e.1 ≠ folder ++ [name] } folder =
      (d.children folder).filter fun c => c.1 ≠ name := by
  unfold children
  simp only
  induction d.entries with
  | nil => rfl
  | cons entry entries ih =>
    obtain ⟨p, e⟩ := entry
    by_cases gone : p = folder ++ [name]
    · have named : nameIn? folder p = some name := nameIn?_eq_some_iff.2 gone
      rw [List.filter_cons_of_neg (by simpa using gone), ih, List.filterMap_cons]
      simp [named]
    · rw [List.filter_cons_of_pos (by simpa using gone), List.filterMap_cons, List.filterMap_cons, ih]
      cases hn : nameIn? folder p with
      | none => rfl
      | some name' =>
        have other : name' ≠ name := fun same => gone (nameIn?_eq_some_iff.1 (same ▸ hn))
        simp [other]

/-- A folder does not miss what is not in it. -/
theorem children_without_other (d : Disk) {folder p : Place} (outside : ¬ folder <+: p) :
    children { d with entries := d.entries.filter fun e => e.1 ≠ p } folder = d.children folder := by
  unfold children
  simp only
  induction d.entries with
  | nil => rfl
  | cons entry entries ih =>
    obtain ⟨p', e⟩ := entry
    by_cases gone : p' = p
    · have unnamed : nameIn? folder p' = none := by
        rw [Option.eq_none_iff_forall_ne_some]
        intro name named
        rw [gone, nameIn?_eq_some_iff] at named
        exact outside (named ▸ List.prefix_append _ _)
      rw [List.filter_cons_of_neg (by simpa using gone), ih, List.filterMap_cons]
      simp only [unnamed, Option.map_none]
    · rw [List.filter_cons_of_pos (by simpa using gone), List.filterMap_cons, List.filterMap_cons, ih]

/-- A new file is empty, as a file is that never was. -/
theorem read_concat (d : Disk) (entries : List (Place × Entry)) (id : Nat) :
    read ⟨entries, d.contents ++ [[]]⟩ id = d.read id := by
  simp only [read, List.getD_eq_getElem?_getD]
  rw [List.getElem?_append]
  split
  · rfl
  · next beyond =>
    rw [List.getElem?_eq_none (Nat.le_of_not_lt beyond)]
    cases hid : id - d.contents.length <;> simp

/-- There is nothing in a file that never was. -/
theorem read_of_le {d : Disk} {id : Nat} (h : d.contents.length ≤ id) : d.read id = [] := by
  rw [read, List.getD_eq_getElem?_getD, List.getElem?_eq_none h, Option.getD_none]

theorem content?_eq_some_iff {d : Disk} {p : Place} {bytes : List UInt8} :
    d.content? p = some bytes ↔ ∃ file, d.lookup? p = some (.file file) ∧ d.read file = bytes := by
  unfold content? file?
  split
  · next file found => simp [found]
  · next other => simpa using fun file found => absurd found (other file)

/-- Nothing changes if a file gets the content that it has. -/
theorem update_read (d : Disk) (id : Nat) : d.update id (d.read id) = d := by
  have same : d.contents.set id (d.read id) = d.contents := by
    by_cases old : id < d.contents.length
    · rw [read, List.getD_eq_getElem?_getD, List.getElem?_eq_getElem old, Option.getD_some,
        List.set_getElem_self]
    · exact List.set_eq_of_length_le (Nat.le_of_not_lt old)
  rw [update, same]

/-! ## Order in a folder -/

/-- A folder in order. -/
structure Tidy (d : Disk) (folder : Place) : Prop where
  isFolder : d.lookup? folder = some .folder
  named : folder.all isName = true
  distinct : ((d.children folder).map Prod.fst).Nodup
  bounded : ∀ {name : String} {id : Nat}, d.lookup? (folder ++ [name]) = some (.file id) →
    id < d.contents.length
  single : ∀ {a b : String} {id : Nat}, d.lookup? (folder ++ [a]) = some (.file id) →
    d.lookup? (folder ++ [b]) = some (.file id) → a = b

namespace Tidy

variable {d : Disk} {folder : Place}

theorem mem_children (h : d.Tidy folder) {name : String} {e : Entry} :
    (name, e) ∈ d.children folder ↔ d.lookup? (folder ++ [name]) = some e := by
  rw [lookup?_child]
  exact ⟨lookup_of_mem h.distinct, mem_of_lookup⟩

/-- A file gets a new content. -/
theorem update (h : d.Tidy folder) (id : Nat) (bytes : List UInt8) :
    (d.update id bytes).Tidy folder where
  isFolder := h.isFolder
  named := h.named
  distinct := h.distinct
  bounded found := by simpa [Disk.update] using h.bounded found
  single := h.single

/-- A file of the folder that gets a new content has it. -/
theorem content?_update_same (h : d.Tidy folder) {name : String} {id : Nat}
    (found : d.lookup? (folder ++ [name]) = some (.file id)) (bytes : List UInt8) :
    (d.update id bytes).content? (folder ++ [name]) = some bytes :=
  content?_eq_some_iff.2 ⟨id, found, read_update_same (h.bounded found) bytes⟩

/-- The other files of the folder keep theirs. -/
theorem content?_update_other (h : d.Tidy folder) {name name' : String} {id : Nat}
    (found : d.lookup? (folder ++ [name]) = some (.file id)) (other : name' ≠ name) (bytes : List UInt8) :
    (d.update id bytes).content? (folder ++ [name']) = d.content? (folder ++ [name']) := by
  refine Option.ext fun content => ?_
  rw [content?_eq_some_iff, content?_eq_some_iff]
  refine exists_congr fun id' => and_congr_right fun found' => ?_
  have apart : id ≠ id' := fun same => other (h.single found' (same ▸ found))
  rw [read_update_other apart]

/-- A file that is there is opened. -/
theorem create?_file {p : Place} {id : Nat} (h : d.lookup? p = some (.file id)) :
    d.create? p = some (d, id) := by
  rw [create?, h]

/-- A new file is created. It is empty, and is the only thing that changes. -/
theorem create (h : d.Tidy folder) {name : String} (valid : isName name = true)
    (free : d.lookup? (folder ++ [name]) = none) :
    ∃ d', d.create? (folder ++ [name]) = some (d', d.contents.length) ∧ d'.Tidy folder ∧
      d'.contents.length = d.contents.length + 1 ∧ (∀ id, d'.read id = d.read id) ∧
      ∀ other, d'.lookup? (folder ++ [other]) =
        if other = name then some (.file d.contents.length) else d.lookup? (folder ++ [other]) := by
  have names : (folder ++ [name]).all isName = true := by simp [h.named, valid]
  refine ⟨⟨d.entries ++ [(folder ++ [name], .file d.contents.length)], d.contents ++ [[]]⟩, ?_⟩
  generalize created : (⟨d.entries ++ [(folder ++ [name], .file d.contents.length)],
    d.contents ++ [[]]⟩ : Disk) = d'
  have children : d'.children folder = d.children folder ++ [(name, .file d.contents.length)] := by
    simp [← created, Disk.children, nameIn?_eq_some_iff.2]
  have length : d'.contents.length = d.contents.length + 1 := by simp [← created]
  have absent : name ∉ (d.children folder).map Prod.fst := by
    rw [List.mem_map]
    rintro ⟨⟨_, e⟩, listed, rfl⟩
    rw [h.mem_children.1 listed] at free
    cases free
  have lookups (other : String) : d'.lookup? (folder ++ [other]) =
      if other = name then some (.file d.contents.length) else d.lookup? (folder ++ [other]) := by
    rw [lookup?_child, children, List.lookup_append, ← lookup?_child]
    by_cases same : other = name
    · simp [same, free]
    · have other' : (other == name) = false := by simpa using same
      simp [same, List.lookup_cons, other']
  have isFolder : d'.lookup? folder = some .folder := by
    have before := h.isFolder
    unfold lookup? at before ⊢
    split
    · rfl
    · next below =>
      rw [if_neg below] at before
      simp [← created, List.lookup_append, before]
  refine ⟨?_, ⟨isFolder, h.named, ?_, ?_, ?_⟩, length, ?_, lookups⟩
  · rw [create?, free]
    simp only [List.dropLast_concat, h.isFolder, names, and_self, if_true, created]
  · rw [children, List.map_append, List.nodup_append]
    refine ⟨h.distinct, by simp, ?_⟩
    rintro a listed b new rfl
    simp only [List.map_cons, List.map_nil, List.mem_singleton] at new
    exact absent (new ▸ listed)
  · intro other id found
    rw [lookups] at found
    split at found
    · cases found
      omega
    · have := h.bounded found
      omega
  · intro a b id ha hb
    rw [lookups] at ha hb
    split at ha <;> split at hb
    · next ea eb => rw [ea, eb]
    · cases ha
      exact absurd (h.bounded hb) (Nat.lt_irrefl _)
    · cases hb
      exact absurd (h.bounded ha) (Nat.lt_irrefl _)
    · exact h.single ha hb
  · intro id
    rw [← created, read_concat]

/-- A file is removed. What it held is still there for who has it open. -/
theorem unlink (h : d.Tidy folder) {name : String} {id : Nat}
    (found : d.lookup? (folder ++ [name]) = some (.file id)) :
    ∃ d', d.unlink? (folder ++ [name]) = some d' ∧ d'.Tidy folder ∧ d'.contents = d.contents ∧
      ∀ other, d'.lookup? (folder ++ [other]) =
        if other = name then none else d.lookup? (folder ++ [other]) := by
  refine ⟨{ d with entries := d.entries.filter fun e => e.1 ≠ folder ++ [name] }, ?_⟩
  generalize removed : ({ d with entries := d.entries.filter fun e => e.1 ≠ folder ++ [name] } : Disk)
    = d'
  have children : d'.children folder = (d.children folder).filter fun c => c.1 ≠ name := by
    rw [← removed]
    exact d.children_without folder name
  have lookups (other : String) : d'.lookup? (folder ++ [other]) =
      if other = name then none else d.lookup? (folder ++ [other]) := by
    rw [lookup?_child, children, lookup_filter_ne, lookup?_child]
  have isFolder : d'.lookup? folder = some .folder := by
    have before := h.isFolder
    unfold lookup? at before ⊢
    split
    · rfl
    · next below =>
      rw [if_neg below] at before
      rw [← removed]
      show (d.entries.filter fun e => e.1 ≠ folder ++ [name]).lookup folder = _
      rw [lookup_filter_ne, if_neg (by simp), before]
  refine ⟨by rw [unlink?, found, ← removed], ⟨isFolder, h.named, ?_, ?_, ?_⟩, by simp [← removed],
    lookups⟩
  · rw [children]
    exact h.distinct.sublist (List.filter_sublist.map _)
  · intro other id' listed
    rw [lookups] at listed
    split at listed
    · cases listed
    · simpa [← removed] using h.bounded listed
  · intro a b id' ha hb
    rw [lookups] at ha hb
    split at ha
    · cases ha
    · split at hb
      · cases hb
      · exact h.single ha hb

end Tidy

/-! ## What happens elsewhere -/

/-- What happened to a disk did not happen in a folder: it lists what it listed, and the files that
were there hold what they held. -/
structure Spares (d d' : Disk) (folder : Place) : Prop where
  isFolder : d'.lookup? folder = d.lookup? folder
  children : d'.children folder = d.children folder
  length : d.contents.length ≤ d'.contents.length
  read : ∀ file < d.contents.length, d'.read file = d.read file

namespace Spares

variable {d d' d'' : Disk} {folder : Place}

theorem refl (d : Disk) (folder : Place) : d.Spares d folder :=
  ⟨rfl, rfl, Nat.le_refl _, fun _ _ => rfl⟩

theorem trans (h : d.Spares d' folder) (h' : d'.Spares d'' folder) : d.Spares d'' folder where
  isFolder := h'.isFolder.trans h.isFolder
  children := h'.children.trans h.children
  length := Nat.le_trans h.length h'.length
  read file old := by
    rw [h'.read file (Nat.lt_of_lt_of_le old h.length), h.read file old]

theorem lookup? (h : d.Spares d' folder) (name : String) :
    d'.lookup? (folder ++ [name]) = d.lookup? (folder ++ [name]) := by
  rw [lookup?_child, h.children, lookup?_child]

theorem tidy (h : d.Spares d' folder) (before : d.Tidy folder) : d'.Tidy folder where
  isFolder := h.isFolder.trans before.isFolder
  named := before.named
  distinct := by
    rw [h.children]
    exact before.distinct
  bounded {name id} found := by
    rw [h.lookup?] at found
    exact Nat.lt_of_lt_of_le (before.bounded found) h.length
  single {a b id} ha hb := by
    rw [h.lookup?] at ha hb
    exact before.single ha hb

/-- A name that is not in the folder, nor the folder itself, is removed. -/
theorem unlink? {p : Place} (outside : ¬ folder <+: p) (removed : d.unlink? p = some d') :
    d.Spares d' folder := by
  unfold Disk.unlink? at removed
  split at removed
  · cases removed
    refine ⟨?_, d.children_without_other outside, Nat.le_refl _, fun _ _ => rfl⟩
    show (if folder = [] then _ else (d.entries.filter fun e => e.1 ≠ p).lookup folder) = _
    have other : folder ≠ p := fun same => outside (same ▸ List.prefix_refl _)
    rw [lookup_filter_ne, if_neg other, Disk.lookup?]
  · cases removed

end Spares

/-! ## A new folder -/

/-- A folder can be made at a place: nothing is there, nor below it, and nothing is in the way. -/
structure Free (d : Disk) (folder : Place) : Prop where
  named : folder.all isName = true
  absent : ∀ e ∈ d.entries, ¬ folder <+: e.1
  makes : (d.makeFolders? folder).isSome

/-- A folder in order with nothing in it. -/
structure Blank (d : Disk) (folder : Place) : Prop where
  tidy : d.Tidy folder
  empty : d.children folder = []

theorem Blank.lookup? {d : Disk} {folder : Place} (h : d.Blank folder) (name : String) :
    d.lookup? (folder ++ [name]) = none := by
  rw [lookup?_child, h.empty]
  rfl

theorem blank_of_children_eq_nil {d : Disk} {folder : Place} (isFolder : d.lookup? folder = some .folder)
    (named : folder.all isName = true) (empty : d.children folder = []) : d.Blank folder := by
  have nothing (name : String) : d.lookup? (folder ++ [name]) = none := by
    rw [lookup?_child, empty]
    rfl
  refine ⟨⟨isFolder, named, by simp [empty], ?_, ?_⟩, empty⟩
  · intro name id found
    rw [nothing] at found
    cases found
  · intro a b id found
    rw [nothing] at found
    cases found

theorem lookup_eq_none_of_absent {entries : List (Place × Entry)} {folder : Place}
    (absent : ∀ e ∈ entries, ¬ folder <+: e.1) : entries.lookup folder = none := by
  rw [List.lookup_eq_none_iff]
  intro e member
  rw [bne_iff_ne]
  rintro same
  exact absent e member (same ▸ List.prefix_refl _)

theorem Way.entries_of_create {w w' : Way} {name : String} (h : w.create? name = some w') :
    w'.here = w.here ++ [name] ∧
      w'.disk.entries = w.disk.entries ++ [(w.here ++ [name], .folder)] := by
  unfold Way.create? at h
  split at h
  · cases h
    exact ⟨rfl, rfl⟩
  · cases h

/-- A step on the way makes a folder, or leaves the disk as it is. -/
theorem Way.enter?_cases {w w' : Way} {name : String} (h : w.enter? name = some w') :
    w'.here = w.here ++ [name] ∧
      (w'.disk.entries = w.disk.entries ++ [(w.here ++ [name], .folder)] ∨
        w'.disk.entries = w.disk.entries ∧ w.disk.lookup? (w.here ++ [name]) = some .folder) := by
  unfold Way.enter? at h
  split at h
  · obtain ⟨here, made⟩ := Way.entries_of_create h
    exact ⟨here, .inl made⟩
  · split at h
    · next found =>
      cases h
      exact ⟨rfl, .inr ⟨rfl, found⟩⟩
    · cases h
    · obtain ⟨here, made⟩ := Way.entries_of_create h
      exact ⟨here, .inl made⟩

/-- The way to a folder that is not there ends with its creation. -/
theorem Way.entries_of_enter {folder : Place} {rest : List String} {w w' : Way} (some_rest : rest ≠ [])
    (way : w.here ++ rest = folder) (absent : ∀ e ∈ w.disk.entries, ¬ folder <+: e.1)
    (h : rest.foldlM Way.enter? w = some w') :
    ∃ before, w'.disk.entries = before ++ [(folder, .folder)] ∧ ∀ e ∈ before, ¬ folder <+: e.1 := by
  induction rest generalizing w with
  | nil => exact absurd rfl some_rest
  | cons name rest ih =>
    rw [List.foldlM_cons] at h
    simp only [Option.bind_eq_bind, Option.bind_eq_some_iff] at h
    obtain ⟨w₁, entered, h⟩ := h
    obtain ⟨here, made⟩ := Way.enter?_cases entered
    cases rest with
    | nil =>
      cases h
      rcases made with made | ⟨-, found⟩
      · exact ⟨w.disk.entries, by rw [made, way], absent⟩
      · have nothing := lookup_eq_none_of_absent absent
        rw [way, lookup?] at found
        split at found
        · next root => simp [root] at way
        · rw [nothing] at found
          cases found
    | cons name' rest =>
      refine ih (by simp) (by rw [here, ← way]; simp) ?_ h
      rcases made with made | ⟨same, -⟩
      · intro e member
        rw [made, List.mem_append] at member
        rcases member with old | new
        · exact absent e old
        · rw [List.mem_singleton.1 new]
          intro shorter
          have := shorter.length_le
          rw [← way] at this
          simp only [List.length_append, List.length_cons, List.length_nil] at this
          omega
      · exact same ▸ absent

/-- **A folder that was not there is empty.** -/
theorem Free.make {d : Disk} {folder : Place} (h : d.Free folder) :
    ∃ d', d.makeFolders? folder = some d' ∧ d'.Blank folder := by
  obtain ⟨d', made⟩ := Option.isSome_iff_exists.1 h.makes
  refine ⟨d', made, ?_⟩
  have nothing := lookup_eq_none_of_absent h.absent
  by_cases root : folder = []
  · subst root
    have none_at_all : d.entries = [] :=
      List.eq_nil_iff_forall_not_mem.2 fun e member => h.absent e member List.nil_prefix
    have empty : d.children [] = [] := by simp [children, none_at_all]
    have same : d' = d := by
      rw [makeFolders?, if_pos (by rfl), Option.some.injEq] at made
      exact made.symm
    rw [same]
    exact blank_of_children_eq_nil rfl h.named empty
  · have absent : d.lookup? folder = none := by rw [lookup?, if_neg root, nothing]
    rw [makeFolders?, absent, if_neg (by simp), Option.map_eq_some_iff] at made
    obtain ⟨w, way, rfl⟩ := made
    obtain ⟨before, entries, absent'⟩ := Way.entries_of_enter root (List.nil_append folder) h.absent way
    have empty : w.disk.children folder = [] := by
      rw [children, entries, List.filterMap_eq_nil_iff]
      rintro ⟨p, e⟩ member
      cases named : nameIn? folder p with
      | none => simp [named]
      | some name =>
        obtain rfl := nameIn?_eq_some_iff.1 named
        rcases List.mem_append.1 member with old | new
        · exact absurd (List.prefix_append _ _) (absent' _ old)
        · simp at new
    refine blank_of_children_eq_nil ?_ h.named empty
    rw [lookup?, if_neg root, entries, List.lookup_append, lookup_eq_none_of_absent absent']
    simp

end Outbox.Disk
