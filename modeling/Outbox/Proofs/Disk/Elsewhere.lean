import Mathlib.Data.List.Basic
import Mathlib.Data.List.Pairwise
import Outbox.Proofs.Disk.Folder

/-!
# Folders side by side

What happens in one folder is no matter in another one, if neither lies in the other and no file has a name in
both. A folder in which somebody works gets new files only, so this goes on.

* `Place.Apart` are places of which neither lies in the other;
* `Disk.Inside` says that what happened to a disk happened in a folder, with `Inside.update`, `Inside.create`,
  `Inside.unlink` and `Inside.removeAll` for the operations of the disk;
* `Disk.Aside` says that a folder and its files are as they were;
* `Disk.Divides` are folders that share nothing, and `Divides.inside` is the law: who works in one of them leaves
  the others as they were;
* `Disk.Clear` is a place where nothing is, and `Divides.make` makes a folder there.
-/

namespace Outbox

/-! ## Places -/

/-- Neither of two places lies in the other. -/
structure Place.Apart (p q : Place) : Prop where
  left : ¬ p <+: q
  right : ¬ q <+: p

instance (p q : Place) : Decidable (Place.Apart p q) :=
  decidable_of_iff (¬ p <+: q ∧ ¬ q <+: p) ⟨fun h => ⟨h.1, h.2⟩, fun h => ⟨h.left, h.right⟩⟩

namespace Place.Apart

variable {p q : Place}

theorem symm (h : Apart p q) : Apart q p :=
  ⟨h.right, h.left⟩

theorem ne (h : Apart p q) : p ≠ q := by
  rintro rfl
  exact h.left (List.prefix_refl _)

/-- What lies in one of them does not lie in the other. -/
theorem not_prefix (h : Apart p q) {r : Place} (within : q <+: r) : ¬ p <+: r := fun within' =>
  (List.prefix_or_prefix_of_prefix within' within).elim h.left h.right

end Place.Apart

namespace Disk

variable {d d' d'' : Disk} {folder other : Place} {file : Nat}

/-- A file has a name in a folder. -/
def Lists (d : Disk) (folder : Place) (file : Nat) : Prop :=
  ∃ name, d.lookup? (folder ++ [name]) = some (.file file)

/-- There is nothing at a place, nor below it. -/
def Clear (d : Disk) (folder : Place) : Prop :=
  ∀ e ∈ d.entries, ¬ folder <+: e.1

/-- What is not in a folder. -/
def outside (d : Disk) (folder : Place) : List (Place × Entry) :=
  d.entries.filter fun e => !folder.isPrefixOf e.1

/-- Where nothing is, no file is listed. -/
theorem Clear.empty (nothing : d.Clear folder) (file : Nat) : ¬ d.Lists folder file := by
  rintro ⟨name, found⟩
  rw [lookup?, if_neg (by simp)] at found
  obtain ⟨front, rest, entries, -⟩ := List.lookup_eq_some_iff.1 found
  exact nothing (folder ++ [name], .file file) (by simp [entries]) (List.prefix_append folder [name])

theorem mem_outside {e : Place × Entry} : e ∈ d.outside folder ↔ e ∈ d.entries ∧ ¬ folder <+: e.1 := by
  simp [outside, List.mem_filter, ← List.isPrefixOf_iff_prefix]

/-- Without the entries of some keys, the others are found as before. -/
theorem lookup_filter (keep : Place → Bool) (entries : List (Place × Entry)) (p : Place) :
    (entries.filter fun e => keep e.1).lookup p = if keep p then entries.lookup p else none := by
  induction entries with
  | nil => simp
  | cons entry entries ih =>
    obtain ⟨p', e⟩ := entry
    by_cases same : p = p'
    · subst same
      cases kept : keep p with
      | true => simp [kept]
      | false =>
        rw [kept] at ih
        simp [kept, ih]
    · have no : (p == p') = false := by simpa using same
      rw [List.lookup_cons, no, ← ih, List.filter_cons]
      split
      · rw [List.lookup_cons, no]
      · rfl

theorem lookup_outside {p : Place} (out : ¬ folder <+: p) :
    (d.outside folder).lookup p = d.entries.lookup p := by
  rw [outside, lookup_filter (fun p => !folder.isPrefixOf p), if_pos]
  simpa [← List.isPrefixOf_iff_prefix] using out

/-- A folder that is apart lists what is outside. -/
theorem children_eq_outside (apart : Place.Apart folder other) :
    d.children other =
      (d.outside folder).filterMap fun (p, e) => (nameIn? other p).map fun name => (name, e) := by
  rw [children, outside, List.filterMap_filter]
  refine List.filterMap_congr fun e _ => ?_
  by_cases within : folder <+: e.1
  · have unnamed : nameIn? other e.1 = none := by
      rw [Option.eq_none_iff_forall_ne_some]
      intro name named
      rw [nameIn?_eq_some_iff] at named
      exact apart.not_prefix (named ▸ List.prefix_append other [name]) within
    simp [unnamed]
  · have out : folder.isPrefixOf e.1 = false := by rwa [← Bool.not_eq_true, List.isPrefixOf_iff_prefix]
    simp [out]

/-! ## What happens in a folder -/

/-- What happened to a disk happened in a folder: nothing changed outside, only files of the folder were written,
and it has no other files than before, but for new ones. -/
structure Inside (d d' : Disk) (folder : Place) : Prop where
  outside : d'.outside folder = d.outside folder
  length : d.contents.length ≤ d'.contents.length
  read : ∀ file < d.contents.length, ¬ d.Lists folder file → d'.read file = d.read file
  fresh : ∀ file, d'.Lists folder file →
    d.Lists folder file ∨ d.contents.length ≤ file ∧ file < d'.contents.length

namespace Inside

theorem refl (d : Disk) (folder : Place) : d.Inside d folder :=
  ⟨rfl, Nat.le_refl _, fun _ _ _ => rfl, fun _ => .inl⟩

theorem trans (h : d.Inside d' folder) (h' : d'.Inside d'' folder) : d.Inside d'' folder where
  outside := h'.outside.trans h.outside
  length := Nat.le_trans h.length h'.length
  read file old foreign := by
    have still : ¬ d'.Lists folder file := fun listed => (h.fresh file listed).elim foreign fun new =>
      Nat.not_lt_of_le new.1 old
    rw [h'.read file (Nat.lt_of_lt_of_le old h.length) still, h.read file old foreign]
  fresh file listed := by
    have := h.length
    have := h'.length
    rcases h'.fresh file listed with before | new
    · rcases h.fresh file before with before | new
      · exact .inl before
      · exact .inr ⟨new.1, by omega⟩
    · exact .inr ⟨by omega, new.2⟩

/-- A file of the folder is written. -/
theorem update (listed : d.Lists folder file) (bytes : List UInt8) :
    d.Inside (d.update file bytes) folder where
  outside := rfl
  length := by simp [Disk.update]
  read file' _ foreign := read_update_other (by rintro rfl; exact foreign listed) bytes
  fresh _ := .inl

/-- A file of the folder is opened, or created. -/
theorem create {name : String} (created : d.create? (folder ++ [name]) = some (d', file)) :
    d.Inside d' folder ∧ d'.Lists folder file ∧ ∀ old, d.Lists folder old → d'.Lists folder old := by
  unfold create? at created
  split at created
  · next found =>
    cases created
    exact ⟨refl d folder, ⟨name, found⟩, fun _ => id⟩
  · cases created
  · next free =>
    split at created
    · cases created
      have below (name' : String) : folder ++ [name'] ≠ [] := by simp
      rw [lookup?, if_neg (below name)] at free
      have lookups (name' : String) : lookup? ⟨d.entries ++ [(folder ++ [name], .file d.contents.length)],
          d.contents ++ [[]]⟩ (folder ++ [name']) = (d.entries.lookup (folder ++ [name'])).or
            (if name' = name then some (.file d.contents.length) else none) := by
        rw [lookup?, if_neg (below name'), List.lookup_append]
        congr 1
        by_cases same : name' = name
        · simp [same]
        · have no : (folder ++ [name'] == folder ++ [name]) = false := by simpa using same
          rw [List.lookup_cons, no, if_neg same]
          rfl
      refine ⟨⟨?_, by simp, fun file _ _ => read_concat d _ file, fun file listed => ?_⟩, ⟨name, ?_⟩,
        fun old before => ?_⟩
      · simp [Disk.outside, List.filter_append]
      · obtain ⟨name', found⟩ := listed
        rw [lookups] at found
        rcases Option.or_eq_some_iff.1 found with old | ⟨-, new⟩
        · exact .inl ⟨name', by rw [lookup?, if_neg (below name'), old]⟩
        · split at new
          · cases new
            exact .inr ⟨Nat.le_refl _, by simp⟩
          · cases new
      · rw [lookups, free, if_pos rfl]
        rfl
      · obtain ⟨name', found⟩ := before
        rw [lookup?, if_neg (below name')] at found
        exact ⟨name', by rw [lookups, found, Option.some_or]⟩
    · cases created

/-- A file of the folder is written, which may be a new one. -/
theorem write {name : String} {bytes : List UInt8} (written : d.write? (folder ++ [name]) bytes = some d') :
    d.Inside d' folder := by
  rw [write?, Option.map_eq_some_iff] at written
  obtain ⟨⟨d₁, file⟩, created, rfl⟩ := written
  obtain ⟨inside, listed, -⟩ := create created
  exact inside.trans (update listed bytes)

/-- Some of what is in the folder is removed, and nothing else. -/
theorem filter {keep : Place → Bool} (kept : ∀ p, ¬ folder <+: p → keep p = true) :
    d.Inside { d with entries := d.entries.filter fun e => keep e.1 } folder := by
  refine ⟨?_, Nat.le_refl _, fun _ _ _ => rfl, fun file listed => .inl ?_⟩
  · rw [Disk.outside, List.filter_filter, Disk.outside]
    refine List.filter_congr fun e _ => ?_
    by_cases within : folder <+: e.1
    · simp [List.isPrefixOf_iff_prefix.2 within]
    · simp [kept e.1 within]
  · obtain ⟨name, found⟩ := listed
    have below : folder ++ [name] ≠ [] := by simp
    rw [lookup?, if_neg below] at found
    simp only [lookup_filter] at found
    split at found
    · exact ⟨name, by rw [lookup?, if_neg below, found]⟩
    · cases found

theorem unlink {name : String} (removed : d.unlink? (folder ++ [name]) = some d') : d.Inside d' folder := by
  unfold unlink? at removed
  split at removed
  · cases removed
    have kept (p : Place) (out : ¬ folder <+: p) : decide (p ≠ folder ++ [name]) = true :=
      decide_eq_true fun same => out (same ▸ List.prefix_append folder [name])
    exact filter kept
  · cases removed

theorem removeAll (removed : d.removeAll? folder = some d') : d.Inside d' folder := by
  unfold removeAll? at removed
  split at removed
  · cases removed
    have kept (p : Place) (out : ¬ folder <+: p) : (!folder.isPrefixOf p) = true := by
      simpa [← List.isPrefixOf_iff_prefix] using out
    exact filter kept
  · cases removed

theorem lookup? (h : d.Inside d' folder) {p : Place} (out : ¬ folder <+: p) : d'.lookup? p = d.lookup? p := by
  rw [Disk.lookup?, Disk.lookup?, ← lookup_outside out, h.outside, lookup_outside out]

theorem children (h : d.Inside d' folder) (apart : Place.Apart folder other) :
    d'.children other = d.children other := by
  rw [children_eq_outside apart, children_eq_outside apart, h.outside]

/-- Where nothing was, there is nothing still. -/
theorem clear (h : d.Inside d' folder) (apart : Place.Apart folder other) (nothing : d.Clear other) :
    d'.Clear other := fun e member within =>
  have out : e ∈ d'.outside folder := mem_outside.2 ⟨member, apart.not_prefix within⟩
  nothing e (mem_outside.1 (h.outside ▸ out)).1 within

end Inside

/-! ## A folder that is left alone -/

/-- A folder lists what it listed, and its files hold what they held. -/
structure Aside (d d' : Disk) (folder : Place) : Prop where
  isFolder : d'.lookup? folder = d.lookup? folder
  children : d'.children folder = d.children folder
  length : d.contents.length ≤ d'.contents.length
  read : ∀ file, d.Lists folder file → d'.read file = d.read file

namespace Aside

theorem lookup? (h : d.Aside d' folder) (name : String) :
    d'.lookup? (folder ++ [name]) = d.lookup? (folder ++ [name]) := by
  rw [lookup?_child, h.children, lookup?_child]

theorem lists_iff (h : d.Aside d' folder) : d'.Lists folder file ↔ d.Lists folder file := by
  simp only [Lists, h.lookup?]

theorem refl (d : Disk) (folder : Place) : d.Aside d folder :=
  ⟨rfl, rfl, Nat.le_refl _, fun _ _ => rfl⟩

theorem trans (h : d.Aside d' folder) (h' : d'.Aside d'' folder) : d.Aside d'' folder where
  isFolder := h'.isFolder.trans h.isFolder
  children := h'.children.trans h.children
  length := Nat.le_trans h.length h'.length
  read file listed := (h'.read file (h.lists_iff.2 listed)).trans (h.read file listed)

theorem tidy (h : d.Aside d' folder) (before : d.Tidy folder) : d'.Tidy folder where
  isFolder := h.isFolder.trans before.isFolder
  named := before.named
  distinct := h.children ▸ before.distinct
  bounded {name id} found := by
    rw [h.lookup?] at found
    exact Nat.lt_of_lt_of_le (before.bounded found) h.length
  single {a b id} ha hb := by
    rw [h.lookup?] at ha hb
    exact before.single ha hb

end Aside

/-- A folder is left alone by what spares all files that there are. -/
theorem Spares.aside (h : d.Spares d' folder) (bounded : ∀ file, d.Lists folder file → file < d.contents.length) :
    d.Aside d' folder :=
  ⟨h.isFolder, h.children, h.length, fun file listed => h.read file (bounded file listed)⟩

/-! ## Folders that share nothing -/

/-- Neither of two folders lies in the other, and no file has a name in both. -/
structure Strangers (d : Disk) (folder other : Place) : Prop where
  apart : Place.Apart folder other
  sole : ∀ file, d.Lists folder file → ¬ d.Lists other file

theorem Strangers.symm (h : d.Strangers folder other) : d.Strangers other folder :=
  ⟨h.apart.symm, fun file listed listed' => h.sole file listed' listed⟩

instance (d : Disk) : Std.Symm d.Strangers :=
  ⟨fun _ _ => Strangers.symm⟩

/-- Who works in one folder leaves a stranger alone. -/
theorem Inside.aside (h : d.Inside d' folder) (strangers : d.Strangers folder other)
    (bounded : ∀ file, d.Lists other file → file < d.contents.length) : d.Aside d' other where
  isFolder := h.lookup? strangers.apart.left
  children := h.children strangers.apart
  length := h.length
  read file listed := h.read file (bounded file listed) fun ours => strangers.sole file ours listed

/-- Folders that share nothing. -/
structure Divides (d : Disk) (folders : List Place) : Prop where
  strangers : folders.Pairwise d.Strangers
  bounded : ∀ folder ∈ folders, ∀ file, d.Lists folder file → file < d.contents.length

namespace Divides

variable {folders fewer : List Place}

theorem nil (d : Disk) : d.Divides [] :=
  ⟨.nil, List.forall_mem_nil _⟩

theorem sublist (h : d.Divides folders) (sub : fewer.Sublist folders) : d.Divides fewer :=
  ⟨h.strangers.sublist sub, fun folder member => h.bounded folder (sub.subset member)⟩

theorem of_ne (h : d.Divides folders) (here : folder ∈ folders) (there : other ∈ folders)
    (ne : folder ≠ other) : d.Strangers folder other :=
  h.strangers.forall here there ne

/-- A place that lists no file shares nothing with folders that it is apart from. -/
theorem concat (h : d.Divides folders) {place : Place} (apart : ∀ folder ∈ folders, Place.Apart folder place)
    (empty : ∀ file, ¬ d.Lists place file) : d.Divides (folders ++ [place]) := by
  refine ⟨List.pairwise_append.2 ⟨h.strangers, List.pairwise_singleton .., ?_⟩, ?_⟩
  · rintro folder here other there
    obtain rfl := List.mem_singleton.1 there
    exact ⟨apart folder here, fun file _ => empty file⟩
  · intro folder member file listed
    rcases List.mem_append.1 member with old | new
    · exact h.bounded folder old file listed
    · obtain rfl := List.mem_singleton.1 new
      exact absurd listed (empty file)

/-- Nothing changes if all of them are left alone. -/
theorem aside (h : d.Divides folders) (kept : ∀ folder ∈ folders, d.Aside d' folder) : d'.Divides folders where
  strangers := h.strangers.imp_of_mem fun {folder other} here there strangers =>
    ⟨strangers.apart, fun file => by
      rw [(kept folder here).lists_iff, (kept other there).lists_iff]
      exact strangers.sole file⟩
  bounded folder here file listed := by
    have still := kept folder here
    exact Nat.lt_of_lt_of_le (h.bounded folder here file (still.lists_iff.1 listed)) still.length

/-- **Who works in one of the folders** leaves the others alone. -/
theorem inside (h : d.Divides folders) (here : folder ∈ folders) (inside : d.Inside d' folder) :
    d'.Divides folders ∧ ∀ other ∈ folders, other ≠ folder → d.Aside d' other := by
  have kept : ∀ other ∈ folders, other ≠ folder → d.Aside d' other := fun other there ne =>
    inside.aside (h.of_ne here there ne.symm) (h.bounded other there)
  have stranger {other : Place} (there : other ∈ folders) (ne : other ≠ folder) :
      d'.Strangers folder other := by
    have before := h.of_ne here there ne.symm
    refine ⟨before.apart, fun file ours theirs => ?_⟩
    have theirs := (kept other there ne).lists_iff.1 theirs
    rcases inside.fresh file ours with old | new
    · exact before.sole file old theirs
    · exact Nat.not_lt_of_le new.1 (h.bounded other there file theirs)
  refine ⟨⟨h.strangers.imp_of_mem fun {a b} ha hb strangers => ?_, fun other there file listed => ?_⟩, kept⟩
  · by_cases first : a = folder
    · subst first
      exact stranger hb strangers.apart.ne.symm
    · by_cases second : b = folder
      · subst second
        exact (stranger ha first).symm
      · refine ⟨strangers.apart, fun file => ?_⟩
        rw [(kept a ha first).lists_iff, (kept b hb second).lists_iff]
        exact strangers.sole file
  · by_cases same : other = folder
    · subst same
      rcases inside.fresh file listed with old | new
      · exact Nat.lt_of_lt_of_le (h.bounded other here file old) inside.length
      · exact new.2
    · have still := kept other there same
      exact Nat.lt_of_lt_of_le (h.bounded other there file (still.lists_iff.1 listed)) still.length

end Divides

/-! ## A new folder -/

/-- Folders are made on the way to a place, and nothing else happens. -/
structure Makes (d d' : Disk) (place : Place) : Prop where
  contents : d'.contents = d.contents
  entries : ∃ made, d'.entries = d.entries ++ made ∧ ∀ e ∈ made, e.1 <+: place ∧ e.2 = .folder

theorem Way.contents_enter? {w w' : Way} {name : String} (h : w.enter? name = some w') :
    w'.disk.contents = w.disk.contents := by
  unfold Way.enter? Way.create? at h
  repeat' split at h
  all_goals cases h <;> rfl

/-- On a way that goes down, folders are made on the way to its end. -/
theorem Way.makes {rest : List String} {w w' : Way} (h : rest.foldlM Way.enter? w = some w') :
    w.disk.Makes w'.disk (w.here ++ rest) := by
  induction rest generalizing w with
  | nil =>
    cases h
    exact ⟨rfl, [], by simp, List.forall_mem_nil _⟩
  | cons name rest ih =>
    rw [List.foldlM_cons] at h
    simp only [Option.bind_eq_bind, Option.bind_eq_some_iff] at h
    obtain ⟨w₁, entered, h⟩ := h
    obtain ⟨contents, made, entries, all⟩ := ih h
    obtain ⟨here, first⟩ := Way.enter?_cases entered
    have way : w₁.here ++ rest = w.here ++ name :: rest := by simp [here]
    rw [way] at all
    refine ⟨contents.trans (Way.contents_enter? entered), ?_⟩
    rcases first with new | ⟨old, -⟩
    · refine ⟨(w.here ++ [name], .folder) :: made, by rw [entries, new]; simp, ?_⟩
      refine List.forall_mem_cons.2 ⟨⟨?_, rfl⟩, all⟩
      exact ⟨rest, by simp⟩
    · exact ⟨made, by rw [entries, old], all⟩

theorem makes_makeFolders {place : Place} (made : d.makeFolders? place = some d') : d.Makes d' place := by
  unfold makeFolders? at made
  split at made
  · cases made
    exact ⟨rfl, [], by simp, List.forall_mem_nil _⟩
  · rw [Option.map_eq_some_iff] at made
    obtain ⟨w, way, rfl⟩ := made
    exact Way.makes way

namespace Makes

variable {place : Place}

/-- What is not on the way stays as it was. -/
theorem lookup? (h : d.Makes d' place) {p : Place} (off : ¬ p <+: place) : d'.lookup? p = d.lookup? p := by
  obtain ⟨made, entries, all⟩ := h.entries
  have nothing : made.lookup p = none := List.lookup_eq_none_iff.2 fun e member => by
    rw [bne_iff_ne]
    rintro rfl
    exact off (all e member).1
  rw [Disk.lookup?, Disk.lookup?, entries, List.lookup_append, nothing, Option.or_none]

/-- A folder that is not on the way is left alone. -/
theorem aside (h : d.Makes d' place) (off : ¬ folder <+: place) : d.Aside d' folder := by
  obtain ⟨made, entries, all⟩ := h.entries
  refine ⟨h.lookup? off, ?_, Nat.le_of_eq (congrArg List.length h.contents.symm), fun file _ => by
    rw [Disk.read, Disk.read, h.contents]⟩
  have nothing : (made.filterMap fun (p, e) => (nameIn? folder p).map fun name => (name, e)) = [] := by
    rw [List.filterMap_eq_nil_iff]
    rintro ⟨p, e⟩ member
    cases named : nameIn? folder p with
    | none => simp [named]
    | some name =>
      obtain rfl := nameIn?_eq_some_iff.1 named
      exact absurd ((List.prefix_append folder [name]).trans (all _ member).1) off
  rw [children, children, entries, List.filterMap_append, nothing, List.append_nil]

theorem clear (h : d.Makes d' place) (off : ¬ folder <+: place) (nothing : d.Clear folder) : d'.Clear folder := by
  obtain ⟨made, entries, all⟩ := h.entries
  intro e member within
  rw [entries, List.mem_append] at member
  rcases member with old | new
  · exact nothing e old within
  · exact off (within.trans (all e new).1)

end Makes

/-- **A new folder** is empty, and a stranger to those that it is apart from. -/
theorem Divides.make {folders : List Place} {place : Place} (h : d.Divides folders) (nothing : d.Clear place)
    (named : place.all isName = true) (apart : ∀ folder ∈ folders, Place.Apart folder place)
    (made : d.makeFolders? place = some d') :
    d'.Blank place ∧ d'.Divides (folders ++ [place]) ∧ ∀ folder ∈ folders, d.Aside d' folder := by
  obtain ⟨d'', made', blank⟩ := Free.make ⟨named, nothing, made ▸ rfl⟩
  cases made.symm.trans made'
  have kept : ∀ folder ∈ folders, d.Aside d' folder := fun folder member =>
    (makes_makeFolders made).aside (apart folder member).left
  have empty (file : Nat) : ¬ d'.Lists place file := by
    rintro ⟨name, found⟩
    rw [blank.lookup?] at found
    cases found
  exact ⟨blank, (h.aside kept).concat apart empty, kept⟩

end Disk

end Outbox
