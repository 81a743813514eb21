/-!
# A disk

Folders and files by place. A file is told apart from its name: who has opened a file goes on
reading and writing it after the name was removed or given to another file.

* `Place` is a list of names from the root, and `Disk` the state of the disk;
* `Disk.lookup?`, `Disk.children` and `Disk.read` look at it;
* `Disk.makeFolders?`, `Disk.create?`, `Disk.update`, `Disk.unlink?` and `Disk.removeAll?` change it,
  unless what is in their way forbids it.
-/

namespace Outbox

/-- A place on the disk: the names that lead there from the root. -/
abbrev Place := List String

/-- What a name stands for. A file is known by its number. -/
inductive Entry where
  | folder
  | file (id : Nat)
deriving DecidableEq, Repr

/-- The state of a disk. -/
structure Disk where
  entries : List (Place × Entry)
  /-- The contents of all files there ever were, by number. -/
  contents : List (List UInt8)
deriving DecidableEq

/-- Whether a name can be given to a folder or a file. -/
def isName (name : String) : Bool :=
  name ≠ "" && name.utf8ByteSize ≤ 255 && !name.toList.contains '\x00'

namespace Disk

/-- A disk with nothing on it. -/
def empty : Disk :=
  ⟨[], []⟩

/-! ### Looking -/

/-- What is at a place. The root is a folder. -/
def lookup? (d : Disk) (p : Place) : Option Entry :=
  if p = [] then some .folder else d.entries.lookup p

/-- Whether there is anything at a place. -/
def has (d : Disk) (p : Place) : Bool :=
  (d.lookup? p).isSome

/-- The file at a place. -/
def file? (d : Disk) (p : Place) : Option Nat :=
  match d.lookup? p with
  | some (.file id) => some id
  | _ => none

/-- The content of a file. -/
def read (d : Disk) (id : Nat) : List UInt8 :=
  d.contents.getD id []

/-- The content of the file at a place. -/
def content? (d : Disk) (p : Place) : Option (List UInt8) :=
  (d.file? p).map d.read

/-- The name of a place within a folder, if it is directly in it. -/
def nameIn? (folder : Place) (p : Place) : Option String :=
  match folder, p with
  | [], [name] => some name
  | a :: folder', b :: p' => if a = b then nameIn? folder' p' else none
  | _, _ => none

/-- The names in a folder and what they stand for. -/
def children (d : Disk) (folder : Place) : List (String × Entry) :=
  d.entries.filterMap fun (p, e) => (nameIn? folder p).map fun name => (name, e)

/-! ### Files -/

/-- Gives a file a new content. -/
def update (d : Disk) (id : Nat) (bytes : List UInt8) : Disk :=
  { d with contents := d.contents.set id bytes }

/-- Writes at the end of a file. -/
def append (d : Disk) (id : Nat) (bytes : List UInt8) : Disk :=
  d.update id (d.read id ++ bytes)

/-- Opens the file at a place, and creates an empty one if there is nothing. The place must lie in a
folder. -/
def create? (d : Disk) (p : Place) : Option (Disk × Nat) :=
  match d.lookup? p with
  | some (.file id) => some (d, id)
  | some .folder => none
  | none =>
    if d.lookup? p.dropLast = some .folder ∧ p.all isName then
      some (⟨d.entries ++ [(p, .file d.contents.length)], d.contents ++ [[]]⟩, d.contents.length)
    else none

/-- Gives the file at a place a content, creating the file if there is none. -/
def write? (d : Disk) (p : Place) (bytes : List UInt8) : Option Disk :=
  (d.create? p).map fun (d', id) => d'.update id bytes

/-- Removes the name of a file. -/
def unlink? (d : Disk) (p : Place) : Option Disk :=
  match d.lookup? p with
  | some (.file _) => some { d with entries := d.entries.filter fun e => e.1 ≠ p }
  | _ => none

/-! ### Folders -/

/-- Where one is on a way whose folders are created. -/
structure Way where
  disk : Disk
  here : Place
  /-- The folder was just created, so nothing is in it. -/
  isNew : Bool

/-- Creates a folder in the folder where one is, and enters it. -/
def Way.create? (w : Way) (name : String) : Option Way :=
  if isName name then
    some ⟨{ w.disk with entries := w.disk.entries ++ [(w.here ++ [name], .folder)] },
      w.here ++ [name], true⟩
  else none

/-- Enters a folder, which is created if there is nothing of its name. -/
def Way.enter? (w : Way) (name : String) : Option Way :=
  if w.isNew then w.create? name
  else
    match w.disk.lookup? (w.here ++ [name]) with
    | some .folder => some { w with here := w.here ++ [name] }
    | some (.file _) => none
    | none => w.create? name

/-- Creates the folder at a place and those it lies in, as far as there are none. -/
def makeFolders? (d : Disk) (p : Place) : Option Disk :=
  if d.lookup? p = some .folder then some d
  else (p.foldlM Way.enter? ⟨d, [], false⟩).map Way.disk

/-- Removes a folder with everything in it. -/
def removeAll? (d : Disk) (p : Place) : Option Disk :=
  match d.lookup? p with
  | some .folder => some { d with entries := d.entries.filter fun e => !p.isPrefixOf e.1 }
  | _ => none

/-! ### Laws of contents -/

theorem read_update_same {d : Disk} {id : Nat} (h : id < d.contents.length) (bytes : List UInt8) :
    (d.update id bytes).read id = bytes := by
  simp [read, update, List.getD_eq_getElem?_getD, h]

theorem read_update_other {d : Disk} {id id' : Nat} (h : id ≠ id') (bytes : List UInt8) :
    (d.update id bytes).read id' = d.read id' := by
  simp [read, update, List.getD_eq_getElem?_getD, List.getElem?_set_ne h]

@[simp] theorem lookup?_update (d : Disk) (id : Nat) (bytes : List UInt8) (p : Place) :
    (d.update id bytes).lookup? p = d.lookup? p :=
  rfl

end Disk

end Outbox
