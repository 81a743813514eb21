import Outbox.Proofs.Json.Values
import Outbox.Queue.Record

/-!
# The bytes of a record

Recovery looks for nothing but the version of a record, and reading looks for all of it. The version is
read whatever the object is, since a reader passes over the members that it does not look at. The object
is read as well if its value is one that a reader takes, and its type takes the value.

* `Json.outlinedMembers?_members` is what a reader sees that looks at some members of an object;
* `Record.version?_payload` reads the version, and `Record.parse?_payload` brings reading a record down to
  reading its object from its value;
* `Record.bounds_of_parse?` says that only versions and times of 64 bits are read.
-/

namespace Outbox

open Json (Value Outline)

/-! ## The parts that a record shows -/

namespace Json

theorem outlinedItems?_itemTrees {levels : Nat} {items : List Value}
    (h : ∀ v ∈ items, v.tree.outlined? .whole levels = some v) (i : Nat) :
    outlinedItems? .whole i levels (itemTrees items) = some items := by
  induction items generalizing i with
  | nil => rfl
  | cons v vs ih =>
    have behind := ih (fun v' member => h v' (List.mem_cons_of_mem _ member)) (i + 1)
    simp [itemTrees, outlinedItems?, Outline.item, h v List.mem_cons_self, behind]

theorem outlinedMembers?_memberTrees {levels : Nat} {members : List (String × Value)}
    (h : ∀ m ∈ members, m.2.tree.outlined? .whole levels = some m.2) :
    outlinedMembers? .whole levels (memberTrees members) = some members := by
  induction members with
  | nil => rfl
  | cons m ms ih =>
    obtain ⟨k, v⟩ := m
    have behind := ih fun m' member => h m' (List.mem_cons_of_mem _ member)
    simp [memberTrees, outlinedMembers?, Outline.member?, text?_piecesOf, h _ List.mem_cons_self, behind]

/-- A value that is looked at as a whole is read back from its tree. -/
theorem Value.Fits.outlined?_tree {levels : Nat} {v : Value} (h : v.Fits levels) :
    v.tree.outlined? .whole levels = some v := by
  induction h with
  | null => simp [Value.tree, Tree.outlined?]
  | bool b => simp [Value.tree, Tree.outlined?]
  | integer low high => simp [Value.tree, Tree.outlined?, ofNumeral?_ofInt low high]
  | real x => simp [Value.tree, Tree.outlined?, ofNumeral?_ofFinite x]
  | string s => simp [Value.tree, Tree.outlined?, text?_piecesOf]
  | array _ ih => simp [Value.tree, Tree.outlined?, outlinedItems?_itemTrees ih]
  | object _ ih => simp [Value.tree, Tree.outlined?, outlinedMembers?_memberTrees ih]

/-- Of an object, the members are shown that are looked at. The others may be anything. -/
theorem outlinedMembers?_members {ms : List (String × Outline)} {levels : Nat}
    (whole : ∀ m ∈ ms, m.2 = .whole) {members : List (String × Value)}
    (fits : ∀ m ∈ members, (ms.lookup m.1).isSome → m.2.Fits levels) :
    outlinedMembers? (.members ms) levels (memberTrees members) =
      some (members.filter fun m => (ms.lookup m.1).isSome) := by
  induction members with
  | nil => rfl
  | cons m members ih =>
    obtain ⟨key, v⟩ := m
    have behind := ih fun m' member => fits m' (List.mem_cons_of_mem _ member)
    simp only [memberTrees, outlinedMembers?, text?_piecesOf, Option.bind_eq_bind, Option.bind_some,
      Outline.member?]
    cases shown : ms.lookup key with
    | none => simp [behind, shown]
    | some inner =>
      obtain ⟨before, after, split, -⟩ := List.lookup_eq_some_iff.1 shown
      obtain rfl : inner = .whole := whole (key, inner) (by simp [split])
      have taken := fits (key, v) List.mem_cons_self (by rw [shown]; rfl)
      have head : v.tree.outlined? .whole levels = some v := taken.outlined?_tree
      simp [behind, head, shown]

end Json

/-! ## Records -/

/-- A time that a clock shows: milliseconds in 64 bits. -/
def IsClock (now : Int) : Prop :=
  Int64.minValue.toInt ≤ now ∧ now ≤ Int64.maxValue.toInt

namespace Record

variable {α : Type} [Storable α] {r : Record α}

/-- The members that are written for a record. -/
def members (r : Record α) : List (String × Value) :=
  [("obj", Storable.json r.obj), ("version", .integer r.version), ("at", .integer r.time)]

/-- The version of a record is a number that a reader takes. -/
theorem fits_version {levels n : Nat} (small : n < UInt64.size) : (Value.integer n).Fits levels := by
  refine .integer ?_ ?_ <;> simp only [UInt64.size] at small ⊢ <;> omega

theorem natural?_version {n : Nat} (small : n < UInt64.size) :
    (Value.integer n).natural? = some n := by
  simp [Value.natural?, small]

/-- A reader of some members of a record sees those. -/
theorem readPart?_payload {β : Type} {ms : List (String × Outline)} (whole : ∀ m ∈ ms, m.2 = .whole)
    (fits : ∀ m ∈ r.members, (ms.lookup m.1).isSome → m.2.Fits 126) (read? : Value → Option β) :
    Json.readPart? (.members ms) read? r.payload =
      read? (.object (r.members.filter fun m => (ms.lookup m.1).isSome)) := by
  have text : Json.Tree.parse? r.payload = some (Value.object r.members).tree :=
    (Value.object r.members).parse?_text
  simp only [Json.readPart?, text, Option.bind_eq_bind, Option.bind_some, Value.tree, Json.Tree.outlined?,
    Json.maxLevels, Json.outlinedMembers?_members whole fits, Option.map_some]

/-- **A record is read back if its object is read from its value.** -/
theorem parse?_payload (obj : (Storable.json r.obj).Fits 126) (version : r.version < UInt64.size)
    (time : IsClock r.time) : parse? (α := α) r.payload =
      (Storable.ofJson? (Storable.json r.obj)).map fun obj => ⟨obj, r.version, r.time⟩ := by
  have signed : (Value.integer r.time).signed? = some r.time := if_pos time
  have fits : ∀ m ∈ r.members, m.2.Fits 126 := by
    obtain ⟨low, high⟩ := time
    simp only [Int64.toInt_minValue, Int64.toInt_maxValue] at low high
    simp only [members, List.forall_mem_cons]
    refine ⟨obj, fits_version version, .integer ?_ ?_, List.forall_mem_nil _⟩ <;>
      simp only [UInt64.size] <;> omega
  rw [parse?, outline, readPart?_payload (by simp) fun m member _ => fits m member]
  have all : (r.members.filter fun m => ([("obj", Outline.whole), ("version", .whole),
      ("at", .whole)].lookup m.1).isSome) = r.members := rfl
  have filled : Json.fill? [.required "obj", .required "version", .required "at"] (.object r.members) =
      some [Storable.json r.obj, .integer r.version, .integer r.time] := rfl
  rw [all, ofJson?, filled]
  simp only [natural?_version version, signed, Option.bind_eq_bind, Option.bind_some, Option.pure_def]
  cases Storable.ofJson? (α := α) (Storable.json r.obj) <;> rfl

/-- A record that is read has the version with which it was written, whatever its object is. -/
theorem version_of_parse?_payload (version : r.version < UInt64.size) {r' : Record α}
    (parsed : parse? r.payload = some r') : r'.version = r.version := by
  have text : Json.Tree.parse? r.payload =
      some (.object (Json.memberTrees r.members)) := (Value.object r.members).parse?_text
  have number : (Value.integer r.version).tree.outlined? .whole 126 = some (.integer r.version) :=
    (fits_version version).outlined?_tree
  -- the version is shown as it is, between an object and a time of which nothing is known
  simp only [parse?, outline, Json.readPart?, text, Option.bind_eq_bind, Option.bind_some,
    Json.Tree.outlined?, Json.maxLevels, members, Json.memberTrees, Json.outlinedMembers?,
    Json.text?_piecesOf, Outline.member?, List.lookup_cons, Option.pure_def, Option.bind_eq_some_iff,
    Option.map_eq_some_iff] at parsed
  simp only [beq_self_eq_true, String.reduceBEq, number, Option.bind_eq_some_iff, Option.some.injEq] at parsed
  obtain ⟨_, ⟨_, ⟨obj, -, _, ⟨_, rfl, _, ⟨time, -, _, rfl, rfl⟩, rfl⟩, rfl⟩, rfl⟩, read⟩ := parsed
  have filled : Json.fill? [.required "obj", .required "version", .required "at"]
      (.object [("obj", obj), ("version", .integer r.version), ("at", time)]) =
      some [obj, .integer r.version, time] := rfl
  simp only [ofJson?, filled, natural?_version version, Option.bind_eq_bind, Option.bind_some,
    Option.bind_eq_some_iff, Option.pure_def, Option.some.injEq] at read
  obtain ⟨_, -, _, -, rfl⟩ := read
  rfl

/-- **The version of a record is read whatever its object is.** -/
theorem version?_payload (version : r.version < UInt64.size) : version? r.payload = some r.version := by
  have fits : ∀ m ∈ r.members,
      ([("version", Outline.whole)].lookup m.1).isSome → m.2.Fits 126 := by
    simp [members, List.lookup_cons, fits_version version]
  rw [version?, readPart?_payload (by simp) fits]
  exact natural?_version version

/-- What is read has a version and a time of 64 bits. -/
theorem bounds_of_parse? {bytes : List UInt8} (h : parse? bytes = some r) :
    r.version < UInt64.size ∧ IsClock r.time := by
  simp only [parse?, Json.readPart?, Option.bind_eq_bind, Option.bind_eq_some_iff] at h
  obtain ⟨_, -, v, -, read⟩ := h
  unfold ofJson? at read
  split at read
  · next obj version time _ =>
    simp only [Option.bind_eq_bind, Option.bind_eq_some_iff] at read
    obtain ⟨_, -, n, natural, t, signed, same⟩ := read
    obtain rfl := Option.some.inj same
    unfold Json.Value.natural? at natural
    unfold Json.Value.signed? at signed
    refine ⟨?_, ?_⟩
    · split at natural
      · split at natural
        · next range => exact Option.some.inj natural ▸ range.2
        · cases natural
      · cases natural
    · split at signed
      · split at signed
        · next range => exact Option.some.inj signed ▸ range
        · cases signed
      · cases signed
  · cases read

end Record

end Outbox
