import Outbox.Json.Value
import Outbox.Proofs.Json.Tokens

/-!
# Values that read back

A value is read from its own text as itself, as long as its integers fit 64 bits and it does not nest
deeper than a reader goes. Strings need nothing: every character is written so that it can be read.

* `Value.Fits` says that a reader takes a value;
* `ofNumeral?_ofInt` and `ofNumeral?_ofFinite` read numbers back, `text?_piecesOf` strings;
* `Value.parse?_text` reads the tree of any value back from its text, and `Value.Fits.value?_tree` the
  value from its tree.
-/

namespace Outbox.Json

open Decimal (Numeral)

/-- A value that a reader takes: integers of 64 bits, and no more than `levels` containers around any
part of it. -/
inductive Value.Fits : Nat → Value → Prop
  | null {levels : Nat} : Fits levels .null
  | bool {levels : Nat} (b : Bool) : Fits levels (.bool b)
  | integer {levels : Nat} {i : Int} : -(UInt64.size / 2 : Nat) ≤ i → i < UInt64.size →
      Fits levels (.integer i)
  | real {levels : Nat} (x : Binary64.Finite) : Fits levels (.real x)
  | string {levels : Nat} (s : String) : Fits levels (.string s)
  | array {levels : Nat} {items : List Value} : (∀ v ∈ items, Fits levels v) →
      Fits (levels + 1) (.array items)
  | object {levels : Nat} {members : List (String × Value)} : (∀ m ∈ members, Fits levels m.2) →
      Fits (levels + 1) (.object members)

theorem Value.Fits.mono {levels levels' : Nat} {v : Value} (h : v.Fits levels) (more : levels ≤ levels') :
    v.Fits levels' := by
  induction h generalizing levels' with
  | null => exact .null
  | bool b => exact .bool b
  | integer low high => exact .integer low high
  | real x => exact .real x
  | string s => exact .string s
  | array _ ih =>
    obtain ⟨n, rfl⟩ : ∃ n, levels' = n + 1 := ⟨levels' - 1, by omega⟩
    exact .array fun v member => ih v member (by omega)
  | object _ ih =>
    obtain ⟨n, rfl⟩ : ∃ n, levels' = n + 1 := ⟨levels' - 1, by omega⟩
    exact .object fun m member => ih m member (by omega)

/-! ## Strings -/

/-- A character is read back from the piece that it is written as. -/
theorem chars?_ofChar (done : List Char) (c : Char) (ps : List Piece) :
    chars? done (.ofChar c :: ps) = chars? (c :: done) ps := by
  unfold Piece.ofChar
  split
  · next control =>
    have no_surrogate : ¬ (0xD800 ≤ c.toNat) ∧ ¬ (0xDC00 ≤ c.toNat) := by omega
    have same : Char.ofNat c.toNat = c := Char.ofNat_toNat c
    match ps with
    | [] | .char _ :: _ | .stray _ :: _ | .unit _ :: _ => simp [chars?, no_surrogate, same]
  · rw [chars?]

theorem text?_piecesOf (s : String) : text? (piecesOf s) = some s := by
  have from_any (cs done : List Char) :
      chars? done (cs.map Piece.ofChar) = some (done.reverse ++ cs) := by
    induction cs generalizing done with
    | nil => simp [chars?]
    | cons c cs ih => simp [chars?_ofChar, ih]
  simp [text?, piecesOf, from_any]

/-! ## Numbers -/

theorem ofNumeral?_ofInt {i : Int} (low : -(UInt64.size / 2 : Nat) ≤ i) (high : i < UInt64.size) :
    Value.ofNumeral? (.ofInt i) = some (.integer i) := by
  have plain : (Numeral.ofInt i).isPlain = true := rfl
  have significand : (Numeral.ofInt i).significand = i.natAbs := by
    simp [Numeral.significand, Numeral.ofInt]
  have read : integer? (.ofInt i) = some i := by
    simp only [integer?, plain, significand, not_true_eq_false, ↓reduceIte]
    split
    · next negative =>
      have negative : i < 0 := by simpa [Numeral.ofInt] using negative
      rw [if_pos (by omega)]
      congr 1
      omega
    · next negative =>
      have nonneg : ¬ i < 0 := by simpa [Numeral.ofInt] using negative
      rw [if_pos (by omega)]
      congr 1
      omega
  rw [Value.ofNumeral?, read]

theorem ofNumeral?_ofFinite (x : Binary64.Finite) :
    Value.ofNumeral? (layout.ofFinite x) = some (.real x) := by
  obtain ⟨plain, read⟩ := layout.ofDecimal?_ofFinite x (by decide) (by decide)
  have no_integer : integer? (layout.ofFinite x) = none := by simp [integer?, plain]
  rw [Value.ofNumeral?, no_integer]
  simp only [read, Option.map_some]

/-! ## Whole values -/

theorem itemValues?_itemTrees {levels : Nat} {items : List Value}
    (h : ∀ v ∈ items, v.tree.value? levels = some v) :
    itemValues? levels (itemTrees items) = some items := by
  induction items with
  | nil => rfl
  | cons v vs ih =>
    have behind := ih fun v' member => h v' (List.mem_cons_of_mem _ member)
    simp [itemTrees, itemValues?, h v List.mem_cons_self, behind]

theorem memberValues?_memberTrees {levels : Nat} {members : List (String × Value)}
    (h : ∀ m ∈ members, m.2.tree.value? levels = some m.2) :
    memberValues? levels (memberTrees members) = some members := by
  induction members with
  | nil => rfl
  | cons m ms ih =>
    obtain ⟨k, v⟩ := m
    have behind := ih fun m' member => h m' (List.mem_cons_of_mem _ member)
    simp [memberTrees, memberValues?, text?_piecesOf, h _ List.mem_cons_self, behind]

/-- **A value is read back from its tree.** -/
theorem Value.Fits.value?_tree {levels : Nat} {v : Value} (h : v.Fits levels) :
    v.tree.value? levels = some v := by
  induction h with
  | null => simp [Value.tree, Tree.value?]
  | bool b => simp [Value.tree, Tree.value?]
  | integer low high => simp [Value.tree, Tree.value?, ofNumeral?_ofInt low high]
  | real x => simp [Value.tree, Tree.value?, ofNumeral?_ofFinite x]
  | string s => simp [Value.tree, Tree.value?, text?_piecesOf]
  | array _ ih => simp [Value.tree, Tree.value?, itemValues?_itemTrees ih]
  | object _ ih => simp [Value.tree, Tree.value?, memberValues?_memberTrees ih]

theorem legible_piecesOf (s : String) : ∀ p ∈ piecesOf s, p.Legible := by
  intro p member
  obtain ⟨c, -, rfl⟩ := List.mem_map.1 member
  exact Piece.legible_ofChar c

theorem memberTrees_eq_map (members : List (String × Value)) :
    memberTrees members = members.map fun m => (piecesOf m.1, m.2.tree) := by
  induction members with
  | nil => rfl
  | cons m ms ih => rw [memberTrees, ih, List.map_cons]

mutual

/-- Whatever a value is made of, it is written legibly. -/
theorem Value.legible_tree : (v : Value) → v.tree.Legible
  | .null => .null
  | .bool b => .bool b
  | .integer i => .number (Numeral.legible_ofInt i)
  | .real x => .number (layout.legible_ofFinite x)
  | .string s => .string (legible_piecesOf s)
  | .array items => by
    rw [Value.tree]
    exact .array (legible_itemTrees items)
  | .object members => by
    rw [Value.tree]
    refine .object ?_ (legible_memberTrees members)
    rw [memberTrees_eq_map]
    exact List.forall_mem_map.2 fun m _ => legible_piecesOf m.1

theorem legible_itemTrees : (items : List Value) → ∀ t ∈ itemTrees items, t.Legible
  | [] => by simp [itemTrees]
  | v :: items => by
    rw [itemTrees]
    exact List.forall_mem_cons.2 ⟨v.legible_tree, legible_itemTrees items⟩

theorem legible_memberTrees :
    (members : List (String × Value)) → ∀ m ∈ memberTrees members, m.2.Legible
  | [] => by simp [memberTrees]
  | (k, v) :: members => by
    rw [memberTrees]
    exact List.forall_mem_cons.2 ⟨v.legible_tree, legible_memberTrees members⟩

end

/-- **The text of a value is read as its tree**, however deep it nests. -/
theorem Value.parse?_text (v : Value) : Tree.parse? (Utf8.encode v.render) = some v.tree :=
  Tree.parse?_text v.legible_tree

end Outbox.Json
