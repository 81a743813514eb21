import Outbox.AttributePath

/-!
# Paths and their texts

The text of a path names it again as long as no segment is empty or holds a slash. Any other path shares its
text with one of those, or has a text that names none.

* `pieces_eq_splitOn` ties the pieces of a text to the library's, which are joined again by the separator;
* `AttributePath.Plain` are the paths whose segments are plain, and `plain_of_parse?` says that a text names
  no others;
* `AttributePath.parse?_inverts_display` is the result.
-/

namespace Outbox

/-! ## Pieces -/

/-- A text is cut where the library cuts a list. -/
theorem pieces_eq_splitOn (separator : Char) (cs : List Char) :
    pieces separator cs = cs.splitOn separator := by
  induction cs with
  | nil => rfl
  | cons c cs ih =>
    rw [pieces, List.splitOn_cons_eq_if_modifyHead, ih]
    cases split : cs.splitOn separator with
    | nil => exact absurd split (List.splitOn_ne_nil separator cs)
    | cons p ps => simp only [beq_iff_eq, List.modifyHead_cons]

/-- No piece holds the separator. -/
theorem separator_not_mem_pieces {separator : Char} {cs piece : List Char}
    (member : piece ∈ pieces separator cs) : separator ∉ piece := by
  induction cs generalizing piece with
  | nil =>
    obtain rfl := List.mem_singleton.1 member
    exact List.not_mem_nil
  | cons c cs ih =>
    rw [pieces] at member
    split at member
    · rcases List.mem_cons.1 member with rfl | later
      · exact List.not_mem_nil
      · exact ih later
    · next other =>
      split at member
      · next p ps pieces =>
        rw [pieces] at ih
        rcases List.mem_cons.1 member with rfl | later
        · rw [List.mem_cons, not_or]
          exact ⟨Ne.symm other, ih List.mem_cons_self⟩
        · exact ih (List.mem_cons_of_mem _ later)
      · next none_there => exact absurd none_there (pieces_ne_nil separator cs)

/-- All pieces of a text are empty if it is nothing but separators. -/
theorem pieces_empty_iff {separator : Char} {cs : List Char} :
    (∀ piece ∈ pieces separator cs, piece = []) ↔ ∀ c ∈ cs, c = separator := by
  induction cs with
  | nil => simp [pieces]
  | cons c cs ih =>
    rw [pieces, List.forall_mem_cons, ← ih]
    split
    · next same => simp [same]
    · next other =>
      cases pieces separator cs with
      | nil => simp [other]
      | cons p ps => simp [other]

namespace AttributePath

/-! ## What a text names -/

/-- A segment that is told from the others in a text: there is something in it, and no separator. -/
def IsPlain (segment : String) : Prop :=
  segment ≠ "" ∧ separator ∉ segment.toList

/-- A path that has such segments only. -/
def Plain (p : AttributePath) : Prop :=
  ∀ segment ∈ p.segments, IsPlain segment

instance (segment : String) : Decidable (IsPlain segment) :=
  inferInstanceAs (Decidable (_ ∧ _))

instance (p : AttributePath) : Decidable p.Plain :=
  inferInstanceAs (Decidable (∀ segment ∈ p.segments, IsPlain segment))

/-- The segments that a text names: its pieces that are not empty. -/
theorem segments_of_parse? {text : String} {p : AttributePath} (parsed : parse? text = some p) :
    p.segments = ((pieces separator text.toList).filter (· ≠ [])).map String.ofList := by
  unfold parse? ofSegments? at parsed
  split at parsed
  · cases parsed
    rfl
  · cases parsed

/-- **A text names no path** just if it is nothing but separators. -/
theorem parse?_eq_none_iff {text : String} :
    parse? text = none ↔ ∀ c ∈ text.toList, c = separator := by
  rw [parse?, ofSegments?_eq_none_iff, List.map_eq_nil_iff, List.filter_eq_nil_iff, ← pieces_empty_iff]
  simp only [decide_eq_true_eq, Decidable.not_not]

/-- What a text names is plain. -/
theorem plain_of_parse? {text : String} {p : AttributePath} (parsed : parse? text = some p) : p.Plain := by
  intro segment member
  rw [segments_of_parse? parsed] at member
  obtain ⟨piece, kept, rfl⟩ := List.mem_map.1 member
  obtain ⟨cut, something⟩ := List.mem_filter.1 kept
  refine ⟨fun empty => ?_, ?_⟩
  · have nothing : piece = [] := by rw [← String.toList_ofList (l := piece), empty]; rfl
    exact absurd nothing (by simpa using something)
  · rw [String.toList_ofList]
    exact separator_not_mem_pieces cut

/-- The text of a plain path is cut into its segments. -/
theorem Plain.pieces_display {p : AttributePath} (plain : p.Plain) :
    pieces separator p.display.toList = p.segments.map String.toList := by
  have apart : ∀ piece ∈ p.segments.map String.toList, separator ∉ piece := by
    intro piece member
    obtain ⟨segment, listed, rfl⟩ := List.mem_map.1 member
    exact (plain segment listed).2
  have some_there : p.segments.map String.toList ≠ [] := fun none_there =>
    p.nonempty (List.map_eq_nil_iff.1 none_there)
  rw [display, String.toList_intercalate, String.toList_singleton, pieces_eq_splitOn]
  exact List.splitOn_intercalate separator apart some_there

/-- A plain path is named by its text. -/
theorem Plain.parse?_display {p : AttributePath} (plain : p.Plain) : parse? p.display = some p := by
  have kept : (p.segments.map String.toList).filter (· ≠ []) = p.segments.map String.toList := by
    rw [List.filter_eq_self]
    intro piece member
    obtain ⟨segment, listed, rfl⟩ := List.mem_map.1 member
    simpa using (plain segment listed).1
  rw [parse?, plain.pieces_display, kept, List.map_map]
  simp [Function.comp_def]

/-- **Texts and paths name each other.** A text names no path just if it is nothing but separators; what it
names is plain, and the text of that names it again. Of all paths, however they were made, the plain ones are
named by their texts, and no others. -/
theorem parse?_inverts_display (text : String) (p : AttributePath) :
    (parse? text = none ↔ ∀ c ∈ text.toList, c = separator) ∧
      (∀ q, parse? text = some q → q.Plain ∧ parse? q.display = some q) ∧
      (parse? p.display = some p ↔ p.Plain) :=
  ⟨parse?_eq_none_iff, fun _ parsed => ⟨plain_of_parse? parsed, (plain_of_parse? parsed).parse?_display⟩,
    plain_of_parse?, Plain.parse?_display⟩

/-- A text with separators at its ends and two in a row. -/
theorem parse?_inverts_display_slashes :
    ∃ q, parse? "/metrics//loss/" = some q ∧ q.segments = ["metrics", "loss"] ∧ q.Plain ∧
      parse? q.display = some q := by
  have named : parse? "/metrics//loss/" = some ⟨["metrics", "loss"], by simp⟩ := by decide +kernel
  exact ⟨_, named, rfl, (parse?_inverts_display "/metrics//loss/" (single "a")).2.1 _ named⟩

/-- A segment with a separator in it: the text names another path. -/
example : (single "a/b").display = "a/b" ∧ parse? "a/b" ≠ some (single "a/b") := by decide +kernel

end AttributePath

end Outbox
