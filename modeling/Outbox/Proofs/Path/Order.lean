import Mathlib.Data.List.Lex
import Outbox.Proofs.Merge.Again
import Outbox.Proofs.Path.Text
import Outbox.Proofs.Text.ByteOrder

/-!
# Paths in order, and their texts

Paths are compared segment by segment. On their texts this is the order in which the separator comes before
every other character. The bytes of the texts are in another order just where a separator meets a character
that comes before it, such as a blank, a dash or a dot.

* `AttributePath.order_eq_lt_iff_textPrecedes` tells the order of plain paths from their texts;
* `byteOrder` is the order of the bytes, and `crosses` says where the two part
  (`AttributePath.order_eq_byteOrder_iff`);
* `Merger.sortedByText_iff` is the result, with what it means for the lists of a batch, and
  `Merger.not_sortedByText_mark` a batch whose texts are not in order.
-/

namespace Outbox

namespace AttributePath

/-! ## The order of paths on their texts -/

/-- The order of characters in which the separator comes first. -/
def Precedes (c d : Char) : Prop :=
  c ≠ d ∧ (c = separator ∨ d ≠ separator ∧ c < d)

instance : Std.Asymm Precedes where
  asymm c d := by
    rintro ⟨other, rfl | ⟨plain, less⟩⟩ ⟨-, rfl | ⟨plain', less'⟩⟩
    · exact other rfl
    · exact plain' rfl
    · exact plain rfl
    · exact Char.lt_asymm less less'

/-- A text comes first if its characters do, the separator before all others. -/
def TextPrecedes (s t : String) : Prop :=
  List.Lex Precedes s.toList t.toList

theorem textPrecedes_asymm {s t : String} (before : TextPrecedes s t) : ¬ TextPrecedes t s :=
  asymm_of (List.Lex Precedes) before

/-- What follows the first segment of a text. -/
def tailText (segments : List String) : List Char :=
  segments.flatMap fun segment => separator :: segment.toList

/-- The text of some segments is the first of them and what follows. -/
theorem toList_intercalate_cons (first : String) (rest : List String) :
    (String.intercalate (String.singleton separator) (first :: rest)).toList =
      first.toList ++ tailText rest := by
  induction rest generalizing first with
  | nil => simp [tailText]
  | cons second rest ih =>
    rw [String.intercalate_cons_cons, String.toList_append, String.toList_append, ih]
    simp [tailText]

/-- Where a segment comes before another one, so do the texts: the first segment may end sooner, but then it
is followed by a separator or by nothing. -/
theorem lex_of_segment_lt {a b : List Char} (less : a < b) (plain : separator ∉ b) {front back : List Char}
    (ends : front = [] ∨ ∃ rest, front = separator :: rest) :
    List.Lex Precedes (a ++ front) (b ++ back) := by
  induction a generalizing b with
  | nil =>
    cases b with
    | nil => exact absurd less (List.lt_irrefl _)
    | cons d b =>
      have other : separator ≠ d := fun same => plain (same ▸ List.mem_cons_self)
      obtain rfl | ⟨rest, rfl⟩ := ends
      · exact .nil
      · exact .rel ⟨other, .inl rfl⟩
  | cons c a ih =>
    cases b with
    | nil => exact absurd less (List.not_lt_nil _)
    | cons d b =>
      rw [List.mem_cons, not_or] at plain
      rcases List.cons_lt_cons_iff.1 less with first | ⟨rfl, later⟩
      · exact .rel ⟨fun same => Char.lt_irrefl d (same ▸ first), .inr ⟨Ne.symm plain.1, first⟩⟩
      · exact .cons (ih later plain.2)

/-- What follows a segment is nothing, or begins with a separator. -/
theorem tailText_ends (segments : List String) :
    tailText segments = [] ∨ ∃ rest, tailText segments = separator :: rest := by
  cases segments with
  | nil => exact .inl rfl
  | cons first rest => exact .inr ⟨_, rfl⟩

/-- Segments that come before others have a text that does. -/
theorem lex_tailText {as bs : List String} (less : as < bs) (plain : ∀ b ∈ bs, separator ∉ b.toList) :
    List.Lex Precedes (tailText as) (tailText bs) := by
  induction as generalizing bs with
  | nil =>
    cases bs with
    | nil => exact absurd less (List.lt_irrefl _)
    | cons b bs => exact .nil
  | cons a as ih =>
    cases bs with
    | nil => exact absurd less (List.not_lt_nil _)
    | cons b bs =>
      obtain ⟨here, there⟩ := List.forall_mem_cons.1 plain
      rcases List.cons_lt_cons_iff.1 less with first | ⟨rfl, later⟩
      · exact .cons (lex_of_segment_lt (String.lt_iff.1 first) here (tailText_ends as))
      · exact .cons ((ih later there).append_left Precedes a.toList)

/-- A path that comes before a plain one has a text that does. -/
theorem textPrecedes_of_order {p q : AttributePath} (plain : q.Plain) (before : p.order q = .lt) :
    TextPrecedes p.display q.display := by
  have less := order_eq_lt_iff.1 before
  obtain ⟨ps, some_p⟩ := p
  obtain ⟨qs, some_q⟩ := q
  cases ps with
  | nil => exact absurd rfl some_p
  | cons a as =>
    cases qs with
    | nil => exact absurd rfl some_q
    | cons b bs =>
      -- the separator in front of both texts is the same, so it may as well be there
      have joined := lex_tailText less fun segment member => (plain segment member).2
      rw [TextPrecedes, display, display, toList_intercalate_cons, toList_intercalate_cons]
      exact List.lex_cons_iff.1 joined

/-- **Plain paths are in the order of their texts**, if the separator comes before every other character. -/
theorem order_eq_lt_iff_textPrecedes {p q : AttributePath} (plain_p : p.Plain) (plain_q : q.Plain) :
    p.order q = .lt ↔ TextPrecedes p.display q.display := by
  refine ⟨textPrecedes_of_order plain_q, fun before => ?_⟩
  cases order : p.order q with
  | lt => rfl
  | eq =>
    rw [order_eq_eq_iff.1 order] at before
    exact absurd before (textPrecedes_asymm before)
  | gt => exact absurd (textPrecedes_of_order plain_p (order_of_gt order)) (textPrecedes_asymm before)

/-! ## The order of bytes -/

/-- The order of the bytes of two texts. -/
def byteOrder (s t : String) : Ordering :=
  if Utf8.encode s.toList < Utf8.encode t.toList then .lt else if s = t then .eq else .gt

/-- Whether a separator meets a character that comes before it where the texts differ first. -/
def crosses : List Char → List Char → Bool
  | c :: cs, d :: ds =>
    if c = d then crosses cs ds else c = separator ∧ d < separator ∨ d = separator ∧ c < separator
  | _, _ => false

theorem crosses_self (cs : List Char) : crosses cs cs = false := by
  induction cs with
  | nil => rfl
  | cons c cs ih => rwa [crosses, if_pos rfl]

theorem crosses_comm (cs ds : List Char) : crosses cs ds = crosses ds cs := by
  induction cs generalizing ds with
  | nil => cases ds <;> rfl
  | cons c cs ih =>
    cases ds with
    | nil => rfl
    | cons d ds => simp only [crosses, ih ds, eq_comm (a := c), or_comm]

theorem byteOrder_eq_lt_iff {s t : String} : byteOrder s t = .lt ↔ s.toList < t.toList := by
  rw [byteOrder, ← Utf8.encode_lt_iff]
  split
  · next less => simp only [less]
  · next not_less => split <;> simp only [not_less, reduceCtorEq]

theorem byteOrder_self (s : String) : byteOrder s s = .eq := by
  rw [byteOrder, if_neg (List.lt_irrefl _), if_pos rfl]

theorem byteOrder_eq_gt_iff {s t : String} : byteOrder s t = .gt ↔ t.toList < s.toList := by
  simp only [byteOrder, Utf8.encode_lt_iff]
  rcases Std.lt_trichotomy s.toList t.toList with less | same | greater
  · simp only [if_pos less, reduceCtorEq, List.lt_asymm less]
  · simp only [String.toList_inj.1 same, List.lt_irrefl, if_false, if_true, reduceCtorEq]
  · have other : s ≠ t := fun same => List.lt_irrefl _ (same ▸ greater)
    simp only [if_neg (List.lt_asymm greater), if_neg other, greater]

/-- Where one text comes first with the separator in front, its bytes do so too unless the texts cross. -/
theorem lt_iff_of_lex {cs ds : List Char} (before : List.Lex Precedes cs ds) :
    cs < ds ↔ crosses cs ds = false := by
  induction before with
  | nil => exact iff_of_true (List.nil_lt_cons _ _) rfl
  | cons _ ih => simpa only [crosses, if_pos, List.cons_lt_cons_iff, Char.lt_irrefl, false_or, true_and] using ih
  | @rel c cs d ds first =>
    obtain ⟨other, first⟩ := first
    rw [List.cons_lt_cons_iff, crosses, if_neg other]
    simp only [other, false_and, or_false, decide_eq_false_iff_not, not_or, not_and]
    rcases first with rfl | ⟨plain, less⟩
    · refine ⟨fun less => ⟨fun _ => Char.lt_asymm less, fun same => absurd same.symm other⟩, fun apart => ?_⟩
      exact Std.lt_of_le_of_ne (Char.not_lt.1 (apart.1 rfl)) other
    · exact iff_of_true less ⟨fun same => Char.lt_asymm (same ▸ less), fun same => absurd same plain⟩

/-- Of a text that comes first with the separator in front, the bytes come behind just if the texts cross. -/
theorem byteOrder_of_textPrecedes {s t : String} (before : TextPrecedes s t) :
    byteOrder s t = if crosses s.toList t.toList then .gt else .lt := by
  have less := lt_iff_of_lex before
  split
  · next crossing =>
    rw [byteOrder_eq_gt_iff]
    rcases Std.lt_trichotomy s.toList t.toList with ahead | same | behind
    · rw [less.1 ahead] at crossing
      cases crossing
    · rw [String.toList_inj.1 same] at before
      exact absurd before (textPrecedes_asymm before)
    · exact behind
  · next apart => exact byteOrder_eq_lt_iff.2 (less.2 (Bool.eq_false_iff.2 apart))

/-- **The order of plain paths is the order of the bytes** of their texts just if these do not cross. -/
theorem order_eq_byteOrder_iff {p q : AttributePath} (plain_p : p.Plain) (plain_q : q.Plain) :
    p.order q = byteOrder p.display q.display ↔ crosses p.display.toList q.display.toList = false := by
  cases order : p.order q with
  | lt =>
    rw [byteOrder_of_textPrecedes ((order_eq_lt_iff_textPrecedes plain_p plain_q).1 order)]
    cases crosses p.display.toList q.display.toList <;> decide
  | eq => simp only [order_eq_eq_iff.1 order, byteOrder_self, crosses_self]
  | gt =>
    have before := (order_eq_lt_iff_textPrecedes plain_q plain_p).1 (order_of_gt order)
    rw [eq_comm, byteOrder_eq_gt_iff, ← byteOrder_eq_lt_iff, crosses_comm, byteOrder_of_textPrecedes before]
    cases crosses q.display.toList p.display.toList <;> decide

/-! ## What texts name -/

/-- A path that some text names. -/
def Named (p : AttributePath) : Prop :=
  ∃ text, parse? text = some p

theorem named_iff_plain {p : AttributePath} : p.Named ↔ p.Plain :=
  ⟨fun ⟨_, parsed⟩ => plain_of_parse? parsed, fun plain => ⟨_, plain.parse?_display⟩⟩

end AttributePath

/-! ## The lists of a batch -/

open AttributePath

/-- Operations in the order of the bytes of what is displayed of their paths. -/
def SortedByText (ops : List Operation) : Prop :=
  ops.Pairwise fun op op' => byteOrder op.path.display op'.path.display ≠ .gt

instance (ops : List Operation) : Decidable (SortedByText ops) :=
  inferInstanceAs (Decidable (ops.Pairwise _))

/-- Operations that are in order attribute by attribute are in the order of the texts just if no two of these
cross. -/
theorem ByPath.sortedByText_iff_pairwise {ops : List Operation} (sorted : ByPath ops)
    (named : ∀ op ∈ ops, op.path.Named) :
    SortedByText ops ↔
      ops.Pairwise fun op op' => crosses op.path.display.toList op'.path.display.toList = false := by
  have alike {op op' : Operation} (member : op ∈ ops) (member' : op' ∈ ops)
      (before : op.path = op'.path ∨ op.path.order op'.path = .lt) :
      byteOrder op.path.display op'.path.display ≠ .gt ↔
        crosses op.path.display.toList op'.path.display.toList = false := by
    rcases before with same | before
    · simp only [same, byteOrder_self, crosses_self, ne_eq, reduceCtorEq, not_false_eq_true]
    · have plain := named_iff_plain.1 (named op member)
      have plain' := named_iff_plain.1 (named op' member')
      rw [byteOrder_of_textPrecedes ((order_eq_lt_iff_textPrecedes plain plain').1 before)]
      cases crosses op.path.display.toList op'.path.display.toList <;> decide
  exact ⟨fun texts => (sorted.and texts).imp_of_mem fun member member' both =>
      (alike member member' both.1).1 both.2,
    fun apart => (sorted.and apart).imp_of_mem fun member member' both =>
      (alike member member' both.1).2 both.2⟩

namespace Merger

/-- The lists of a batch are in order attribute by attribute. -/
theorem byPath_of_list {ops : List Operation} {errors : List Inconsistency} {list : List Operation}
    (member : let b := (empty.processAll ops).1.finish errors; list ∈ [b.uploads, b.tracks, b.others]) :
    ByPath list := by
  have fresh := fresh_processAll ops
  have sorted := byPath_operations fresh.sorted fresh.aligned
  obtain ⟨uploads, tracks, others⟩ := lists_finish (empty.processAll ops).1 errors
  simp only [List.mem_cons, List.not_mem_nil, or_false, uploads, tracks, others] at member
  rcases member with rfl | rfl | rfl <;> exact sorted.filter _

/-- **The order of paths and the order of their texts.** Paths that texts name are in the order of these with
the separator before every other character, and in the order of the bytes just if the texts do not cross.
Each list of a batch is in order attribute by attribute, so what is displayed of its paths is in the order of
the bytes just if no two of them cross. -/
theorem sortedByText_iff (ops : List Operation) (errors : List Inconsistency) :
    (∀ p q : AttributePath, p.Named → q.Named →
      (p.order q = .lt ↔ TextPrecedes p.display q.display) ∧
        (p.order q = byteOrder p.display q.display ↔
          crosses p.display.toList q.display.toList = false)) ∧
      let b := (empty.processAll ops).1.finish errors
      ∀ list ∈ [b.uploads, b.tracks, b.others], ByPath list ∧
        ((∀ op ∈ list, op.path.Named) →
          (SortedByText list ↔ list.Pairwise fun op op' =>
            crosses op.path.display.toList op'.path.display.toList = false)) := by
  refine ⟨fun p q named named' => ?_, fun list member => ?_⟩
  · rw [named_iff_plain] at named named'
    exact ⟨order_eq_lt_iff_textPrecedes named named', order_eq_byteOrder_iff named named'⟩
  · have sorted := byPath_of_list member
    exact ⟨sorted, sorted.sortedByText_iff_pairwise⟩

/-- A value for each of the attributes that the texts name. -/
def assignments (texts : List String) : List Operation :=
  (texts.filterMap parse?).map fun path => ⟨path, .assign (.bool true)⟩

/-- Texts with nothing but letters come out in order. -/
theorem sortedByText_letters :
    let b := (empty.processAll (assignments ["b", "ab", "a/c", "a"])).1.finish []
    b.others.map (·.path.display) = ["a", "a/c", "ab", "b"] ∧ SortedByText b.others := by
  refine ⟨by decide +kernel, ?_⟩
  have listed := (sortedByText_iff (assignments ["b", "ab", "a/c", "a"]) []).2 _
    (List.mem_cons_of_mem _ (List.mem_cons_of_mem _ List.mem_cons_self))
  have plain : ∀ op ∈ ((empty.processAll (assignments ["b", "ab", "a/c", "a"])).1.finish []).others,
      op.path.Plain := by
    decide +kernel
  exact (listed.2 fun op member => named_iff_plain.2 (plain op member)).2 (by decide +kernel)

/-- **Texts out of order.** What comes behind `a` in the one path is a separator and in the other one a mark,
whose byte comes first. The batch has the paths in the other order. -/
theorem not_sortedByText_mark :
    ∃ p q : AttributePath, parse? "a/b" = some p ∧ parse? "a!" = some q ∧
      p.order q = .lt ∧ byteOrder p.display q.display = .gt ∧
      let b := (empty.processAll (assignments ["a!", "a/b"])).1.finish []
      b.others.map (·.path) = [p, q] ∧ ¬ SortedByText b.others := by
  refine ⟨⟨["a", "b"], by simp⟩, single "a!", by decide +kernel, by decide +kernel, by decide +kernel,
    by decide +kernel, by decide +kernel, by decide +kernel⟩

end Merger

end Outbox
