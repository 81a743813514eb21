import Outbox.Text.Pieces

/-!
# Attribute paths

An attribute of a run is addressed by a path: a list of segments, never empty. The text form joins
the segments with a slash; it is for display, since a segment may hold slashes itself and two paths
may share one text.

* `AttributePath.ofSegments?` takes any non-empty list of segments;
* `AttributePath.parse?` splits a text at its slashes and drops empty pieces;
* `AttributePath.order` compares segment by segment, each by code points.
-/

namespace Outbox

/-- The address of an attribute. -/
structure AttributePath where
  segments : List String
  nonempty : segments ≠ []
deriving DecidableEq

namespace AttributePath

/-- The character between the segments of a path's text. -/
def separator : Char := '/'

/-- The path of one segment. -/
def single (segment : String) : AttributePath :=
  ⟨[segment], List.cons_ne_nil segment []⟩

/-- The path with these segments, if there are any. -/
def ofSegments? (segments : List String) : Option AttributePath :=
  if h : segments ≠ [] then some ⟨segments, h⟩ else none

@[simp] theorem ofSegments?_segments (p : AttributePath) : ofSegments? p.segments = some p := by
  simp [ofSegments?, p.nonempty]

theorem ofSegments?_eq_none_iff {segments : List String} :
    ofSegments? segments = none ↔ segments = [] := by
  simp [ofSegments?]

/-- The path that a text denotes: its pieces that are not empty. -/
def parse? (text : String) : Option AttributePath :=
  ofSegments? (((pieces separator text.toList).filter (· ≠ [])).map String.ofList)

/-- The text of a path: its segments, a slash between each two. -/
def display (p : AttributePath) : String :=
  String.intercalate (String.singleton separator) p.segments

/-- The number of segments. -/
def length (p : AttributePath) : Nat :=
  p.segments.length

/-- Paths are ordered by their first segments that differ; a path comes behind its beginnings. -/
def order (p q : AttributePath) : Ordering :=
  if p.segments < q.segments then .lt else if p = q then .eq else .gt

theorem order_eq_eq_iff {p q : AttributePath} : p.order q = .eq ↔ p = q := by
  unfold order
  split
  · next less =>
    constructor
    · simp
    · rintro rfl
      exact absurd less (List.lt_irrefl _)
  · split <;> simp_all

end AttributePath

end Outbox
