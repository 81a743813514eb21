import Outbox.Proofs.Merge.Table

/-!
# The order of the attributes in a batch

The table of a batch is sorted by path, in whatever order the attributes came. So it is known from what
it has at each path, and what is counted over all of it changes with the one entry that is set.

* `AttributePath.order_trans` and its companions: the order of paths is a strict total order;
* `PendingTable.Sorted` is kept by `set`, and `Sorted.ext` tells sorted tables apart by what they have;
* `PendingTable.points_set` is the law of the points that are pending on all attributes.
-/

namespace Outbox

namespace AttributePath

variable {p q r : AttributePath}

theorem order_eq_lt_iff : p.order q = .lt ↔ p.segments < q.segments := by
  unfold order
  split
  · next less => simp [less]
  · next less => split <;> simp [less]

theorem order_trans (h : p.order q = .lt) (h' : q.order r = .lt) : p.order r = .lt :=
  order_eq_lt_iff.2 (List.lt_trans (order_eq_lt_iff.1 h) (order_eq_lt_iff.1 h'))

theorem ne_of_order (h : p.order q = .lt) : p ≠ q := by
  rintro rfl
  exact List.lt_irrefl _ (order_eq_lt_iff.1 h)

/-- Of two paths one comes first, unless they are the same. -/
theorem order_of_gt (h : p.order q = .gt) : q.order p = .lt := by
  have not_less : ¬ p.segments < q.segments := fun less => by
    rw [order_eq_lt_iff.2 less] at h
    cases h
  have differs : p.segments ≠ q.segments := by
    intro same
    have equal : p = q := by
      obtain ⟨ps, _⟩ := p
      obtain ⟨qs, _⟩ := q
      cases same
      rfl
    rw [order_eq_eq_iff.2 equal] at h
    cases h
  refine order_eq_lt_iff.2 (Decidable.byContradiction fun not_more => differs ?_)
  exact List.le_antisymm (List.not_lt.1 not_more) (List.not_lt.1 not_less)

end AttributePath

namespace PendingTable

/-- The paths of a table come in order, each once. -/
def Sorted (table : PendingTable) : Prop :=
  table.Pairwise fun entry entry' => entry.1.order entry'.1 = .lt

theorem sorted_nil : Sorted [] :=
  List.Pairwise.nil

variable {table table' : PendingTable} {path : AttributePath} {p : Pending}

/-- What comes before the first path of a table is not in it. -/
theorem get?_eq_none_of_before {entry : AttributePath × Pending} (sorted : Sorted (entry :: table))
    (before : path.order entry.1 = .lt) : get? (entry :: table) path = none := by
  have later : ∀ e ∈ entry :: table, path.order e.1 = .lt := by
    intro e member
    rcases List.mem_cons.1 member with rfl | member
    · exact before
    · exact AttributePath.order_trans before ((List.pairwise_cons.1 sorted).1 e member)
  generalize entry :: table = entries at later
  induction entries with
  | nil => rfl
  | cons e entries ih =>
    have other : e.1 ≠ path := (AttributePath.ne_of_order (later e List.mem_cons_self)).symm
    rw [get?, if_neg other]
    exact ih fun e' member => later e' (List.mem_cons_of_mem _ member)

theorem get?_head (entry : AttributePath × Pending) (table : PendingTable) :
    get? (entry :: table) entry.1 = some entry.2 := by
  rw [get?, if_pos rfl]

/-- Setting an entry keeps the order. -/
theorem Sorted.set (h : table.Sorted) (path : AttributePath) (p : Pending) :
    (table.set path p).Sorted := by
  induction table with
  | nil => exact List.pairwise_singleton ..
  | cons entry rest ih =>
    obtain ⟨here, q⟩ := entry
    obtain ⟨first, sorted⟩ := List.pairwise_cons.1 h
    cases order : path.order here with
    | lt =>
      rw [PendingTable.set, order]
      refine List.pairwise_cons.2 ⟨?_, h⟩
      intro e member
      rcases List.mem_cons.1 member with rfl | member
      · exact order
      · exact AttributePath.order_trans order (first e member)
    | eq =>
      rw [PendingTable.set, order]
      obtain rfl := AttributePath.order_eq_eq_iff.1 order
      exact List.pairwise_cons.2 ⟨first, sorted⟩
    | gt =>
      rw [PendingTable.set, order]
      refine List.pairwise_cons.2 ⟨?_, ih sorted⟩
      intro e member
      rcases mem_of_set member with rfl | old
      · exact AttributePath.order_of_gt order
      · exact first e old

/-- **A sorted table is known from what it has at each path.** -/
theorem Sorted.ext (h : table.Sorted) (h' : table'.Sorted)
    (same : ∀ path, table.get? path = table'.get? path) : table = table' := by
  induction table generalizing table' with
  | nil =>
    cases table' with
    | nil => rfl
    | cons entry rest =>
      have found := same entry.1
      rw [get?_head] at found
      cases found
  | cons entry rest ih =>
    cases table' with
    | nil =>
      have found := same entry.1
      rw [get?_head] at found
      cases found
    | cons entry' rest' =>
      -- if the first paths differed, the smaller one would be in one table only
      have head : entry.1 = entry'.1 := by
        cases order : entry.1.order entry'.1 with
        | eq => exact AttributePath.order_eq_eq_iff.1 order
        | lt =>
          have found := same entry.1
          rw [get?_head, get?_eq_none_of_before h' order] at found
          cases found
        | gt =>
          have found := same entry'.1
          rw [get?_head, get?_eq_none_of_before h (AttributePath.order_of_gt order)] at found
          cases found
      obtain ⟨path, p⟩ := entry
      obtain ⟨path', p'⟩ := entry'
      obtain rfl : path = path' := head
      have value : p = p' := by
        have found := same path
        rw [get?, if_pos rfl, get?, if_pos rfl, Option.some.injEq] at found
        exact found
      obtain ⟨first, sorted⟩ := List.pairwise_cons.1 h
      obtain ⟨first', sorted'⟩ := List.pairwise_cons.1 h'
      have absent {entries : PendingTable} (later : ∀ e ∈ entries, path.order e.1 = .lt) :
          entries.get? path = none := by
        cases found : entries.get? path with
        | none => rfl
        | some q =>
          have := AttributePath.ne_of_order (later _ (mem_of_get? found))
          exact absurd rfl this
      rw [value, ih sorted sorted' fun other => ?_]
      by_cases here : path = other
      · rw [← here, absent first, absent first']
      · have found := same other
        rwa [get?, if_neg here, get?, if_neg here] at found

/-- Setting what is there already changes nothing. -/
theorem Sorted.set_same (h : table.Sorted) (found : table.get? path = some p) : table.set path p = table := by
  refine (h.set path p).ext h fun path' => ?_
  rw [get?_set]
  split
  · next here => rw [here, found]
  · rfl

/-- A table grows by the attributes that were not there. -/
theorem length_set (sorted : table.Sorted) (path : AttributePath) (p : Pending) :
    (table.set path p).length = if (table.get? path).isSome then table.length else table.length + 1 := by
  induction table with
  | nil => rfl
  | cons entry rest ih =>
    obtain ⟨here, q⟩ := entry
    have later := (List.pairwise_cons.1 sorted).2
    cases order : path.order here with
    | lt => simp [PendingTable.set, order, get?_eq_none_of_before sorted order]
    | eq =>
      obtain rfl := AttributePath.order_eq_eq_iff.1 order
      simp [PendingTable.set, order, get?_head (path, q) rest]
    | gt =>
      have other : here ≠ path := AttributePath.ne_of_order (AttributePath.order_of_gt order)
      rw [PendingTable.set, order, get?, if_neg other, List.length_cons, ih later]
      split <;> rfl

/-- The number of series points pending on all attributes. -/
def points (table : PendingTable) : Nat :=
  (table.map fun entry => entry.2.points).foldr (· + ·) 0

/-- The points change with those of the attribute that is set. -/
theorem points_set (h : table.Sorted) (path : AttributePath) (p : Pending) :
    (table.set path p).points + ((table.get? path).getD .empty).points = table.points + p.points := by
  induction table with
  | nil => simp [PendingTable.set, points, get?, Pending.empty]
  | cons entry rest ih =>
    obtain ⟨here, q⟩ := entry
    obtain ⟨first, sorted⟩ := List.pairwise_cons.1 h
    cases order : path.order here with
    | lt =>
      have absent := get?_eq_none_of_before h order
      simp only [absent, Option.getD_none, PendingTable.set, order, points, List.map_cons,
        List.foldr_cons, Pending.empty]
      omega
    | eq =>
      obtain rfl := AttributePath.order_eq_eq_iff.1 order
      have found := get?_head (path, q) rest
      simp only [found, Option.getD_some, PendingTable.set, order, points, List.map_cons,
        List.foldr_cons]
      omega
    | gt =>
      have other : here ≠ path := AttributePath.ne_of_order (AttributePath.order_of_gt order)
      have there : get? ((here, q) :: rest) path = get? rest path := by rw [get?, if_neg other]
      have := ih sorted
      simp only [there, PendingTable.set, order, points, List.map_cons, List.foldr_cons] at this ⊢
      omega

end PendingTable

end Outbox
