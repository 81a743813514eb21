import Outbox.Proofs.Merge.Bounds

/-!
# Rejected operations

An operation is rejected if it implies another type than the last one that was accepted on its attribute behind
the last deletion there. It is reported, and apart from that a batch is what it would be without it: the same
operations are sent, and the same points, attributes and operations are counted.

* `Operation.clashes` says which operations are rejected, and `sift` parts operations into those accepted and
  those rejected, with nothing but their types in view;
* `Pending.quiet` is what is pending apart from reports; `Pending.visit_sifts` is the law of one operation, and
  `Pending.joinAll_sifts` draws it out to all operations of an attribute;
* `Merger.joined_quiet` is the batch of the accepted operations, and `Merger.rejected_inert` the result.
-/

namespace Outbox

/-! ## Types of operations -/

/-- The type that an operation implies; none if it deletes its attribute or is a copy. -/
def Operation.type? (op : Operation) : Option DataType :=
  match op.mutation.role with
  | .change t _ => some t
  | .configure t => some t
  | .delete => none
  | .copy => none

/-- The report of an operation that implies another type than its attribute has. -/
def Operation.report? (op : Operation) : Option Inconsistency :=
  op.type?.map fun t => .typeMismatch op.path op.kind t

/-- The type that the last of some operations on an attribute implies, unless the attribute was deleted since. -/
def typeBehind (ops : List Operation) : Option DataType :=
  (behindDeletion ops).getLast?.bind Operation.type?

/-- Whether an operation implies another type than the last one on its attribute behind the last deletion
there. -/
def Operation.clashes (op : Operation) (before : List Operation) : Bool :=
  op.type?.any fun t => (typeBehind (onPath op.path before)).any (· != t)

/-- Operations that come behind accepted ones, parted into those that are accepted as well, and those that clash
with what was accepted before them. -/
def sift (before : List Operation) : List Operation → List Operation × List Operation
  | [] => ([], [])
  | op :: ops =>
    if op.clashes before then ((sift before ops).1, op :: (sift before ops).2)
    else (op :: (sift (before ++ [op]) ops).1, (sift (before ++ [op]) ops).2)

/-- The operations that an empty batch accepts. -/
def acceptedOf (ops : List Operation) : List Operation :=
  (sift [] ops).1

/-- The operations that an empty batch rejects. -/
def rejectedOf (ops : List Operation) : List Operation :=
  (sift [] ops).2

section

variable {before ops : List Operation} {op : Operation} {path : AttributePath}

/-- The last operation gives the type, and a deletion takes it away. -/
theorem typeBehind_concat (ops : List Operation) (op : Operation) : typeBehind (ops ++ [op]) = op.type? := by
  rw [typeBehind, behindDeletion_concat]
  split
  · next deletes =>
    rw [Operation.isDeletion_iff] at deletes
    simp [Operation.type?, deletes, Mutation.role]
  · simp

/-- Behind nothing on its attribute no operation clashes. -/
theorem clashes_of_nothing (nothing : onPath op.path before = []) : op.clashes before = false := by
  rw [Operation.clashes, nothing]
  cases op.type? <;> rfl

/-- What clashes implies a type, and is reported. -/
theorem isSome_report_of_clashes (clash : op.clashes before = true) : op.report?.isSome = true := by
  rw [Operation.clashes] at clash
  rw [Operation.report?, Option.isSome_map]
  cases implied : op.type? with
  | none =>
    rw [implied] at clash
    cases clash
  | some t => rfl

/-- What is rejected is one of the operations, and clashes with what was accepted before it. -/
theorem clashes_of_rejected (rejected : op ∈ (sift before ops).2) :
    op ∈ ops ∧ ∃ accepted, op.clashes accepted = true := by
  induction ops generalizing before with
  | nil => exact absurd rejected List.not_mem_nil
  | cons first ops ih =>
    rw [sift] at rejected
    split at rejected
    · next clash =>
      rcases List.mem_cons.1 rejected with rfl | later
      · exact ⟨List.mem_cons_self, before, clash⟩
      · exact (ih later).imp_left (List.mem_cons_of_mem _)
    · exact (ih rejected).imp_left (List.mem_cons_of_mem _)

/-- Every operation is accepted or rejected. -/
theorem length_sift (before ops : List Operation) :
    (sift before ops).1.length + (sift before ops).2.length = ops.length := by
  induction ops generalizing before with
  | nil => rfl
  | cons op ops ih =>
    rw [sift]
    split
    · simp only [List.length_cons, ← ih before]
      omega
    · simp only [List.length_cons, ← ih (before ++ [op])]
      omega

/-- The first operation on an attribute is accepted. -/
theorem onPath_sift_eq_nil_iff (ops : List Operation) (nothing : onPath path before = []) :
    onPath path (sift before ops).1 = [] ↔ onPath path ops = [] := by
  induction ops generalizing before with
  | nil => rfl
  | cons op ops ih =>
    by_cases here : op.path = path
    · rw [sift, if_neg (by rw [clashes_of_nothing (by rwa [here])]; decide), onPath_cons_same here,
        onPath_cons_same here]
      exact iff_of_false (List.cons_ne_nil _ _) (List.cons_ne_nil _ _)
    · rw [onPath_cons_other here, sift]
      split
      · exact ih nothing
      · rw [onPath_cons_other here]
        exact ih (by rw [onPath_append, nothing, onPath_cons_other here]; rfl)

end

/-! ## One attribute -/

namespace Pending

variable {p p' q : Pending} {op : Operation} {before : List Operation}

/-- What is pending apart from reports. -/
def quiet (p : Pending) : Pending :=
  { p with errors := [] }

/-- What was reported before is no matter to an operation that is accepted. -/
theorem visit_quiet (sound : p.Sound) (accepted : p.visit op = (p', .ok .accepted)) :
    p.quiet.visit op = (p'.quiet, .ok .accepted) := by
  cases visited sound accepted with
  | changed hr | configured hr =>
    exact visit_reset accepted (Operation.keeps_of_role hr (by simp)) (.inr rfl) []
  | deleted hr =>
    have sound' : p.quiet.Sound := ⟨sound.typed, sound.configured, sound.series, sound.deletion⟩
    simp only [visit, hr, sound'.delete_eq]
    rfl

/-- **What becomes of an operation that joins.** It is rejected if it clashes, which leaves a report and nothing
else, and accepted if it does not, and then the type is the one it implies. -/
theorem visit_sifts (sound : p.Sound) (typed : p.dataType = typeBehind (onPath op.path before)) {v : Visit}
    (hv : p.visit op = (p', .ok v)) (joins : v ≠ .waits) :
    (op.clashes before = true ∧ v = .rejected ∧ p'.quiet = p.quiet ∧ p'.dataType = p.dataType ∧
        p'.errors = p.errors ++ op.report?.toList) ∨
      (op.clashes before = false ∧ v = .accepted ∧ p'.errors = p.errors ∧ p'.dataType = op.type?) := by
  have clashes_of_type {t : DataType} (implied : op.type? = some t) : op.clashes before = p.conflicts t := by
    rw [Operation.clashes, implied, ← typed]
    rfl
  cases visited sound hv with
  | waits => exact absurd rfl joins
  | @rejected t role clash =>
    have implied : op.type? = some t := by
      obtain ⟨c, hr⟩ | hr := role <;> simp [Operation.type?, hr]
    refine .inl ⟨by rw [clashes_of_type implied, clash], rfl, rfl, rfl, ?_⟩
    rw [Operation.report?, implied]
    rfl
  | @changed t c _ hr fits =>
    have implied : op.type? = some t := by simp [Operation.type?, hr]
    exact .inr ⟨by rw [clashes_of_type implied, fits], rfl, rfl, implied.symm⟩
  | @configured t hr fits =>
    have implied : op.type? = some t := by simp [Operation.type?, hr]
    exact .inr ⟨by rw [clashes_of_type implied, fits], rfl, rfl, implied.symm⟩
  | deleted hr =>
    have untyped : op.type? = none := by simp [Operation.type?, hr]
    refine .inr ⟨?_, rfl, rfl, untyped.symm⟩
    rw [Operation.clashes, untyped]
    rfl

/-- **All operations of an attribute.** Those that are accepted join without the others and leave the same
pending, the type is that of the last one accepted, and those rejected are reported in turn. -/
theorem joinAll_sifts {path : AttributePath} (sound : p.Sound) {ops : List Operation} (before : List Operation)
    (typed : p.dataType = typeBehind (onPath path before)) (joined : p.joinAll (onPath path ops) = some q) :
    p.quiet.joinAll (onPath path (sift before ops).1) = some q.quiet ∧
      q.dataType = typeBehind (onPath path (before ++ (sift before ops).1)) ∧
      q.errors = p.errors ++ (onPath path (sift before ops).2).filterMap Operation.report? := by
  induction ops generalizing p before with
  | nil =>
    cases joined
    simp [sift, onPath, joinAll, typed]
  | cons op ops ih =>
    by_cases here : op.path = path
    · subst here
      rw [onPath_cons_same rfl] at joined
      obtain ⟨p', v, hv, joins, rest⟩ := visit_of_joinAll joined
      have sound' := sound_visit sound hv
      rcases visit_sifts sound typed hv joins with
        ⟨clash, rfl, same, still, reported⟩ | ⟨fits, rfl, silent, implied⟩
      · rw [sift, if_pos clash, onPath_cons_same rfl]
        obtain ⟨joined', typed', errors⟩ := ih sound' before (still.trans typed) rest
        refine ⟨by rwa [same] at joined', typed', ?_⟩
        obtain ⟨report, is_report⟩ := Option.isSome_iff_exists.1 (isSome_report_of_clashes clash)
        rw [errors, reported, List.filterMap_cons_some is_report, is_report, List.append_assoc]
        rfl
      · rw [sift, if_neg (by rw [fits]; decide), onPath_cons_same rfl]
        have typed' : p'.dataType = typeBehind (onPath op.path (before ++ [op])) := by
          rw [onPath_append, onPath_cons_same rfl]
          exact implied.trans (typeBehind_concat _ op).symm
        obtain ⟨joined', typed'', errors⟩ := ih sound' _ typed' rest
        refine ⟨?_, ?_, by rw [errors, silent]⟩
        · rw [joinAll_cons_of_visit (visit_quiet sound hv) (by decide), joined']
        · rw [typed'', List.append_assoc]
          rfl
    · rw [onPath_cons_other here] at joined
      rw [sift]
      split
      · rw [onPath_cons_other here]
        exact ih sound before typed joined
      · have same : onPath path (before ++ [op]) = onPath path before := by
          rw [onPath_append, onPath_cons_other here]
          exact List.append_nil _
        obtain ⟨joined', typed', errors⟩ := ih sound _ (typed.trans (congrArg typeBehind same.symm)) joined
        rw [onPath_cons_other here]
        refine ⟨joined', ?_, errors⟩
        rw [typed', List.append_assoc]
        rfl

end Pending

/-! ## The whole batch -/

theorem PendingTable.get?_map (table : PendingTable) (f : Pending → Pending) (path : AttributePath) :
    get? (table.map fun entry => (entry.1, f entry.2)) path = (table.get? path).map f := by
  induction table with
  | nil => rfl
  | cons entry rest ih =>
    rw [List.map_cons, get?, get?]
    split
    · rfl
    · exact ih

namespace Merger

variable {m : Merger} {ops : List Operation}

/-- What all operations did to an attribute of a batch that was empty. -/
theorem sifts_processAll (all : empty.processAll ops = (m, .ok ops.length)) (path : AttributePath) :
    Pending.empty.joinAll (onPath path (acceptedOf ops)) = some (m.pending path).quiet ∧
      (m.pending path).errors = (onPath path (rejectedOf ops)).filterMap Operation.report? := by
  obtain ⟨joined, -, errors⟩ := Pending.joinAll_sifts Pending.sound_empty [] rfl
    ((processAll_joined all).pending path)
  exact ⟨joined, errors⟩

/-- **The accepted operations alone** all join a batch as well, which has the same pending, reports apart. -/
theorem joined_quiet (all : empty.processAll ops = (m, .ok ops.length)) :
    ∃ m', empty.processAll (acceptedOf ops) = (m', .ok (acceptedOf ops).length) ∧
      m'.table = m.table.map fun entry => (entry.1, entry.2.quiet) := by
  obtain ⟨m', all'⟩ := joined_processAll (m := empty) fun path =>
    ⟨_, (sifts_processAll all path).1⟩
  refine ⟨m', all', ?_⟩
  have joined := processAll_joined all
  have joined' := processAll_joined all'
  have sorted := (joined.regular regular_empty).sorted
  refine (joined'.regular regular_empty).sorted.ext (List.pairwise_map.2 sorted) fun path => ?_
  have pending : m'.pending path = (m.pending path).quiet :=
    Option.some.inj ((joined'.pending path).symm.trans (sifts_processAll all path).1)
  have has : m'.has path = m.has path := by
    have same : onPath path (sift [] ops).1 = [] ↔ onPath path ops = [] := onPath_sift_eq_nil_iff ops rfl
    rw [joined.has, joined'.has, acceptedOf, Bool.eq_iff_iff]
    simp [same]
  rw [PendingTable.get?_map, get?_eq_of_has, get?_eq_of_has, has, pending]
  split <;> rfl

/-- A batch sends and counts the same apart from reports. -/
theorem finish_quiet {m' : Merger} (table : m'.table = m.table.map fun entry => (entry.1, entry.2.quiet))
    (errors : List Inconsistency) :
    m'.finish errors = { m.finish errors with errors, sourceCount := m'.sourceCount } := by
  have operations : (m'.table.flatMap fun entry => entry.2.operations) =
      m.table.flatMap fun entry => entry.2.operations := by
    rw [table, List.flatMap_map]
    rfl
  have silent : (m'.table.flatMap fun entry => entry.2.errors) = [] := by
    rw [table, List.flatMap_map]
    exact List.flatMap_eq_nil_iff.2 fun _ _ => rfl
  simp only [finish, operations, silent, List.append_nil]

theorem counts_quiet {m' : Merger} (regular : m.Regular) (regular' : m'.Regular)
    (table : m'.table = m.table.map fun entry => (entry.1, entry.2.quiet)) :
    m'.points = m.points ∧ m'.attributes = m.attributes ∧ m'.length = m.length ∧
      ∀ path, m'.has path = m.has path ∧ m'.pointsOf path = m.pointsOf path := by
  have found (path : AttributePath) : m'.table.get? path = (m.table.get? path).map Pending.quiet := by
    rw [table, PendingTable.get?_map]
  refine ⟨?_, ?_, ?_, fun path => ⟨?_, ?_⟩⟩
  · rw [regular.counted, regular'.counted, PendingTable.points, PendingTable.points, table, List.map_map]
    rfl
  · rw [attributes, attributes, table, List.length_map]
  · rw [length, length, table, List.map_map]
    rfl
  · rw [has, has, found, Option.isSome_map]
  · rw [pointsOf, pointsOf, pending, pending, found]
    cases m.table.get? path <;> rfl

/-- Whether an operation is rejected is told from those accepted before. -/
theorem visit_of_processAll (all : empty.processAll ops = (m, .ok ops.length)) {before after : List Operation}
    {op : Operation} (split : ops = before ++ op :: after) :
    (((empty.takeAll before).pending op.path).visit op).2 =
      .ok (if op.clashes (acceptedOf before) then .rejected else .accepted) := by
  have joined := (processAll_joined all).pending op.path
  rw [split, onPath_append, onPath_cons_same rfl, Pending.joinAll_append, Option.bind_eq_some_iff] at joined
  obtain ⟨p, first, rest⟩ := joined
  obtain ⟨p', v, hv, joins, -⟩ := Pending.visit_of_joinAll rest
  have state : (empty.takeAll before).pending op.path = p := by
    rw [pending_takeAll]
    exact Pending.takeAll_of_joinAll first
  have sound := sound_empty.takeAll before op.path
  have typed := (Pending.joinAll_sifts Pending.sound_empty [] rfl first).2.1
  rw [state] at sound ⊢
  rw [hv]
  rcases Pending.visit_sifts sound typed hv joins with ⟨clash, rfl, -⟩ | ⟨fits, rfl, -⟩
  · rw [if_pos (show op.clashes (acceptedOf before) = true from clash)]
  · rw [if_neg (show ¬ op.clashes (acceptedOf before) = true by rw [Bool.not_eq_true]; exact fits)]

/-- The reports of a batch come attribute by attribute. -/
theorem errors_finish (all : empty.processAll ops = (m, .ok ops.length)) (errors : List Inconsistency) :
    (m.finish errors).errors =
      errors ++ (groupedBy (m.table.map Prod.fst) (rejectedOf ops)).filterMap Operation.report? := by
  have sorted := ((processAll_joined all).regular regular_empty).sorted
  rw [groupedBy, List.filterMap_flatMap, List.flatMap_map]
  refine congrArg (errors ++ ·) (List.flatMap_congr fun entry member => ?_)
  have here : m.pending entry.1 = entry.2 := by
    rw [pending, get?_of_mem sorted member]
    rfl
  rw [← (sifts_processAll all entry.1).2, here]

/-- An attribute that an operation was rejected on is one of the batch. -/
theorem mem_paths_of_rejected (all : empty.processAll ops = (m, .ok ops.length)) {op : Operation}
    (rejected : op ∈ rejectedOf ops) : op.path ∈ m.table.map Prod.fst := by
  have joined := processAll_joined all
  rw [PendingTable.mem_paths (joined.regular regular_empty).sorted]
  have inside : op ∈ onPath op.path ops := mem_onPath.2 ⟨(clashes_of_rejected rejected).1, rfl⟩
  refine (joined.has op.path).trans ?_
  simp [List.ne_nil_of_mem inside]

/-- **Rejected operations do nothing but report themselves.** Of operations that all join a batch those are
rejected that imply another type than the last one that was accepted on the attribute behind the last deletion
there. Without them the batch is the same, reports apart: its lists, and the points, attributes and operations
that it counts. It has a report of each of them, behind those given, in the order of the paths, and on a path in
the order in which they came. -/
theorem rejected_inert (all : empty.processAll ops = (m, .ok ops.length)) (errors : List Inconsistency) :
    (∀ before op after, ops = before ++ op :: after →
      (((empty.takeAll before).pending op.path).visit op).2 =
        .ok (if op.clashes (acceptedOf before) then .rejected else .accepted)) ∧
      (∃ m', empty.processAll (acceptedOf ops) = (m', .ok (acceptedOf ops).length) ∧
        m'.finish errors = { m.finish errors with errors, sourceCount := (acceptedOf ops).length } ∧
        m'.points = m.points ∧ m'.attributes = m.attributes ∧ m'.length = m.length ∧
        ∀ path, m'.has path = m.has path ∧ m'.pointsOf path = m.pointsOf path) ∧
      (acceptedOf ops).length + (rejectedOf ops).length = m.sourceCount ∧
      ∃ paths reports, (m.finish errors).errors = errors ++ reports ∧
        reports.length = (rejectedOf ops).length ∧
        reports = (groupedBy paths (rejectedOf ops)).filterMap Operation.report? ∧
        paths.Pairwise (fun path path' => path.order path' = .lt) ∧ ∀ op ∈ rejectedOf ops, op.path ∈ paths := by
  have joined := processAll_joined all
  have regular := joined.regular regular_empty
  obtain ⟨m', all', table⟩ := joined_quiet all
  have joined' := processAll_joined all'
  have count : m'.sourceCount = (acceptedOf ops).length := joined'.count.trans (Nat.zero_add _)
  refine ⟨fun before op after => visit_of_processAll all, ⟨m', all', ?_, ?_⟩, ?_, m.table.map Prod.fst, _,
    errors_finish all errors, ?_, rfl, List.pairwise_map.2 regular.sorted, fun op => mem_paths_of_rejected all⟩
  · rw [finish_quiet table, count]
  · exact counts_quiet regular (joined'.regular regular_empty) table
  · rw [joined.count]
    exact (length_sift [] ops).trans (Nat.zero_add _).symm
  · have among := perm_groupedBy (List.pairwise_map.2 regular.sorted) fun op => mem_paths_of_rejected all
    rw [List.filterMap_length_eq_length.2, among.length_eq]
    intro op member
    obtain ⟨-, accepted, clash⟩ := clashes_of_rejected (among.subset member)
    exact isSome_report_of_clashes clash

/-- Of `mixedOperations` the set of strings is rejected where a series of strings is logged. -/
theorem rejected_inert_mixed :
    ∃ m, empty.processAll mixedOperations = (m, .ok 6) ∧
      rejectedOf mixedOperations = [⟨.single "a", .addStrings ["y"]⟩] ∧
      (m.finish []).errors = [.typeMismatch (.single "a") "AddStrings" .stringSet] ∧
      ∃ m', empty.processAll (acceptedOf mixedOperations) = (m', .ok 5) ∧
        m'.finish [] = { m.finish [] with errors := [], sourceCount := 5 } := by
  have all : empty.processAll mixedOperations = (_, .ok 6) := rfl
  obtain ⟨-, ⟨m', all', same, -⟩, -⟩ := rejected_inert all []
  exact ⟨_, all, by decide, by decide, m', all', same⟩

end Merger

end Outbox
