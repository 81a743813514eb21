import Outbox.Proofs.Backend.Store

/-!
# Clears

A clear stands for everything pending on its attribute. But of an artifact that was not assigned and a set
of strings that is not there, a service in memory clears nothing. So where a batch clears what it made
itself, the service goes on to keep what it had before.

* `ClearsOwn` says so of the operations of a batch on one attribute;
* `Operation.On` sorts the operations by the types of their attributes;
* `Reflects` is what pending changes have to do with the operations they were merged from, type by type,
  and `Reflects.edit`, `reflects_clearStrings`, `reflects_clearArtifact` and `Reflects.changed` keep it.
-/

namespace Outbox

/-! ## Clears of a batch's own making -/

/-- Whether a set of strings is kept. -/
def HoldsStrings : Option Operation → Prop
  | some ⟨_, .addStrings _⟩ => True
  | _ => False

theorem HoldsStrings.eq {held : Option Operation} (h : HoldsStrings held) :
    ∃ path vs, held = some ⟨path, .addStrings vs⟩ := by
  unfold HoldsStrings at h
  split at h
  · next path vs => exact ⟨path, vs, rfl⟩
  · exact h.elim

/-- A mutation makes something where this is kept, and another one clears it away. -/
inductive Unmakes (held : Option Operation) : Mutation → Mutation → Prop
  | strings (vs : List String) : ¬ HoldsStrings held → Unmakes held (.addStrings vs) .clearStringSet
  | artifact (hash : String) : Unmakes held (.assign (.artifact hash)) .clearArtifact

/-- Whether it is no matter what was kept of an artifact or a set of strings that the batch cleared. -/
def Mutation.Settles : Mutation → Prop
  | .assign _ => True
  | .addStrings _ => True
  | .delete => True
  | _ => False

/-- Operations on an attribute clear what one of them made, and leave it at that. -/
def ClearsOwn (held : Option Operation) (ops : List Operation) : Prop :=
  ∃ before made between clear back, ops = before ++ made :: (between ++ clear :: back) ∧
    Unmakes (heldAfter held before) made.mutation clear.mutation ∧
    (∀ op ∈ between, op.mutation ≠ .delete) ∧ ∀ op ∈ back, ¬ op.mutation.Settles

variable {held base : Option Operation} {path : AttributePath} {ops taken changes : List Operation}
  {op : Operation}

theorem ClearsOwn.behind (h : ClearsOwn (heldAfter held ops) taken) : ClearsOwn held (ops ++ taken) := by
  obtain ⟨before, made, between, clear, back, rfl, unmakes, kept, left⟩ := h
  refine ⟨ops ++ before, made, between, clear, back, (List.append_assoc ..).symm, ?_, kept, left⟩
  rw [heldAfter_append]
  exact unmakes

theorem ClearsOwn.concat (h : ClearsOwn held ops) (leaves : ¬ op.mutation.Settles) :
    ClearsOwn held (ops ++ [op]) := by
  obtain ⟨before, made, between, clear, back, rfl, unmakes, kept, left⟩ := h
  refine ⟨before, made, between, clear, back ++ [op], by simp, unmakes, kept, fun op' mem => ?_⟩
  rcases List.mem_append.1 mem with old | new
  · exact left op' old
  · exact List.mem_singleton.1 new ▸ leaves

/-- A clear comes behind what it clears. -/
theorem clearsOwn_concat {before between : List Operation} {made : Operation}
    (unmakes : Unmakes (heldAfter held before) made.mutation op.mutation)
    (kept : ∀ op' ∈ between, op'.mutation ≠ .delete) :
    ClearsOwn held (before ++ made :: between ++ [op]) :=
  ⟨before, made, between, op, [], by simp, unmakes, kept, fun _ mem => absurd mem List.not_mem_nil⟩

/-- It is no matter what a batch cleared if its last operation on the attribute settles it. -/
theorem not_clearsOwn_concat (settles : op.mutation.Settles) : ¬ ClearsOwn held (ops ++ [op]) := by
  rintro ⟨before, made, between, clear, back, split, unmakes, -, left⟩
  have split : ops ++ [op] = (before ++ made :: between) ++ clear :: back := by simpa using split
  have last : (clear :: back).getLast? = some op := by
    have last := congrArg List.getLast? split
    rw [List.getLast?_concat, List.getLast?_append, List.getLast?_cons, Option.some_or] at last
    rw [List.getLast?_cons, last]
  rcases List.mem_cons.1 (List.mem_of_getLast? last) with rfl | mem
  · generalize made.mutation = makes, op.mutation = clears at settles unmakes
    cases unmakes <;> exact settles
  · exact left op mem settles

theorem not_clearsOwn_nil : ¬ ClearsOwn held [] := by
  rintro ⟨before, made, between, clear, back, split, -⟩
  simp at split

/-! ## Operations by type -/

/-- An operation on attributes of a type. -/
def Operation.On (op : Operation) (t : DataType) : Prop :=
  (∃ c, op.mutation.role = .change t c) ∨ op.mutation.role = .configure t

/-- Whether a service in memory keeps attributes of a type. -/
def DataType.isKept : DataType → Bool
  | .file | .fileSet | .floatSeries | .stringSeries | .imageSeries => false
  | _ => true

/-- A change of a set of strings. -/
inductive Mutation.EditsStrings : Mutation → Prop
  | add (vs : List String) : EditsStrings (.addStrings vs)
  | remove (vs : List String) : EditsStrings (.removeStrings vs)
  | clear : EditsStrings .clearStringSet

namespace Operation.On

theorem ne_delete {t : DataType} (h : op.On t) : op.mutation ≠ .delete := by
  intro delete
  simp [On, delete, Mutation.role] at h

theorem editsStrings (h : op.On .stringSet) : op.mutation.EditsStrings := by
  obtain ⟨path, m⟩ := op
  cases m with
  | addStrings vs => exact .add vs
  | removeStrings vs => exact .remove vs
  | clearStringSet => exact .clear
  | assign v => cases v <;> simp [On, Mutation.role, Scalar.dataType] at h
  | uploadFileSet globs reset => cases reset <;> simp [On, Mutation.role] at h
  | log ps => cases ps <;> simp [On, Mutation.role, Points.kind, SeriesKind.dataType] at h
  | clearLog k => cases k <;> simp [On, Mutation.role, SeriesKind.dataType] at h
  | _ => simp [On, Mutation.role] at h

/-- Of an artifact, only the assignment of its hash is kept. -/
theorem artifact (h : op.On .artifact) : (∃ hash, op.mutation = .assign (.artifact hash)) ∨ op.IsIdle := by
  obtain ⟨path, m⟩ := op
  cases m with
  | assign v => cases v <;> simp [On, Mutation.role, Scalar.dataType] at h ⊢
  | trackFiles | clearArtifact => exact .inr fun _ => rfl
  | uploadFileSet globs reset => cases reset <;> simp [On, Mutation.role] at h
  | log ps => cases ps <;> simp [On, Mutation.role, Points.kind, SeriesKind.dataType] at h
  | clearLog k => cases k <;> simp [On, Mutation.role, SeriesKind.dataType] at h
  | _ => simp [On, Mutation.role] at h

theorem idle {t : DataType} (h : op.On t) (unkept : t.isKept = false) : op.IsIdle := by
  obtain ⟨path, m⟩ := op
  cases m with
  | assign v => cases v <;> (simp [On, Mutation.role, Scalar.dataType] at h; subst h; cases unkept)
  | addStrings | removeStrings | clearStringSet =>
    simp [On, Mutation.role] at h
    subst h
    cases unkept
  | delete => simp [On, Mutation.role] at h
  | _ => exact fun _ => rfl

end Operation.On

/-! ## Sets of strings -/

theorem mapHeld_of_not_holds (f : List String → List String) (none_held : ¬ HoldsStrings held) :
    mapHeld f held = held := by
  unfold mapHeld
  split
  · exact absurd trivial none_held
  · rfl

/-- A set of strings stays one. -/
theorem heldAfter_edits_of_holds (path : AttributePath) (vs : List String)
    (edits : ∀ op ∈ ops, op.mutation.EditsStrings) :
    ∃ vs', heldAfter (some ⟨path, .addStrings vs⟩) ops = some ⟨path, .addStrings vs'⟩ := by
  induction ops generalizing vs with
  | nil => exact ⟨vs, rfl⟩
  | cons op ops ih =>
    have rest : ∀ op ∈ ops, op.mutation.EditsStrings := fun op' mem =>
      edits op' (List.mem_cons_of_mem _ mem)
    have first := edits op List.mem_cons_self
    obtain ⟨path', m⟩ := op
    cases first with
    | add | remove | clear => exact ih _ rest

/-- Where there is no set of strings, only strings that are added make one. -/
theorem heldAfter_edits (none_held : ¬ HoldsStrings base) (edits : ∀ op ∈ ops, op.mutation.EditsStrings)
    (here : ∀ op ∈ ops, op.path = path) :
    heldAfter base ops = base ∨ ∃ vs before made between added,
      heldAfter base ops = some ⟨path, .addStrings vs⟩ ∧ ops = before ++ made :: between ∧
        made.mutation = .addStrings added ∧ heldAfter base before = base := by
  induction ops with
  | nil => exact .inl rfl
  | cons op ops ih =>
    have rest : ∀ op ∈ ops, op.mutation.EditsStrings := fun op' mem =>
      edits op' (List.mem_cons_of_mem _ mem)
    have first := edits op List.mem_cons_self
    have place := here op List.mem_cons_self
    -- an operation that makes nothing comes before the one that does
    have later (nothing : op.effect base = base) :
        heldAfter base (op :: ops) = base ∨ ∃ vs before made between added,
          heldAfter base (op :: ops) = some ⟨path, .addStrings vs⟩ ∧
            op :: ops = before ++ made :: between ∧
            made.mutation = .addStrings added ∧ heldAfter base before = base := by
      rw [heldAfter_cons, nothing]
      rcases ih rest fun op' mem => here op' (List.mem_cons_of_mem _ mem) with
        same | ⟨vs, before, made, between, added, set, rfl, adds, unset⟩
      · exact .inl same
      · refine .inr ⟨vs, op :: before, made, between, added, set, rfl, adds, ?_⟩
        rw [heldAfter_cons, nothing, unset]
    obtain ⟨path', m⟩ := op
    cases first with
    | remove vs => exact later (mapHeld_of_not_holds _ none_held)
    | clear => exact later (mapHeld_of_not_holds _ none_held)
    | add vs =>
      have made : (⟨path', .addStrings vs⟩ : Operation).effect base = some ⟨path', .addStrings vs⟩ := by
        unfold Operation.effect
        dsimp only
        split
        · exact absurd trivial none_held
        · rfl
      obtain rfl : path' = path := place
      obtain ⟨vs', set⟩ := heldAfter_edits_of_holds path' vs rest
      refine .inr ⟨vs', [], _, ops, vs, ?_, rfl, rfl, rfl⟩
      rw [heldAfter_cons, made, set]

/-! ## Pending changes -/

/-- What pending changes have to do with the operations on a type that they were merged from: they make
the same of what was kept, or the operations clear their own and the changes leave it at what was kept. -/
def Reflects (path : AttributePath) (base : Option Operation) (taken changes : List Operation) :
    DataType → Prop
  | .stringSet => heldAfter base changes = heldAfter base taken ∨ ClearsOwn base taken ∧
    ¬ HoldsStrings base ∧ heldAfter base changes = base ∧
      heldAfter base taken = some ⟨path, .addStrings []⟩
  | .artifact => heldAfter base changes = heldAfter base taken ∨ ClearsOwn base taken ∧
    heldAfter base changes = base
  | _ => heldAfter base changes = heldAfter base taken

theorem reflects_of_same {t : DataType} (same : heldAfter base changes = heldAfter base taken) :
    Reflects path base taken changes t := by
  cases t with
  | stringSet | artifact => exact .inl same
  | _ => exact same

theorem Reflects.same_or {t : DataType} (h : Reflects path base taken changes t) :
    heldAfter base changes = heldAfter base taken ∨ ClearsOwn base taken := by
  cases t with
  | stringSet | artifact => exact h.imp_right And.left
  | _ => exact .inl h

/-- An attribute that is not kept is not changed by operations on it. -/
theorem reflects_unkept {t : DataType} (unkept : t.isKept = false) (on : ∀ op ∈ taken, op.On t)
    (on' : ∀ op ∈ changes, op.On t) : Reflects path base taken changes t := by
  apply reflects_of_same
  rw [heldAfter_idle fun op mem => (on op mem).idle unkept,
    heldAfter_idle fun op mem => (on' op mem).idle unkept]

/-- Strings that are added or removed follow the pending changes. -/
theorem Reflects.edit (h : Reflects path base taken changes .stringSet)
    (edits : op.mutation.EditsStrings) (keeps : op.mutation ≠ .clearStringSet) (here : op.path = path) :
    Reflects path base (taken ++ [op]) (changes ++ [op]) .stringSet := by
  rcases h with same | ⟨clears, none_held, left, emptied⟩
  · exact .inl (by rw [heldAfter_concat, heldAfter_concat, same])
  · obtain ⟨path', m⟩ := op
    obtain rfl : path' = path := here
    cases edits with
    | clear => exact absurd rfl keeps
    | add vs =>
      -- a set that is added to a missing one and to an empty one is the same
      refine .inl ?_
      rw [heldAfter_concat, heldAfter_concat, left, emptied]
      unfold Operation.effect
      dsimp only
      split
      · exact absurd trivial none_held
      · rfl
    | remove vs =>
      refine .inr ⟨clears.concat id, none_held, ?_, ?_⟩
      · rw [heldAfter_concat, left]
        exact mapHeld_of_not_holds _ none_held
      · rw [heldAfter_concat, emptied]
        rfl

/-- A clear stands for all pending changes of a set of strings. -/
theorem reflects_clearStrings (edits : ∀ op ∈ taken, op.mutation.EditsStrings)
    (here : ∀ op ∈ taken, op.path = path) (clear : op.mutation = .clearStringSet) :
    Reflects path base (taken ++ [op]) [op] .stringSet := by
  have effect (held : Option Operation) : op.effect held = mapHeld (fun _ => []) held := by
    unfold Operation.effect
    rw [clear]
  by_cases held : HoldsStrings base
  · -- a set is emptied, whatever was done to it before
    refine .inl ?_
    obtain ⟨path', vs, rfl⟩ := held.eq
    obtain ⟨vs', set⟩ := heldAfter_edits_of_holds path' vs edits
    rw [heldAfter_concat, set, effect, heldAfter_cons, effect]
    rfl
  · have left : heldAfter base [op] = base := (effect base).trans (mapHeld_of_not_holds _ held)
    rcases heldAfter_edits held edits here with
      same | ⟨vs, before, made, between, added, set, rfl, adds, unset⟩
    · refine .inl ?_
      rw [heldAfter_concat, same]
      rfl
    · refine .inr ⟨clearsOwn_concat ?_ ?_, held, left, ?_⟩
      · rw [unset, adds, clear]
        exact .strings added held
      · intro op' mem delete
        have edit := edits op' (List.mem_append_right _ (List.mem_cons_of_mem _ mem))
        rw [delete] at edit
        cases edit
      · rw [heldAfter_concat, set, effect]
        rfl

/-- A clear stands for all pending changes of an artifact, and is not kept itself. -/
theorem reflects_clearArtifact (on : ∀ op ∈ taken, op.On .artifact) (clear : op.mutation = .clearArtifact) :
    Reflects path base (taken ++ [op]) [op] .artifact := by
  have idle : op.IsIdle := by
    intro held
    unfold Operation.effect
    rw [clear]
  have left : heldAfter base [op] = base := idle base
  by_cases made : ∃ made ∈ taken, ∃ hash, made.mutation = .assign (.artifact hash)
  · obtain ⟨made, mem, hash, assigns⟩ := made
    obtain ⟨before, between, rfl⟩ := List.append_of_mem mem
    refine .inr ⟨clearsOwn_concat ?_ ?_, left⟩
    · rw [assigns, clear]
      exact .artifact hash
    · exact fun op' mem => (on op' (List.mem_append_right _ (List.mem_cons_of_mem _ mem))).ne_delete
  · refine .inl ?_
    have unchanged : heldAfter base taken = base := by
      refine heldAfter_idle (fun op' mem => ?_) base
      rcases (on op' mem).artifact with ⟨hash, assigns⟩ | idle
      · exact absurd ⟨op', mem, hash, assigns⟩ made
      · exact idle
    rw [heldAfter_concat, unchanged]
    rfl

/-- Files that are tracked are not kept, and join the pending changes. -/
theorem Reflects.track (h : Reflects path base taken changes .artifact) (idle : op.IsIdle)
    (leaves : ¬ op.mutation.Settles) {changes' : List Operation}
    (same : heldAfter base changes' = heldAfter base changes) :
    Reflects path base (taken ++ [op]) changes' .artifact := by
  rcases h with agree | ⟨clears, left⟩
  · refine .inl ?_
    rw [heldAfter_concat, idle, same, agree]
  · exact .inr ⟨clears.concat leaves, same.trans left⟩

/-- **A change is merged neutrally**, but for clears of the batch's own. -/
theorem Reflects.changed {t : DataType} {c : Combination} {changes' : List Operation}
    (h : Reflects path base taken changes t) (on : ∀ op ∈ taken, op.On t)
    (on' : ∀ op ∈ changes', op.On t) (here : ∀ op ∈ taken, op.path = path) (place : op.path = path)
    (role : op.mutation.role = .change t c) (combined : Pending.Combined changes op c changes') :
    Reflects path base (taken ++ [op]) changes' t := by
  have new : op.On t := .inl ⟨c, role⟩
  have all : ∀ op' ∈ taken ++ [op], op'.On t := by
    intro op' mem
    rcases List.mem_append.1 mem with old | last
    · exact on op' old
    · exact List.mem_singleton.1 last ▸ new
  have unkept (unkept : t.isKept = false) : Reflects path base (taken ++ [op]) changes' t :=
    reflects_unkept unkept all on'
  obtain ⟨path', m⟩ := op
  cases m with
  | assign v =>
    cases role
    cases combined with
    | replaces =>
      apply reflects_of_same
      rw [heldAfter_concat]
      rfl
  | addStrings vs | removeStrings vs =>
    cases role
    cases combined with
    | follows => exact h.edit new.editsStrings nofun place
  | clearStringSet =>
    cases role
    cases combined with
    | clears => exact reflects_clearStrings (fun op' mem => (on op' mem).editsStrings) here rfl
  | clearArtifact =>
    cases role
    cases combined with
    | clears => exact reflects_clearArtifact on rfl
  | trackFiles projectId entries =>
    cases role
    refine h.track (fun _ => rfl) id ?_
    cases combined with
    | startsTrack =>
      rw [heldAfter_append]
      rfl
    | extendsTrack =>
      rw [heldAfter_append, heldAfter_append]
      rfl
  | uploadFile | uploadFileContent | deleteFiles =>
    cases role
    exact unkept rfl
  | uploadFileSet globs reset => cases reset <;> (cases role; exact unkept rfl)
  | log ps => cases ps <;> (cases role; exact unkept rfl)
  | clearLog k => cases k <;> (cases role; exact unkept rfl)
  | configFloatSeries | delete | copy => cases role

end Outbox
