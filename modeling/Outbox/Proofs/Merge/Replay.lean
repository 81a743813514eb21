import Outbox.Proofs.Merge.Shape

/-!
# Merging preserves meaning

An operation has an effect on its attribute, and operations in turn have the effects one after the
other. Whatever the attribute was before, the merged operations have the effect of those that they
were merged from.

* `Attribute` is the state of an attribute that exists, in parts; `Mutation.applyTo` is the effect of
  a mutation, and `replay` that of operations in turn;
* `Pending.takeAll` merges operations in turn and gives those of them that were accepted;
* `replay_visit` says what one operation does to the effect of everything pending, and
  `replay_takeAll` draws it out to any number of operations.
-/

namespace Outbox

/-! ## Attributes -/

/-- What an attribute was set to by an assignment or an upload. -/
inductive Content where
  | scalar (v : Scalar)
  | file (ext filePath : String) (cleanAfterUpload : Bool)
  | text (ext content : String)
deriving DecidableEq

/-- A change of a set of strings. -/
inductive SetEdit where
  | add (vs : List String)
  | remove (vs : List String)
deriving DecidableEq

/-- A change of a set of files. -/
inductive FileEdit where
  | upload (globs : List String)
  | delete (filePaths : List String)
deriving DecidableEq

/-- The settings of a series. -/
structure SeriesConfig where
  min : Option Binary64
  max : Option Binary64
  unit : Option String
deriving DecidableEq

/-- An attribute that exists. It has the parts of all types, so that an operation has an effect on
any state. Of the sets, the state before is not known, and they are kept as what was done to them. -/
structure Attribute where
  value : Option Content
  floats : List (Point Binary64)
  strings : List (Point String)
  images : List (Point Image)
  config : Option SeriesConfig
  set : List SetEdit
  files : List FileEdit
  /-- The hash of an artifact's manifest. -/
  hash : Option String
  /-- The files of an artifact. -/
  entries : List TrackedFile
deriving DecidableEq

namespace Attribute

/-- An attribute that just came into being. -/
def empty : Attribute :=
  ⟨none, [], [], [], none, [], [], none, []⟩

/-- The attribute with points behind those of their series. -/
def log (a : Attribute) : Points → Attribute
  | .floats ps => { a with floats := a.floats ++ ps }
  | .strings ps => { a with strings := a.strings ++ ps }
  | .images ps => { a with images := a.images ++ ps }

/-- The attribute with no points in a series. -/
def clearLog (a : Attribute) : SeriesKind → Attribute
  | .float => { a with floats := [] }
  | .string => { a with strings := [] }
  | .image => { a with images := [] }

/-- The attribute after a mutation that leaves it in existence. -/
def change (a : Attribute) : Mutation → Attribute
  | .assign (.artifact hash) => { a with hash := some hash, entries := [] }
  | .assign v => { a with value := some (.scalar v) }
  | .uploadFile ext filePath clean => { a with value := some (.file ext filePath clean) }
  | .uploadFileContent ext content => { a with value := some (.text ext content) }
  | .uploadFileSet globs true => { a with files := [.upload globs] }
  | .uploadFileSet globs false => { a with files := a.files ++ [.upload globs] }
  | .deleteFiles filePaths => { a with files := a.files ++ [.delete filePaths] }
  | .log ps => a.log ps
  | .clearLog k => a.clearLog k
  | .configFloatSeries min max unit => { a with config := some ⟨min, max, unit⟩ }
  | .addStrings vs => { a with set := a.set ++ [.add vs] }
  | .removeStrings vs => { a with set := a.set ++ [.remove vs] }
  | .clearStringSet => { a with set := [] }
  | .trackFiles _ entries => { a with entries := a.entries ++ entries }
  | .clearArtifact => { a with hash := none, entries := [] }
  | .delete | .copy _ => a

end Attribute

/-- The effect of a mutation on an attribute, which need not exist. A copy stands for another
mutation and has no effect itself. -/
def Mutation.applyTo (m : Mutation) (s : Option Attribute) : Option Attribute :=
  match m with
  | .delete => none
  | .copy _ => s
  | m => some ((s.getD .empty).change m)

/-- The effect of operations in turn. -/
def replay (s : Option Attribute) (ops : List Operation) : Option Attribute :=
  ops.foldl (fun s op => op.mutation.applyTo s) s

@[simp] theorem replay_nil (s : Option Attribute) : replay s [] = s := rfl

@[simp] theorem replay_cons (s : Option Attribute) (op : Operation) (ops : List Operation) :
    replay s (op :: ops) = replay (op.mutation.applyTo s) ops := rfl

theorem replay_append (s : Option Attribute) (ops ops' : List Operation) :
    replay s (ops ++ ops') = replay (replay s ops) ops' :=
  List.foldl_append

/-! ## Laws of effects -/

/-- Mutations that neither delete nor copy leave the attribute in existence. -/
theorem Mutation.applyTo_of_exists {m : Mutation}
    (h : (∃ t c, m.role = .change t c) ∨ ∃ t, m.role = .configure t) (s : Option Attribute) :
    m.applyTo s = some ((s.getD .empty).change m) := by
  cases m with
  | delete => simp [role] at h
  | copy source => simp [role] at h
  | _ => rfl

/-- The attribute with the part that operations on a type change taken from another one. -/
def Attribute.withPart (a b : Attribute) : DataType → Attribute
  | .floatSeries => { a with floats := b.floats }
  | .stringSeries => { a with strings := b.strings }
  | .imageSeries => { a with images := b.images }
  | .stringSet => { a with set := b.set }
  | .fileSet => { a with files := b.files }
  | .artifact => { a with hash := b.hash, entries := b.entries }
  | _ => { a with value := b.value }

/-- A change of a type changes the part of that type only. -/
theorem Attribute.change_withPart {m : Mutation} {t : DataType} {c : Combination}
    (h : m.role = .change t c) (a : Attribute) : a.withPart (a.change m) t = a.change m := by
  cases m with
  | assign v => cases v <;> (cases h; rfl)
  | uploadFileSet globs reset => cases reset <;> (cases h; rfl)
  | log ps => cases ps <;> (cases h; rfl)
  | clearLog k => cases k <;> (cases h; rfl)
  | _ => cases h <;> rfl

/-- A change that overwrites does not depend on the part of its type. -/
theorem Attribute.withPart_change {m : Mutation} {t : DataType} {c : Combination}
    (h : m.role = .change t c) (hc : c = .replace ∨ c = .clear) (a b : Attribute) :
    (a.withPart b t).change m = a.change m := by
  cases m with
  | assign v => cases v <;> (cases h; rfl)
  | uploadFileSet globs reset => cases reset <;> cases h <;> first | rfl | simp at hc
  | clearLog k => cases k <;> (cases h; rfl)
  | _ => cases h <;> first | rfl | simp at hc

/-- A change that overwrites has the same effect without an earlier change of its type. -/
theorem Attribute.change_absorbs {m m' : Mutation} {t : DataType} {c c' : Combination}
    (h : m.role = .change t c) (h' : m'.role = .change t c') (hc : c' = .replace ∨ c' = .clear)
    (a : Attribute) : (a.change m).change m' = a.change m' := by
  rw [← change_withPart h a, withPart_change h' hc]

/-- A configuration has the same effect without an earlier one. -/
theorem Attribute.configure_absorbs {m m' : Mutation} {t t' : DataType}
    (h : m.role = .configure t) (h' : m'.role = .configure t') (a : Attribute) :
    (a.change m).change m' = a.change m' := by
  obtain ⟨⟨min, max, unit, rfl⟩, -⟩ := Mutation.role_configure h
  obtain ⟨⟨min', max', unit', rfl⟩, -⟩ := Mutation.role_configure h'
  rfl

/-- A configuration can be made before or after a change. -/
theorem Attribute.change_configure {m m' : Mutation} {t t' : DataType} {c : Combination}
    (h : m.role = .change t c) (h' : m'.role = .configure t') (a : Attribute) :
    (a.change m).change m' = (a.change m').change m := by
  obtain ⟨⟨min, max, unit, rfl⟩, -⟩ := Mutation.role_configure h'
  cases m with
  | assign v => cases v <;> rfl
  | uploadFileSet globs reset => cases reset <;> rfl
  | log ps => cases ps <;> rfl
  | clearLog k => cases k <;> rfl
  | delete => simp [Mutation.role] at h
  | copy source => simp [Mutation.role] at h
  | configFloatSeries => simp [Mutation.role] at h
  | _ => rfl

/-- Points put together have the effect of the two lists in turn. -/
theorem Attribute.log_append {ps qs all : Points} (h : ps.append? qs = some all) (a : Attribute) :
    (a.log ps).log qs = a.log all := by
  cases ps <;> cases qs <;> simp only [Points.append?, Option.some.injEq, reduceCtorEq] at h <;>
    subst h <;> simp [log]

/-! ## Effects of pending operations -/

/-- The effect of an operation that overwrites does not depend on changes of its type before it. -/
theorem replay_absorbs {changes : List Operation} {op : Operation} {t : DataType}
    {c : Combination} (typed : ∀ op' ∈ changes, ∃ c', op'.mutation.role = .change t c')
    (hr : op.mutation.role = .change t c) (hc : c = .replace ∨ c = .clear)
    (s : Option Attribute) : op.mutation.applyTo (replay s changes) = op.mutation.applyTo s := by
  induction changes generalizing s with
  | nil => rfl
  | cons op' rest ih =>
    obtain ⟨c', hr'⟩ := typed op' (by simp)
    rw [replay_cons, ih (fun o mem => typed o (by simp [mem])),
      Mutation.applyTo_of_exists (.inl ⟨t, c, hr⟩), Mutation.applyTo_of_exists (.inl ⟨t, c, hr⟩),
      Mutation.applyTo_of_exists (.inl ⟨t, c', hr'⟩), Option.getD_some,
      Attribute.change_absorbs hr' hr hc]

/-- A configuration overwrites those before it. -/
theorem replay_configs_absorb {configs : List Operation} {op : Operation} {t : DataType}
    (configured : ∀ op' ∈ configs, ∃ t', op'.mutation.role = .configure t')
    (hr : op.mutation.role = .configure t) (s : Option Attribute) :
    op.mutation.applyTo (replay s configs) = op.mutation.applyTo s := by
  induction configs generalizing s with
  | nil => rfl
  | cons op' rest ih =>
    obtain ⟨t', hr'⟩ := configured op' (by simp)
    rw [replay_cons, ih (fun o mem => configured o (by simp [mem])),
      Mutation.applyTo_of_exists (.inr ⟨t, hr⟩), Mutation.applyTo_of_exists (.inr ⟨t, hr⟩),
      Mutation.applyTo_of_exists (.inr ⟨t', hr'⟩), Option.getD_some,
      Attribute.configure_absorbs hr' hr]

/-- Configurations have the same effect before and after a change. -/
theorem replay_configs_comm {configs : List Operation} {op : Operation} {t : DataType}
    {c : Combination} (configured : ∀ op' ∈ configs, ∃ t', op'.mutation.role = .configure t')
    (hr : op.mutation.role = .change t c) (s : Option Attribute) :
    replay (op.mutation.applyTo s) configs = op.mutation.applyTo (replay s configs) := by
  induction configs generalizing s with
  | nil => rfl
  | cons op' rest ih =>
    obtain ⟨t', hr'⟩ := configured op' (by simp)
    have swap : op'.mutation.applyTo (op.mutation.applyTo s) =
        op.mutation.applyTo (op'.mutation.applyTo s) := by
      rw [Mutation.applyTo_of_exists (.inl ⟨t, c, hr⟩), Mutation.applyTo_of_exists (.inr ⟨t', hr'⟩),
        Mutation.applyTo_of_exists (.inl ⟨t, c, hr⟩), Mutation.applyTo_of_exists (.inr ⟨t', hr'⟩),
        Option.getD_some, Option.getD_some, Attribute.change_configure hr hr']
    rw [replay_cons, replay_cons, swap, ih (fun o mem => configured o (by simp [mem]))]

/-- A deletion leaves nothing, whatever is sent before it. -/
theorem replay_deletion {deletes : List Operation} (h : Deletion deletes) (pending : deletes ≠ [])
    (s : Option Attribute) : replay s deletes = none := by
  cases h with
  | none => exact absurd rfl pending
  | alone deletes => simp [deletes, Mutation.applyTo]
  | behind _ deletes => simp [deletes, Mutation.applyTo]

namespace Pending

/-- A change that was combined with others has its effect behind theirs. -/
theorem replay_combined {changes changes' : List Operation} {op : Operation} {t : DataType}
    {c : Combination} (hc : Combined changes op c changes')
    (hr : op.mutation.role = .change t c)
    (typed : ∀ op' ∈ changes, ∃ c', op'.mutation.role = .change t c') (s : Option Attribute) :
    replay s changes' = op.mutation.applyTo (replay s changes) := by
  cases hc with
  | replaces => exact (replay_absorbs typed hr (.inl rfl) s).symm
  | clears => exact (replay_absorbs typed hr (.inr rfl) s).symm
  | follows | startsLog | startsTrack => rw [replay_append, replay_cons, replay_nil]
  | extendsLog _ _ together =>
    obtain ⟨hm, -⟩ := Mutation.role_log hr
    simp only [replay_append, replay_cons, replay_nil, hm, Mutation.applyTo, Attribute.change,
      Option.getD_some, Attribute.log_append together]
  | extendsTrack =>
    obtain ⟨⟨projectId, hm⟩, -⟩ := Mutation.role_track hr
    simp only [replay_append, replay_cons, replay_nil, hm, Mutation.applyTo, Attribute.change,
      Option.getD_some, List.append_assoc]

/-- **One operation has its effect behind everything pending** if it is accepted. -/
theorem replay_visit {p p' : Pending} (h : p.Sound) {op : Operation}
    (hv : p.visit op = (p', .ok .accepted)) (s : Option Attribute) :
    replay s p'.operations = op.mutation.applyTo (replay s p.operations) := by
  have configured : ∀ op' ∈ p.configs, ∃ t, op'.mutation.role = .configure t := by
    intro op' mem
    obtain ⟨t, -, hr⟩ := h.configured op' mem
    exact ⟨t, hr⟩
  cases visited h hv with
  | @changed t c changes hr fits _ combined =>
    have typed : ∀ op' ∈ p.changes, ∃ c', op'.mutation.role = .change t c' := by
      intro op' mem
      obtain ⟨t', c', ht, hr'⟩ := (h.setType fits).typed op' mem
      rw [Pending.setType, Option.some.injEq] at ht
      exact ⟨c', ht ▸ hr'⟩
    simp only [operations, replay_append]
    rw [replay_combined combined hr typed, replay_configs_comm configured hr]
  | configured hr =>
    simp only [operations, replay_append, replay_cons, replay_nil]
    rw [replay_configs_absorb configured hr]
  | deleted hr =>
    have hm := Mutation.role_delete hr
    have pending : p.deletesAfter op ≠ [] := by
      unfold deletesAfter
      split <;> simp_all
    simp only [operations, List.append_nil]
    rw [replay_deletion (h.deletion_after hm) pending, hm]
    rfl

/-- An operation that is not accepted leaves the pending ones as they are. -/
theorem operations_visit {p p' : Pending} (h : p.Sound) {op : Operation}
    {v : Except MergeError Visit} (hv : p.visit op = (p', v)) (refused : v ≠ .ok .accepted) :
    p'.operations = p.operations := by
  cases visited h hv with
  | copy | rejected | waits => rfl
  | changed | configured | deleted => exact absurd rfl refused

/-! ## Runs -/

/-- Takes operations in turn, going on whatever becomes of them. Gives what is pending in the end,
and the operations that were accepted. -/
def takeAll (p : Pending) : List Operation → Pending × List Operation
  | [] => (p, [])
  | op :: ops =>
    match p.visit op with
    | (p', .ok .accepted) => ((p'.takeAll ops).1, op :: (p'.takeAll ops).2)
    | (p', _) => p'.takeAll ops

theorem takeAll_accepted {p p' : Pending} {op : Operation} (hv : p.visit op = (p', .ok .accepted))
    (ops : List Operation) :
    p.takeAll (op :: ops) = ((p'.takeAll ops).1, op :: (p'.takeAll ops).2) := by
  rw [takeAll, hv]

theorem takeAll_refused {p p' : Pending} {op : Operation} {v : Except MergeError Visit}
    (hv : p.visit op = (p', v)) (refused : v ≠ .ok .accepted) (ops : List Operation) :
    p.takeAll (op :: ops) = p'.takeAll ops := by
  rw [takeAll, hv]
  split
  · next same =>
    rw [Prod.mk.injEq] at same
    exact absurd same.2 refused
  · next same =>
    rw [Prod.mk.injEq] at same
    rw [same.1]

/-- **What is kept by every visit** of an attribute, with the operations accepted so far, holds after all
operations of it. -/
theorem takeAll_keeps {P : Pending → List Operation → Prop} {path : AttributePath}
    (step : ∀ {p p' : Pending} {op : Operation} {v : Except MergeError Visit} {taken : List Operation},
      p.Sound → op.path = path → P p taken → p.visit op = (p', v) →
      (v = .ok .accepted → P p' (taken ++ [op])) ∧ (v ≠ .ok .accepted → P p' taken))
    {p : Pending} (sound : p.Sound) {ops taken : List Operation} (here : ∀ op ∈ ops, op.path = path)
    (start : P p taken) : P (p.takeAll ops).1 (taken ++ (p.takeAll ops).2) := by
  induction ops generalizing p taken with
  | nil => rwa [takeAll, List.append_nil]
  | cons op ops ih =>
    rcases hv : p.visit op with ⟨p', v⟩
    obtain ⟨joins, refused⟩ := step sound (here op List.mem_cons_self) start hv
    have sound' := sound_visit sound hv
    have later : ∀ op ∈ ops, op.path = path := fun op' member => here op' (List.mem_cons_of_mem _ member)
    by_cases accepted : v = .ok .accepted
    · have rest := ih sound' later (joins accepted)
      subst accepted
      rw [takeAll_accepted hv]
      rwa [List.append_assoc] at rest
    · rw [takeAll_refused hv accepted]
      exact ih sound' later (refused accepted)

theorem takeAll_sublist (p : Pending) (ops : List Operation) : (p.takeAll ops).2.Sublist ops := by
  induction ops generalizing p with
  | nil => exact .slnil
  | cons op ops ih =>
    rcases hv : p.visit op with ⟨p', v⟩
    by_cases accepted : v = .ok .accepted
    · subst accepted
      rw [takeAll_accepted hv]
      exact (ih p').cons_cons op
    · rw [takeAll_refused hv accepted]
      exact (ih p').cons op

/-- Merging goes on from any sound state: the operations accepted have their effects behind
everything that was pending. -/
theorem replay_takeAll_from {p : Pending} (h : p.Sound) (ops : List Operation)
    (s : Option Attribute) :
    replay s (p.takeAll ops).1.operations = replay (replay s p.operations) (p.takeAll ops).2 := by
  induction ops generalizing p with
  | nil => rfl
  | cons op ops ih =>
    rcases hv : p.visit op with ⟨p', v⟩
    have sound := sound_visit h hv
    by_cases accepted : v = .ok .accepted
    · subst accepted
      rw [takeAll_accepted hv, ih sound, replay_visit h hv]
      rfl
    · rw [takeAll_refused hv accepted, ih sound, operations_visit h hv accepted]

/-- **Merging preserves meaning.** From every state of an attribute, the merged operations lead to
the state to which the accepted ones lead in their order. -/
theorem replay_takeAll (ops : List Operation) (s : Option Attribute) :
    replay s (empty.takeAll ops).1.operations = replay s (empty.takeAll ops).2 :=
  replay_takeAll_from sound_empty ops s

end Pending

end Outbox
