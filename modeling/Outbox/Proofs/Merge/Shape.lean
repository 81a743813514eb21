import Outbox.Merge.Pending

/-!
# The shape of pending changes

What is pending on one attribute has few shapes. All changes since the last deletion imply the type
of the attribute, those of a series are at most a clear and a log behind it, and a deletion is pending
alone or behind one other operation.

* `Pending.Sound` is this invariant, with a field for each part of it;
* `Pending.sound_visit` says that every operation keeps it, whatever becomes of the operation;
* `Pending.visit_error` draws the consequence that only a copy cannot be merged: the two other
  errors of merging stand for shapes that never occur.
-/

namespace Outbox

/-! ## Roles -/

/-- The changes of a series are logs of its kind and its clear. -/
theorem Mutation.role_series {m : Mutation} {k : SeriesKind} {c : Combination}
    (h : m.role = .change k.dataType c) :
    (∃ ps, m = .log ps ∧ ps.kind = k ∧ c = .log ps) ∨ (m = .clearLog k ∧ c = .clear) := by
  have same_kind : ∀ k' : SeriesKind, k'.dataType = k.dataType → k' = k := by
    intro k' hk
    cases k' <;> cases k <;> simp_all [SeriesKind.dataType]
  have not_scalar : ∀ v : Scalar, v.dataType ≠ k.dataType := by
    intro v hv
    cases v <;> cases k <;> simp [Scalar.dataType, SeriesKind.dataType] at hv
  cases m with
  | log ps =>
    simp only [role, Role.change.injEq] at h
    exact .inl ⟨ps, rfl, same_kind _ h.1, h.2.symm⟩
  | clearLog k' =>
    simp only [role, Role.change.injEq] at h
    exact .inr ⟨by rw [same_kind _ h.1], h.2.symm⟩
  | assign v =>
    simp only [role, Role.change.injEq] at h
    exact absurd h.1 (not_scalar v)
  | uploadFileSet globs reset => cases reset <;> cases k <;> simp [role, SeriesKind.dataType] at h
  | _ => cases k <;> simp [role, SeriesKind.dataType] at h

/-- Only logs have the combination of a log, and theirs is the one of their points. -/
theorem Mutation.role_log {m : Mutation} {t : DataType} {ps : Points}
    (h : m.role = .change t (.log ps)) : m = .log ps ∧ t = ps.kind.dataType := by
  cases m with
  | log qs =>
    simp only [role, Role.change.injEq, Combination.log.injEq] at h
    exact ⟨by rw [h.2], by rw [← h.1, h.2]⟩
  | uploadFileSet globs reset => cases reset <;> simp [role] at h
  | _ => simp [role] at h

theorem Mutation.role_track {m : Mutation} {t : DataType} {entries : List TrackedFile}
    (h : m.role = .change t (.track entries)) :
    (∃ projectId, m = .trackFiles projectId entries) ∧ t = .artifact := by
  cases m with
  | trackFiles projectId es =>
    simp only [role, Role.change.injEq, Combination.track.injEq] at h
    exact ⟨⟨projectId, by rw [h.2]⟩, h.1.symm⟩
  | uploadFileSet globs reset => cases reset <;> simp [role] at h
  | _ => simp [role] at h

/-- Only series are configured, those of floating-point numbers. -/
theorem Mutation.role_configure {m : Mutation} {t : DataType} (h : m.role = .configure t) :
    (∃ min max unit, m = .configFloatSeries min max unit) ∧ t = .floatSeries := by
  cases m with
  | configFloatSeries min max unit =>
    simp only [role, Role.configure.injEq] at h
    exact ⟨⟨min, max, unit, rfl⟩, h.symm⟩
  | uploadFileSet globs reset => cases reset <;> simp [role] at h
  | _ => simp [role] at h

theorem Mutation.role_delete {m : Mutation} (h : m.role = .delete) : m = .delete := by
  cases m with
  | delete => rfl
  | uploadFileSet globs reset => cases reset <;> simp [role] at h
  | _ => simp [role] at h

theorem Operation.isCopy_iff_role {op : Operation} : op.isCopy = true ↔ op.mutation.role = .copy := by
  obtain ⟨path, m⟩ := op
  cases m with
  | uploadFileSet globs reset => cases reset <;> simp [isCopy, Mutation.role]
  | _ => simp [isCopy, Mutation.role]

/-! ## The invariant -/

/-- The shapes of a pending deletion: none, alone, or behind the one operation that makes the
attribute exist. -/
inductive Deletion : List Operation → Prop
  | none : Deletion []
  | alone {op : Operation} : op.mutation = .delete → Deletion [op]
  | behind {first op : Operation} : first.mutation ≠ .delete → op.mutation = .delete →
      Deletion [first, op]

namespace Pending

/-- What holds of the pending changes of an attribute at all times. -/
structure Sound (p : Pending) : Prop where
  /-- The changes since the last deletion imply the type of the attribute. -/
  typed : ∀ op ∈ p.changes, ∃ t c, p.dataType = some t ∧ op.mutation.role = .change t c
  configured : ∀ op ∈ p.configs, ∃ t, p.dataType = some t ∧ op.mutation.role = .configure t
  /-- A series is changed by one operation, or by one and a log behind it. -/
  series : ∀ k : SeriesKind, p.dataType = some k.dataType →
    p.changes.length ≤ 1 ∨ ∃ first path ps, p.changes = [first, ⟨path, .log ps⟩]
  deletion : Deletion p.deletes

theorem sound_empty : empty.Sound :=
  ⟨by simp [empty], by simp [empty], by simp [empty], .none⟩

/-- Without a type nothing is pending but a deletion. -/
theorem Sound.nothing {p : Pending} (h : p.Sound) (untyped : p.dataType = none) :
    p.changes = [] ∧ p.configs = [] := by
  constructor
  · apply List.eq_nil_iff_forall_not_mem.2
    intro op mem
    obtain ⟨t, c, ht, -⟩ := h.typed op mem
    rw [untyped] at ht
    cases ht
  · apply List.eq_nil_iff_forall_not_mem.2
    intro op mem
    obtain ⟨t, ht, -⟩ := h.configured op mem
    rw [untyped] at ht
    cases ht

/-! ## Combining -/

/-- What becomes of pending changes when a change is combined with them: it overwrites them, follows
them, or is joined with the last of them. -/
inductive Combined : List Operation → Operation → Combination → List Operation → Prop
  | replaces {changes : List Operation} {op : Operation} : Combined changes op .replace [op]
  | clears {changes : List Operation} {op : Operation} : Combined changes op .clear [op]
  | follows {changes : List Operation} {op : Operation} : Combined changes op .append (changes ++ [op])
  | startsLog (changes : List Operation) {op : Operation} {ps : Points} : changes.length ≤ 1 →
      Combined changes op (.log ps) (changes ++ [op])
  | extendsLog (before : List Operation) {path : AttributePath} {op : Operation}
      {qs ps all : Points} : before.length ≤ 1 → qs.append? ps = some all →
      Combined (before ++ [⟨path, .log qs⟩]) op (.log ps) (before ++ [⟨path, .log all⟩])
  | startsTrack (changes : List Operation) {op : Operation} {entries : List TrackedFile} :
      Combined changes op (.track entries) (changes ++ [op])
  | extendsTrack (before : List Operation) {path : AttributePath} {op : Operation}
      {projectId : String} {existing entries : List TrackedFile} :
      Combined (before ++ [⟨path, .trackFiles projectId existing⟩]) op (.track entries)
        (before ++ [⟨path, .trackFiles projectId (existing ++ entries)⟩])

/-- A change after another one was combined with the rest is one of them, or was joined with the new
one, which only logs and tracked files are. -/
theorem Combined.mem {changes changes' : List Operation} {op op' : Operation} {c : Combination}
    (h : Combined changes op c changes') (member : op' ∈ changes') :
    op' ∈ changes ∨ op' = op ∨ ∃ old ∈ changes, old.path = op'.path ∧
      old.isUpload = op'.isUpload ∧ old.isTrack = op'.isTrack ∧ op'.isUpload = false := by
  cases h with
  | replaces | clears => exact .inr (.inl (List.mem_singleton.1 member))
  | follows | startsLog | startsTrack =>
    rcases List.mem_append.1 member with old | new
    · exact .inl old
    · exact .inr (.inl (List.mem_singleton.1 new))
  | extendsLog before | extendsTrack before =>
    rcases List.mem_append.1 member with old | new
    · exact .inl (List.mem_append_left _ old)
    · rw [List.mem_singleton.1 new]
      exact .inr (.inr ⟨_, List.mem_append_right before List.mem_cons_self, rfl, rfl, rfl, rfl⟩)

/-- Points of one kind can be put together. -/
theorem append?_of_kind {ps qs : Points} (h : ps.kind = qs.kind) :
    ∃ all, ps.append? qs = some all ∧ all.kind = qs.kind := by
  cases ps <;> cases qs <;> simp_all [Points.append?, Points.kind]

/-- Tracked files follow the changes or join the last of them. -/
theorem combined_withTrack (changes : List Operation) (op : Operation)
    (entries : List TrackedFile) :
    Combined changes op (.track entries) (withTrack changes op entries) := by
  fun_induction withTrack changes op entries with
  | case1 => exact .startsTrack []
  | case2 path projectId existing => exact .extendsTrack []
  | case3 change rest nonempty ih =>
    generalize withTrack rest op entries = tracked at ih
    cases ih with
    | startsTrack => exact .startsTrack (change :: rest)
    | extendsTrack before => exact .extendsTrack (change :: before)

/-- A pending change of a series is joined with a log of that series if it is a log itself. -/
theorem extendLog_of_role {last : Operation} (op : Operation) {ps : Points} {c : Combination}
    (hlast : last.mutation.role = .change ps.kind.dataType c) (hlog : last.isLog = true) :
    ∃ qs all, last = ⟨last.path, .log qs⟩ ∧ qs.append? ps = some all ∧
      last.extendLog op ps = .ok ⟨last.path, .log all⟩ := by
  obtain ⟨path, m⟩ := last
  obtain ⟨qs, rfl, kind, -⟩ | ⟨rfl, -⟩ := Mutation.role_series hlast
  · obtain ⟨all, together, -⟩ := append?_of_kind kind
    exact ⟨qs, all, rfl, together, by simp [Operation.extendLog, together]⟩
  · simp [Operation.isLog] at hlog

/-- A log can always be combined with the pending changes of its series. -/
theorem combined_withLog {p : Pending} (h : p.Sound) (op : Operation) {ps : Points}
    (ht : p.dataType = some ps.kind.dataType) :
    ∃ changes, withLog p.changes op ps = .ok changes ∧
      Combined p.changes op (.log ps) changes := by
  have role : ∀ change ∈ p.changes, ∃ c, change.mutation.role = .change ps.kind.dataType c := by
    intro change mem
    obtain ⟨t, c, htype, hrole⟩ := h.typed change mem
    rw [ht, Option.some.injEq] at htype
    exact ⟨c, htype ▸ hrole⟩
  have shape := h.series ps.kind ht
  match hc : p.changes with
  | [] => exact ⟨[op], rfl, .startsLog [] (by simp)⟩
  | [only] =>
    cases hlog : only.isLog with
    | false => exact ⟨[only, op], by simp [withLog, hlog], .startsLog [only] (by simp)⟩
    | true =>
      obtain ⟨c, hrole⟩ := role only (by simp [hc])
      obtain ⟨qs, all, eq, together, joined⟩ := extendLog_of_role op hrole hlog
      refine ⟨[⟨only.path, .log all⟩], by simp [withLog, hlog, joined, Except.map], ?_⟩
      rw [eq]
      exact .extendsLog [] (by simp) together
  | [first, last] =>
    have hlog : last.isLog = true := by
      obtain short | ⟨first', path, ps', eq⟩ := shape
      · simp [hc] at short
      · rw [hc, List.cons.injEq, List.cons.injEq] at eq
        rw [eq.2.1]
        rfl
    obtain ⟨c, hrole⟩ := role last (by simp [hc])
    obtain ⟨qs, all, eq, together, joined⟩ := extendLog_of_role op hrole hlog
    refine ⟨[first, ⟨last.path, .log all⟩], by simp [withLog, hlog, joined, Except.map], ?_⟩
    rw [eq]
    exact .extendsLog [first] (by simp) together
  | first :: second :: third :: rest =>
    obtain short | ⟨first', path, ps', eq⟩ := shape
    · simp [hc] at short
    · simp [hc] at eq

/-- The number of pending points after a change was combined with the others. -/
def pointsAfter (p : Pending) : Combination → Nat
  | .log ps => p.points + ps.length
  | .clear => p.points - totalPoints p.changes
  | _ => p.points

/-- Combining a change of the type that the attribute has cannot fail, and touches only the changes
and the count of points. -/
theorem combine_spec {p : Pending} (h : p.Sound) {op : Operation} {t : DataType} {c : Combination}
    (ht : p.dataType = some t) (hr : op.mutation.role = .change t c) :
    ∃ changes, p.combine op c = ({ p with changes, points := p.pointsAfter c }, .ok .accepted) ∧
      Combined p.changes op c changes := by
  cases c with
  | replace => exact ⟨[op], rfl, .replaces⟩
  | append => exact ⟨p.changes ++ [op], rfl, .follows⟩
  | clear => exact ⟨[op], rfl, .clears⟩
  | track entries => exact ⟨_, rfl, combined_withTrack _ _ _⟩
  | log ps =>
    obtain ⟨-, rfl⟩ := Mutation.role_log hr
    obtain ⟨changes, eq, combined⟩ := combined_withLog h op ht
    exact ⟨changes, by simp [combine, eq, pointsAfter], combined⟩

/-! ## Preservation -/

theorem Sound.setType {p : Pending} (h : p.Sound) {t : DataType} (fits : p.conflicts t = false) :
    (p.setType t).Sound := by
  have same : p.dataType = none ∨ p.dataType = some t := by
    cases hd : p.dataType with
    | none => exact .inl rfl
    | some t' => simpa [conflicts, hd] using fits
  obtain untyped | typed := same
  · obtain ⟨noChanges, noConfigs⟩ := h.nothing untyped
    exact ⟨by simp [Pending.setType, noChanges], by simp [Pending.setType, noConfigs],
      by simp [Pending.setType, noChanges], h.deletion⟩
  · have unchanged : p.setType t = p := by simp [Pending.setType, ← typed]
    rwa [unchanged]

/-- The changes that a combination leaves still imply the type. -/
theorem role_of_combined {changes changes' : List Operation} {op : Operation} {t : DataType}
    {c : Combination} (hc : Combined changes op c changes')
    (hr : op.mutation.role = .change t c)
    (typed : ∀ op' ∈ changes, ∃ c', op'.mutation.role = .change t c') :
    ∀ op' ∈ changes', ∃ c', op'.mutation.role = .change t c' := by
  have both : ∀ op' ∈ changes ++ [op], ∃ c', op'.mutation.role = .change t c' := by
    intro op' mem
    rcases List.mem_append.1 mem with old | new
    · exact typed op' old
    · exact ⟨c, by rw [List.mem_singleton.1 new, hr]⟩
  cases hc with
  | replaces | clears =>
    intro op' mem
    exact both op' (List.mem_append_right _ mem)
  | follows | startsLog | startsTrack => exact both
  | @extendsLog before path op qs ps all _ together =>
    intro op' mem
    rcases List.mem_append.1 mem with old | new
    · exact typed op' (List.mem_append_left _ old)
    · obtain ⟨-, rfl⟩ := Mutation.role_log hr
      have kind : all.kind = ps.kind := by
        cases qs <;> cases ps <;> simp [Points.append?] at together <;> subst together <;> rfl
      exact ⟨.log all, by rw [List.mem_singleton.1 new, ← kind]; rfl⟩
  | @extendsTrack before path op projectId existing entries =>
    intro op' mem
    rcases List.mem_append.1 mem with old | new
    · exact typed op' (List.mem_append_left _ old)
    · obtain ⟨c', last⟩ := typed ⟨path, .trackFiles projectId existing⟩ (by simp)
      simp only [Mutation.role, Role.change.injEq] at last
      exact ⟨.track (existing ++ entries), by rw [List.mem_singleton.1 new, ← last.1]; rfl⟩

/-- A combination leaves a series at most one change and a log behind it. -/
theorem series_of_combined {changes changes' : List Operation} {op : Operation} {k : SeriesKind}
    {c : Combination} (hc : Combined changes op c changes')
    (hr : op.mutation.role = .change k.dataType c) :
    changes'.length ≤ 1 ∨ ∃ first path ps, changes' = [first, ⟨path, .log ps⟩] := by
  obtain ⟨ps, hm, -, rfl⟩ | ⟨-, rfl⟩ := Mutation.role_series hr
  · obtain ⟨path, m⟩ := op
    subst hm
    cases hc with
    | startsLog _ short =>
      rcases Nat.le_one_iff_eq_zero_or_eq_one.1 short with none | one
      · simp [none]
      · obtain ⟨first, rfl⟩ := List.length_eq_one_iff.1 one
        exact .inr ⟨first, path, ps, rfl⟩
    | @extendsLog before path' _ qs _ all short =>
      rcases Nat.le_one_iff_eq_zero_or_eq_one.1 short with none | one
      · simp [none]
      · obtain ⟨first, rfl⟩ := List.length_eq_one_iff.1 one
        exact .inr ⟨first, path', all, rfl⟩
  · cases hc
    simp

/-- Combining a change of the type that the attribute has keeps the invariant. -/
theorem Sound.combined {p : Pending} (h : p.Sound) {op : Operation} {t : DataType}
    {c : Combination} (ht : p.dataType = some t) (hr : op.mutation.role = .change t c)
    {changes : List Operation} {points : Nat} (hc : Combined p.changes op c changes) :
    ({ p with changes, points } : Pending).Sound where
  typed := by
    have typed : ∀ op' ∈ p.changes, ∃ c', op'.mutation.role = .change t c' := by
      intro op' mem
      obtain ⟨t', c', ht', hr'⟩ := h.typed op' mem
      rw [ht, Option.some.injEq] at ht'
      exact ⟨c', ht' ▸ hr'⟩
    intro op' mem
    obtain ⟨c', hr'⟩ := role_of_combined hc hr typed op' mem
    exact ⟨t, c', ht, hr'⟩
  configured := h.configured
  series := by
    intro k hk
    have : t = k.dataType := by simpa [ht] using hk
    exact series_of_combined hc (this ▸ hr)
  deletion := h.deletion

/-! ## Visits -/

/-- The pending deletion after another one: what is pending first makes the attribute exist. -/
def deletesAfter (p : Pending) (op : Operation) : List Operation :=
  if p.deletes = [] then (p.changes ++ p.configs).take 1 ++ [op] else p.deletes

theorem Sound.delete_eq {p : Pending} (h : p.Sound) (op : Operation) :
    p.delete op = ⟨none, p.deletesAfter op, [], [], p.errors, 0⟩ := by
  unfold delete deletesAfter
  split
  · next untyped noDeletes =>
    obtain ⟨noChanges, noConfigs⟩ := h.nothing untyped
    simp [noChanges, noConfigs, noDeletes]
  · next untyped deletes =>
    obtain ⟨noChanges, noConfigs⟩ := h.nothing untyped
    simp [noChanges, noConfigs, deletes]
  · next noDeletes => simp [noDeletes]
  · next deletes => simp [deletes]

/-- What can become of an operation on an attribute, and what is pending then. -/
inductive Visited (p : Pending) (op : Operation) : Pending → Except MergeError Visit → Prop
  | copy : op.mutation.role = .copy → Visited p op p (.error (.unresolvedCopy op.path))
  | rejected {t : DataType} :
      (∃ c, op.mutation.role = .change t c) ∨ op.mutation.role = .configure t →
      p.conflicts t = true → Visited p op (p.reject op t) (.ok .rejected)
  | waits {t : DataType} {c : Combination} : op.mutation.role = .change t c →
      p.conflicts t = false → (op.isUpload || op.isTrack) = true → p.deletes ≠ [] →
      Visited p op p (.ok .waits)
  | changed {t : DataType} {c : Combination} {changes : List Operation} :
      op.mutation.role = .change t c → p.conflicts t = false →
      ((op.isUpload || op.isTrack) = true → p.deletes = []) → Combined p.changes op c changes →
      Visited p op { p with dataType := some t, changes, points := p.pointsAfter c } (.ok .accepted)
  | configured {t : DataType} : op.mutation.role = .configure t → p.conflicts t = false →
      Visited p op { p with dataType := some t, configs := [op] } (.ok .accepted)
  | deleted : op.mutation.role = .delete →
      Visited p op ⟨none, p.deletesAfter op, [], [], p.errors, 0⟩ (.ok .accepted)

theorem visited_modify {p : Pending} (h : p.Sound) {op : Operation} {t : DataType}
    {c : Combination} (hr : op.mutation.role = .change t c) :
    Visited p op (p.modify op t c).1 (p.modify op t c).2 := by
  unfold modify
  split
  · next clash => exact .rejected (.inl ⟨c, hr⟩) clash
  · next fits =>
    rw [Bool.not_eq_true] at fits
    split
    · next late =>
      rw [Bool.and_eq_true, Bool.not_eq_true', List.isEmpty_eq_false_iff] at late
      exact .waits hr fits late.1 late.2
    · next early =>
      have barrier : (op.isUpload || op.isTrack) = true → p.deletes = [] := by
        intro file
        simpa [file] using early
      obtain ⟨changes, eq, combined⟩ := combine_spec (h.setType fits) rfl hr
      rw [eq]
      exact .changed hr fits barrier combined

theorem visited_configure {p : Pending} {op : Operation} {t : DataType}
    (hr : op.mutation.role = .configure t) :
    Visited p op (p.configure op t).1 (.ok (p.configure op t).2) := by
  unfold configure
  split
  · next clash => exact .rejected (.inr hr) clash
  · next fits => exact .configured hr (by simpa using fits)

/-- Every visit of a sound state is one of those described. -/
theorem visited {p p' : Pending} {op : Operation} {v : Except MergeError Visit} (h : p.Sound)
    (hv : p.visit op = (p', v)) : Visited p op p' v := by
  suffices any : Visited p op (p.visit op).1 (p.visit op).2 by rwa [hv] at any
  cases hr : op.mutation.role with
  | change t c => simpa [visit, hr] using visited_modify h hr
  | configure t => simpa [visit, hr] using visited_configure hr
  | delete => simpa [visit, hr, h.delete_eq] using Visited.deleted (p := p) hr
  | copy => simpa [visit, hr] using Visited.copy (p := p) hr

/-- A pending deletion keeps its shape when the attribute is deleted. -/
theorem Sound.deletion_after {p : Pending} (h : p.Sound) {op : Operation}
    (hop : op.mutation = .delete) : Deletion (p.deletesAfter op) := by
  unfold deletesAfter
  split
  · match hc : p.changes ++ p.configs with
    | [] => exact .alone hop
    | first :: rest =>
      have mem : first ∈ p.changes ++ p.configs := by simp [hc]
      have kept : first.mutation ≠ .delete := by
        intro deletes
        rcases List.mem_append.1 mem with change | config
        · obtain ⟨t, c, -, hr⟩ := h.typed first change
          simp [deletes, Mutation.role] at hr
        · obtain ⟨t, -, hr⟩ := h.configured first config
          simp [deletes, Mutation.role] at hr
      exact .behind kept hop
  · exact h.deletion

/-- **Every operation keeps the invariant**, whatever becomes of it. -/
theorem sound_visit {p p' : Pending} {op : Operation} {v : Except MergeError Visit} (h : p.Sound)
    (hv : p.visit op = (p', v)) : p'.Sound := by
  cases visited h hv with
  | copy | waits => exact h
  | rejected => exact ⟨h.typed, h.configured, h.series, h.deletion⟩
  | changed hr fits barrier combined => exact (h.setType fits).combined rfl hr combined
  | configured hr fits =>
    have typed := h.setType fits
    refine ⟨typed.typed, ?_, typed.series, typed.deletion⟩
    intro config mem
    exact ⟨_, rfl, by rw [List.mem_singleton.1 mem, hr]⟩
  | deleted hr =>
    exact ⟨by simp, by simp, by simp, h.deletion_after (Mutation.role_delete hr)⟩

/-- Only a copy cannot be merged. -/
theorem visit_error {p p' : Pending} {op : Operation} {e : MergeError} (h : p.Sound)
    (hv : p.visit op = (p', .error e)) : op.isCopy = true := by
  cases visited h hv with
  | copy hr => exact Operation.isCopy_iff_role.2 hr

end Pending

end Outbox
