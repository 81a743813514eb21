import Outbox.Proofs.Merge.Lanes

/-!
# How pending changes are built

The changes that are pending on one attribute stand one behind the other because none of them could be
combined with those before it. So they come out as they are when they are merged once more, in their order
or list by list. The exception is an artifact that is assigned or cleared and then tracked: its two
changes change places list by list, and the second of them then overwrites the first.

* `Pending.Follows` says when a change is put behind others as it is, and `Pending.Built` are the lists
  that come about in this way;
* `Pending.Settled` is the invariant, kept by every visit (`Settled.visit`);
* `Pending.joinAll_parts` merges what is pending once more, and `Pending.joinAll_byLane` does so list by
  list.
-/

namespace Outbox

/-! ## Lists and roles -/

/-- The list of a change, by its type. Only changes of artifacts travel in two lists and depend on each
other there: those of file sets that are not uploads just follow. -/
theorem Operation.lane_of_role {op : Operation} {t : DataType} {c : Combination}
    (hr : op.mutation.role = .change t c) :
    match t with
    | .file => op.lane = 0
    | .fileSet => (c = .replace ∧ op.lane = 0) ∨ (c = .append ∧ op.lane ≠ 1)
    | .artifact => (∃ entries, c = .track entries ∧ op.lane = 1) ∨
        ((c = .replace ∨ c = .clear) ∧ op.lane = 2)
    | _ => op.lane = 2 := by
  obtain ⟨path, m⟩ := op
  cases m with
  | assign v => cases v <;> cases hr <;> simp [lane, isUpload, isTrack, Scalar.dataType]
  | uploadFileSet globs reset => cases reset <;> cases hr <;> simp [lane, isUpload]
  | log ps =>
    cases ps <;> cases hr <;> simp [lane, isUpload, isTrack, Points.kind, SeriesKind.dataType]
  | clearLog k => cases k <;> cases hr <;> simp [lane, isUpload, isTrack, SeriesKind.dataType]
  | _ => cases hr <;> simp [lane, isUpload, isTrack]

namespace Pending

/-! ## One behind the other -/

/-- When a change is put behind others as it is: it does not overwrite them, nor is it joined with the
last of them. -/
def Follows (changes : List Operation) : Combination → Prop
  | .replace | .clear => changes = []
  | .append => True
  | .log _ => changes = [] ∨ ∃ only : Operation, changes = [only] ∧ only.isLog = false
  | .track _ => ∀ last ∈ changes.getLast?, last.isTrack = false

/-- Changes of a type, each put behind those before it as it is. -/
inductive Built (t : DataType) : List Operation → Prop
  | nothing : Built t []
  | next {changes : List Operation} {op : Operation} {c : Combination} : Built t changes →
      op.mutation.role = .change t c → Follows changes c → Built t (changes ++ [op])

theorem follows_nil (c : Combination) : Follows [] c := by
  cases c <;> simp [Follows]

theorem built_single {op : Operation} {t : DataType} {c : Combination}
    (hr : op.mutation.role = .change t c) : Built t [op] := by
  have built : Built t ([] ++ [op]) := .next .nothing hr (follows_nil c)
  exact built

/-- Changes that only follow can be put behind any others. -/
theorem Built.append {t : DataType} {changes : List Operation} (h : Built t changes)
    {more : List Operation} (follow : ∀ op ∈ more, op.mutation.role = .change t .append) :
    Built t (changes ++ more) := by
  induction more generalizing changes with
  | nil => rwa [List.append_nil]
  | cons op more ih =>
    have first : Built t (changes ++ [op]) := .next h (follow op List.mem_cons_self) trivial
    have := ih first fun op' member => follow op' (List.mem_cons_of_mem _ member)
    rwa [List.append_assoc] at this

/-- The changes of a built list have its type. -/
theorem Built.role {t : DataType} {changes : List Operation} (h : Built t changes) :
    ∀ op ∈ changes, ∃ c, op.mutation.role = .change t c := by
  induction h with
  | nothing => exact fun op member => absurd member List.not_mem_nil
  | @next changes op c _ hr _ ih =>
    intro op' member
    rcases List.mem_append.1 member with old | new
    · exact ih op' old
    · exact ⟨c, by rw [List.mem_singleton.1 new, hr]⟩

/-! ## Combining -/

theorem withTrack_of_last {changes : List Operation} (op : Operation) (entries : List TrackedFile)
    (follows : Follows changes (.track entries)) : withTrack changes op entries = changes ++ [op] := by
  fun_induction withTrack changes op entries with
  | case1 => rfl
  | case2 path projectId existing =>
    have := follows _ rfl
    simp [Operation.isTrack] at this
  | case3 change rest _ ih =>
    refine congrArg (change :: ·) (ih fun last found => follows last ?_)
    rw [List.getLast?_cons, Option.mem_def.1 found]
    rfl

/-- Tracked files are joined with those that were tracked last. -/
theorem withTrack_concat (before : List Operation) (op : Operation) (path : AttributePath)
    (projectId : String) (existing entries : List TrackedFile) :
    withTrack (before ++ [⟨path, .trackFiles projectId existing⟩]) op entries =
      before ++ [⟨path, .trackFiles projectId (existing ++ entries)⟩] := by
  induction before with
  | nil => rfl
  | cons first before ih =>
    have not_last : before ++ [⟨path, .trackFiles projectId existing⟩] ≠ [] := by simp
    rw [List.cons_append, List.cons_append, ← ih]
    generalize before ++ [⟨path, .trackFiles projectId existing⟩] = rest at not_last
    cases rest with
    | nil => exact absurd rfl not_last
    | cons second rest => rw [withTrack]; simp

/-- A change that follows is put behind the others, and nothing else happens. -/
theorem combine_of_follows {p : Pending} {c : Combination} (op : Operation)
    (follows : Follows p.changes c) :
    p.combine op c =
      ({ p with changes := p.changes ++ [op], points := p.pointsAfter c }, .ok .accepted) := by
  cases c with
  | replace | clear =>
    have none_before : p.changes = [] := follows
    simp [combine, pointsAfter, none_before]
  | append => rfl
  | log ps =>
    rcases follows with none_before | ⟨only, before, other⟩
    · simp [combine, withLog, pointsAfter, none_before]
    · simp [combine, withLog, pointsAfter, before, other]
  | track entries => simp [combine, pointsAfter, withTrack_of_last op entries follows]

/-- A log that is extended stays a log of its kind. -/
theorem extendLog_eq_ok {last op merged : Operation} {ps : Points}
    (joined : last.extendLog op ps = .ok merged) :
    ∃ qs all, last.mutation = .log qs ∧ all.kind = qs.kind ∧ merged = ⟨last.path, .log all⟩ := by
  obtain ⟨path, m⟩ := last
  unfold Operation.extendLog at joined
  cases m with
  | log qs =>
    dsimp only at joined
    split at joined
    · next all together =>
      cases joined
      refine ⟨qs, all, rfl, ?_, rfl⟩
      cases qs <;> cases ps <;> simp [Points.append?] at together <;> subst together <;> rfl
    · cases joined
  | _ => cases joined

/-- A change in place of the last one stands behind the same changes. -/
theorem Built.extend {t : DataType} {before : List Operation} {last : Operation} {m : Mutation}
    (h : Built t (before ++ [last]))
    (alike : ∀ c, last.mutation.role = .change t c → ∃ c', m.role = .change t c' ∧
      (Follows before c → Follows before c')) : Built t (before ++ [⟨last.path, m⟩]) := by
  generalize whole : before ++ [last] = changes at h
  cases h with
  | nothing => simp at whole
  | @next changes op c built hr follows =>
    obtain ⟨rfl, same⟩ := List.append_inj' whole rfl
    obtain rfl := List.singleton_inj.1 same
    obtain ⟨c', role, weaker⟩ := alike c hr
    exact .next built role (weaker follows)

/-- A log behind built changes leaves built changes. -/
theorem Built.withLog {t : DataType} {changes changes' : List Operation} {op : Operation}
    {ps : Points} (h : Built t changes) (hr : op.mutation.role = .change t (.log ps))
    (taken : Pending.withLog changes op ps = .ok changes') : Built t changes' := by
  have extended (before : List Operation) {last merged : Operation} (h : Built t (before ++ [last]))
      (joined : last.extendLog op ps = .ok merged) : Built t (before ++ [merged]) := by
    obtain ⟨qs, all, log, kind, rfl⟩ := extendLog_eq_ok joined
    refine h.extend fun c hr => ?_
    rw [log, Mutation.role, Role.change.injEq] at hr
    obtain ⟨typed, rfl⟩ := hr
    exact ⟨.log all, by rw [Mutation.role, kind, typed], id⟩
  rcases changes with _ | ⟨first, _ | ⟨last, _ | ⟨third, rest⟩⟩⟩
  · cases taken
    exact built_single hr
  · rw [Pending.withLog] at taken
    split at taken
    · rcases joined : first.extendLog op ps with e | merged
      · rw [joined] at taken
        cases taken
      · rw [joined] at taken
        cases taken
        exact extended [] h joined
    · next other =>
      cases taken
      have follows : Follows [first] (.log ps) := .inr ⟨first, rfl, Bool.eq_false_iff.2 other⟩
      exact h.next hr follows
  · rw [Pending.withLog] at taken
    split at taken
    · rcases joined : last.extendLog op ps with e | merged
      · rw [joined] at taken
        cases taken
      · rw [joined] at taken
        cases taken
        exact extended [first] h joined
    · cases taken
  · cases taken

/-- Tracked files behind built changes leave built changes. -/
theorem Built.withTrack {t : DataType} {changes : List Operation} {op : Operation}
    {entries : List TrackedFile} (h : Built t changes)
    (hr : op.mutation.role = .change t (.track entries)) :
    Built t (Pending.withTrack changes op entries) := by
  by_cases follows : Follows changes (.track entries)
  · rw [withTrack_of_last op entries follows]
    exact .next h hr follows
  · obtain ⟨last, found, track⟩ : ∃ last, changes.getLast? = some last ∧ last.isTrack = true := by
      simpa [Follows] using follows
    obtain ⟨before, rfl⟩ := List.getLast?_eq_some_iff.1 found
    obtain ⟨path, m⟩ := last
    cases m with
    | trackFiles projectId existing =>
      rw [withTrack_concat]
      refine h.extend fun c hr => ?_
      rw [Mutation.role, Role.change.injEq] at hr
      obtain ⟨typed, rfl⟩ := hr
      exact ⟨.track (existing ++ entries), by rw [Mutation.role, typed], id⟩
    | _ => simp [Operation.isTrack] at track

/-- **A change that is combined with built changes** leaves built changes. -/
theorem Built.combine {t : DataType} {p p' : Pending} {op : Operation} {c : Combination} {v : Visit}
    (h : Built t p.changes) (hr : op.mutation.role = .change t c)
    (combined : p.combine op c = (p', .ok v)) : Built t p'.changes := by
  cases c with
  | replace | clear =>
    cases combined
    exact built_single hr
  | append =>
    cases combined
    exact .next h hr trivial
  | log ps =>
    rw [Pending.combine] at combined
    split at combined
    · next changes taken =>
      cases combined
      exact h.withLog hr taken
    · cases combined
  | track entries =>
    cases combined
    exact h.withTrack hr

/-! ## The invariant -/

/-- What is pending on an attribute comes out as it is when it is merged once more. -/
structure Settled (p : Pending) : Prop where
  built : ∀ t, p.conflicts t = false → Built t p.changes
  configured : p.configs.length ≤ 1
  /-- What is sent before a deletion can be merged itself. -/
  begins : ∀ first op, p.deletes = [first, op] →
    (∃ t c, first.mutation.role = .change t c) ∨ ∃ t, first.mutation.role = .configure t

theorem settled_empty : empty.Settled :=
  ⟨fun _ _ => .nothing, Nat.zero_le 1, fun _ _ none_such => by cases none_such⟩

/-- With a type set, no other type fits. -/
theorem eq_of_fits {p : Pending} {t t' : DataType} (typed : p.dataType = some t)
    (fits : p.conflicts t' = false) : t' = t := by
  rw [conflicts, typed] at fits
  exact Eq.symm (by simpa using fits)

/-- A change that is combined touches the changes and the count of points only. -/
theorem frame_combine {p p' : Pending} {op : Operation} {c : Combination} {v : Visit}
    (combined : p.combine op c = (p', .ok v)) :
    p'.dataType = p.dataType ∧ p'.deletes = p.deletes ∧ p'.configs = p.configs := by
  unfold combine at combined
  split at combined
  case h_4 =>
    dsimp only at combined
    split at combined <;> cases combined
    exact ⟨rfl, rfl, rfl⟩
  all_goals
    cases combined
    exact ⟨rfl, rfl, rfl⟩

/-- What is sent before a deletion that becomes pending is a change or a configuration. -/
theorem Settled.deletesAfter {p : Pending} (sound : p.Sound) (h : p.Settled) {op first last : Operation}
    (pending : p.deletesAfter op = [first, last]) :
    (∃ t c, first.mutation.role = .change t c) ∨ ∃ t, first.mutation.role = .configure t := by
  unfold Pending.deletesAfter at pending
  split at pending
  · have member : first ∈ p.changes ++ p.configs := by
      have ends : (p.changes ++ p.configs).take 1 ++ [op] = [first] ++ [last] := pending
      obtain ⟨taken, -⟩ := List.append_inj' ends rfl
      exact List.mem_of_mem_take (taken ▸ List.mem_singleton_self first)
    rcases List.mem_append.1 member with change | config
    · obtain ⟨t, c, -, hr⟩ := sound.typed first change
      exact .inl ⟨t, c, hr⟩
    · obtain ⟨t, -, hr⟩ := sound.configured first config
      exact .inr ⟨t, hr⟩
  · exact h.begins first last pending

/-- **Every visit keeps what is pending settled.** -/
theorem Settled.visit {p : Pending} (sound : p.Sound) (h : p.Settled) (op : Operation) :
    (p.visit op).1.Settled := by
  cases hr : op.mutation.role with
  | change t c =>
    simp only [Pending.visit, hr, modify]
    split
    · exact ⟨h.built, h.configured, h.begins⟩
    · next fits =>
      rw [Bool.not_eq_true] at fits
      split
      · exact h
      · obtain ⟨changes, eq, -⟩ := combine_spec (sound.setType fits) rfl hr
        obtain ⟨typed, deletes, configs⟩ := frame_combine eq
        have built : Built t (p.setType t).changes := h.built t fits
        have after := built.combine hr eq
        rw [eq]
        refine ⟨fun t' fits' => ?_, configs ▸ h.configured, fun first last => deletes ▸ h.begins first last⟩
        obtain rfl := eq_of_fits (t := t) typed fits'
        exact after
  | configure t =>
    simp only [Pending.visit, hr, configure]
    split
    · exact ⟨h.built, h.configured, h.begins⟩
    · next fits =>
      refine ⟨fun t' fits' => ?_, Nat.le_refl 1, h.begins⟩
      obtain rfl := eq_of_fits (t := t) rfl fits'
      exact h.built t' (by simpa using fits)
  | delete =>
    simp only [Pending.visit, hr, sound.delete_eq]
    exact ⟨fun _ _ => .nothing, Nat.zero_le 1, fun _ _ pending => h.deletesAfter sound pending⟩
  | copy =>
    simp only [Pending.visit, hr]
    exact h

end Pending

theorem Merger.settled_takeAll (ops : List Operation) (path : AttributePath) :
    ((empty.takeAll ops).pending path).Settled :=
  takeAll_induction_visit (P := fun _ p => p.Settled) (fun _ => Pending.settled_empty)
    (fun _ sound settled => settled.visit sound _) ops path

namespace Pending

/-! ## Merging once more -/

/-- A change that follows joins, if it need not wait for a deletion. -/
theorem visit_of_follows {p : Pending} {op : Operation} {t : DataType} {c : Combination}
    (hr : op.mutation.role = .change t c) (fits : p.conflicts t = false)
    (follows : Follows p.changes c) (early : p.deletes ≠ [] → op.lane = 2) :
    ∃ points, p.visit op =
      ({ p with dataType := some t, changes := p.changes ++ [op], points }, .ok .accepted) := by
  have joins : ((op.isUpload || op.isTrack) && !p.deletes.isEmpty) = false := by
    by_cases pending : p.deletes = []
    · simp [pending]
    · rw [Operation.lane_eq_two_iff.1 (early pending), Bool.false_and]
  have follows' : Follows (p.setType t).changes c := follows
  refine ⟨(p.setType t).pointsAfter c, ?_⟩
  simp only [visit, hr, modify, fits, joins, Bool.false_eq_true, if_false]
  exact combine_of_follows op follows'

theorem visit_configure {p : Pending} {op : Operation} {t : DataType}
    (hr : op.mutation.role = .configure t) (fits : p.conflicts t = false) :
    p.visit op = ({ p.setType t with configs := [op] }, .ok .accepted) := by
  simp only [visit, hr, configure, fits, Bool.false_eq_true, if_false]

theorem visit_delete (p : Pending) {op : Operation} (delete : op.mutation = .delete) :
    p.visit op = (p.delete op, .ok .accepted) := by
  simp only [visit, delete, Mutation.role]

/-- **Built changes come out as they are** when they are merged on their own. -/
theorem joinAll_built {t : DataType} {changes : List Operation} (built : Built t changes) {p : Pending}
    (fits : p.conflicts t = false) (none_yet : p.changes = [])
    (early : p.deletes ≠ [] → ∀ op ∈ changes, op.lane = 2) :
    ∃ q, p.joinAll changes = some q ∧ q.conflicts t = false ∧ q.changes = changes ∧
      q.deletes = p.deletes ∧ q.configs = p.configs ∧ q.errors = p.errors := by
  induction built with
  | nothing => exact ⟨p, rfl, fits, none_yet, rfl, rfl, rfl⟩
  | @next changes op c _ hr follows ih =>
    obtain ⟨q, joined, fits, rebuilt, deletes, configs, errors⟩ :=
      ih fun pending op' member => early pending op' (List.mem_append_left _ member)
    have early_op : q.deletes ≠ [] → op.lane = 2 := fun pending =>
      early (deletes ▸ pending) op (List.mem_append_right _ (List.mem_singleton_self op))
    obtain ⟨points, visited⟩ := visit_of_follows hr fits (rebuilt ▸ follows) early_op
    refine ⟨{ q with dataType := some t, changes := q.changes ++ [op], points }, ?_, ?_,
      by rw [rebuilt], deletes, configs, errors⟩
    · rw [joinAll_append, joined]
      exact joinAll_cons_of_visit visited (by simp) []
    · simp [conflicts]

/-- A pending deletion comes out as it is. -/
theorem joinAll_deletes {deletes : List Operation} (shape : Deletion deletes)
    (begins : ∀ first op, deletes = [first, op] →
      (∃ t c, first.mutation.role = .change t c) ∨ ∃ t, first.mutation.role = .configure t) :
    empty.joinAll deletes = some { empty with deletes } := by
  cases shape with
  | none => rfl
  | alone delete =>
    rw [joinAll_cons_of_visit (visit_delete empty delete) (by simp)]
    rfl
  | @behind first op _ delete =>
    rcases begins first op rfl with ⟨t, c, hr⟩ | ⟨t, hr⟩
    · obtain ⟨points, visited⟩ := visit_of_follows (p := empty) hr rfl (follows_nil c)
        fun pending => absurd rfl pending
      rw [joinAll_cons_of_visit visited (by simp),
        joinAll_cons_of_visit (visit_delete _ delete) (by simp)]
      rfl
    · rw [joinAll_cons_of_visit (visit_configure hr rfl) (by simp),
        joinAll_cons_of_visit (visit_delete _ delete) (by simp)]
      rfl

/-- A pending configuration comes out as it is. -/
theorem joinAll_configs {p : Pending} {configs : List Operation} (single : configs.length ≤ 1)
    (none_yet : p.configs = [])
    (fit : ∀ op ∈ configs, ∃ t, op.mutation.role = .configure t ∧ p.conflicts t = false) :
    ∃ q, p.joinAll configs = some q ∧ q.deletes = p.deletes ∧ q.changes = p.changes ∧
      q.configs = configs ∧ q.errors = p.errors := by
  match configs with
  | [] => exact ⟨p, rfl, rfl, rfl, none_yet, rfl⟩
  | [op] =>
    obtain ⟨t, hr, fits⟩ := fit op (List.mem_singleton_self op)
    exact ⟨_, joinAll_cons_of_visit (visit_configure hr fits) (by simp) [], rfl, rfl, rfl, rfl⟩
  | op :: op' :: rest => simp at single

/-- **What is pending comes out as it is** when it is merged once more, even with other changes if these
are built. -/
theorem joinAll_parts {p : Pending} (sound : p.Sound) (settled : p.Settled) {changes : List Operation}
    (built : ∀ t, p.conflicts t = false → Built t changes)
    (early : p.deletes ≠ [] → ∀ op ∈ changes, op.lane = 2) :
    ∃ q, empty.joinAll (p.deletes ++ changes ++ p.configs) = some q ∧
      q.operations = p.deletes ++ changes ++ p.configs ∧ q.errors = [] := by
  -- without a type there is nothing to configure, and any type does
  obtain ⟨t, fits, configured⟩ : ∃ t, p.conflicts t = false ∧
      ∀ op ∈ p.configs, op.mutation.role = .configure t := by
    cases typed : p.dataType with
    | none =>
      refine ⟨.float, by simp [conflicts, typed], ?_⟩
      rw [(sound.nothing typed).2]
      exact fun op member => absurd member List.not_mem_nil
    | some t =>
      refine ⟨t, by simp [conflicts, typed], fun op member => ?_⟩
      obtain ⟨t', same, hr⟩ := sound.configured op member
      rw [typed, Option.some.injEq] at same
      rw [same, hr]
  obtain ⟨q, joined, fits', rebuilt, deletes, configs, errors⟩ :=
    joinAll_built (built t fits) (p := { empty with deletes := p.deletes }) rfl rfl early
  obtain ⟨q', joined', deletes', rebuilt', configs', errors'⟩ := joinAll_configs settled.configured
    (p := q) configs fun op member => ⟨t, configured op member, fits'⟩
  refine ⟨q', ?_, ?_, errors'.trans errors⟩
  · rw [joinAll_append, joinAll_append, joinAll_deletes sound.deletion settled.begins]
    rw [Option.bind_some, joined, Option.bind_some, joined']
  · rw [operations, deletes', deletes, rebuilt', rebuilt, configs']

/-! ## Once more, list by list -/

/-- A change of an artifact that is no tracking stands alone. -/
theorem alone_of_untracked {before : List Operation} {op : Operation} {c : Combination}
    (hr : op.mutation.role = .change .artifact c) (follows : Follows before c)
    (untracked : op.isTrack = false) : before = [] ∧ op.lane = 2 := by
  rcases Operation.lane_of_role hr with ⟨entries, -, track⟩ | ⟨rfl | rfl, lane⟩
  · unfold Operation.lane at track
    split at track <;> simp [untracked] at track
  · exact ⟨follows, lane⟩
  · exact ⟨follows, lane⟩

/-- An artifact has one change, or two if the second is a tracking. -/
theorem Built.artifact {changes : List Operation} (h : Built .artifact changes) :
    changes.length ≤ 1 ∨ ∃ first tracked, changes = [first, tracked] ∧ first.lane = 2 ∧
      tracked.lane = 1 := by
  cases h with
  | nothing => exact .inl (Nat.zero_le 1)
  | @next before op c built hr follows =>
    rcases Operation.lane_of_role hr with ⟨entries, rfl, lane⟩ | ⟨overwrites, -⟩
    · cases built with
      | nothing => exact .inl (Nat.le_refl 1)
      | @next before' first c' built' hr' follows' =>
        have untracked : first.isTrack = false := follows first (by simp)
        obtain ⟨rfl, last⟩ := alone_of_untracked hr' follows' untracked
        exact .inr ⟨first, op, rfl, last, lane⟩
    · have none_before : before = [] := by rcases overwrites with rfl | rfl <;> exact follows
      rw [none_before]
      exact .inl (Nat.le_refl 1)

/-- Uploads of file sets are built on their own. -/
theorem Built.uploads {changes : List Operation} (h : Built .fileSet changes) :
    Built .fileSet (changes.filter (·.lane = 0)) := by
  induction h with
  | nothing => exact .nothing
  | @next before op c _ hr follows ih =>
    rw [List.filter_append]
    by_cases upload : op.lane = 0
    · rw [List.filter_cons_of_pos (by simpa using upload), List.filter_nil]
      refine .next ih hr ?_
      rcases Operation.lane_of_role hr with ⟨rfl, -⟩ | ⟨rfl, -⟩
      · have none_before : before = [] := follows
        rw [none_before]
        exact follows_nil _
      · trivial
    · rwa [List.filter_cons_of_neg (by simpa using upload), List.filter_nil, List.append_nil]

/-- **Built changes are built list by list** too, but for those of an artifact that is tracked behind
another change. -/
theorem Built.byLane {t : DataType} {changes : List Operation} (h : Built t changes) :
    Built t (byLane changes) ∨
      ∃ first tracked, t = .artifact ∧ changes = [first, tracked] ∧ first.lane = 2 ∧
        tracked.lane = 1 := by
  have in_order {n : Nat} (lanes : ∀ op ∈ changes, op.lane = n) : Built t (Outbox.byLane changes) := by
    rwa [byLane_eq_self_iff.2 (pairwise_of_lane lanes)]
  have roles := h.role
  cases t with
  | artifact =>
    rcases h.artifact with short | ⟨first, tracked, parts⟩
    · refine .inl ?_
      rcases Nat.le_one_iff_eq_zero_or_eq_one.1 short with none | one
      · exact in_order (n := 0) fun op member => by simp [List.length_eq_zero_iff.1 none] at member
      · obtain ⟨op, rfl⟩ := List.length_eq_one_iff.1 one
        exact in_order (n := op.lane) fun op' member => by rw [List.mem_singleton.1 member]
    · exact .inr ⟨first, tracked, rfl, parts⟩
  | fileSet =>
    refine .inl ?_
    rw [Outbox.byLane, List.append_assoc]
    refine h.uploads.append fun op member => ?_
    have inside : op ∈ changes ∧ op.lane ≠ 0 := by
      rcases List.mem_append.1 member with track | other
      · obtain ⟨inside, lane⟩ := List.mem_filter.1 track
        exact ⟨inside, by simp [of_decide_eq_true lane]⟩
      · obtain ⟨inside, lane⟩ := List.mem_filter.1 other
        exact ⟨inside, by simp [of_decide_eq_true lane]⟩
    obtain ⟨c, hr⟩ := roles op inside.1
    rcases Operation.lane_of_role hr with ⟨-, lane⟩ | ⟨rfl, -⟩
    · exact absurd lane inside.2
    · exact hr
  | file =>
    refine .inl (in_order (n := 0) fun op member => ?_)
    obtain ⟨c, hr⟩ := roles op member
    exact Operation.lane_of_role hr
  | _ =>
    refine .inl (in_order (n := 2) fun op member => ?_)
    obtain ⟨c, hr⟩ := roles op member
    exact Operation.lane_of_role hr

/-- An artifact is sent with files that were tracked behind another change. Sent list by list, the files
overtake that change. -/
def Overtakes (p : Pending) : Prop :=
  p.deletes = [] ∧ ∃ first tracked, p.changes = [first, tracked] ∧ first.lane = 2 ∧ tracked.lane = 1

/-- Of the parts of what is pending only the changes are sent in another order. -/
theorem Aligned.byLane_operations {path : AttributePath} {p : Pending} (h : p.Aligned path)
    (sound : p.Sound) : byLane p.operations = p.deletes ++ byLane p.changes ++ p.configs := by
  by_cases pending : p.deletes = []
  · rw [operations, pending, List.nil_append, List.nil_append, byLane_append_last sound.lane_configs]
  · have ordered := pairwise_of_lane (h.barrier pending)
    rw [byLane_eq_self_iff.2 ordered, byLane_eq_self_iff.2 ((h.ordered_iff sound).2 ordered)]
    rfl

/-- Files are tracked in artifacts only. -/
theorem Sound.artifact_of_track {p : Pending} (sound : p.Sound) {op : Operation}
    (member : op ∈ p.changes) (track : op.lane = 1) : p.dataType = some .artifact := by
  obtain ⟨t, c, typed, hr⟩ := sound.typed op member
  cases t with
  | artifact => exact typed
  | fileSet =>
    rcases Operation.lane_of_role hr with ⟨-, lane⟩ | ⟨-, lane⟩
    · rw [track] at lane
      cases lane
    · exact absurd track lane
  | _ =>
    have lane := Operation.lane_of_role hr
    rw [track] at lane
    cases lane

/-- Where files are tracked, nothing is configured. -/
theorem Sound.operations_of_track {p : Pending} (sound : p.Sound) (no_deletes : p.deletes = [])
    {op : Operation} (member : op ∈ p.changes) (track : op.lane = 1) : p.operations = p.changes := by
  have no_configs : p.configs = [] := by
    apply List.eq_nil_iff_forall_not_mem.2
    intro config member'
    obtain ⟨t, typed, configures⟩ := sound.configured config member'
    obtain ⟨-, rfl⟩ := Mutation.role_configure configures
    rw [sound.artifact_of_track member track] at typed
    cases typed
  rw [Pending.operations, no_deletes, no_configs, List.nil_append, List.append_nil]

/-- A change that was overtaken overwrites the files, when it is merged behind them. -/
theorem joinAll_overtaken {first tracked : Operation} {c c' : Combination}
    (hr : first.mutation.role = .change .artifact c) (last : first.lane = 2)
    (hr' : tracked.mutation.role = .change .artifact c') :
    ∃ q, empty.joinAll [tracked, first] = some q ∧ q.operations = [first] ∧ q.errors = [] := by
  obtain ⟨points, visited⟩ := visit_of_follows (p := empty) hr' rfl (follows_nil c')
    fun pending => absurd rfl pending
  have plain : (first.isUpload || first.isTrack) = false := Operation.lane_eq_two_iff.1 last
  rw [joinAll_cons_of_visit visited (by simp)]
  rcases Operation.lane_of_role hr with ⟨entries, -, lane⟩ | ⟨rfl | rfl, -⟩
  · rw [last] at lane
    cases lane
  all_goals
    simp only [joinAll, visit, hr, modify, conflicts, plain, combine, Option.any_some, bne_self_eq_false,
      Bool.false_and, Bool.false_eq_true, if_false]
    exact ⟨_, rfl, rfl, rfl⟩

/-- **What is pending on an attribute, merged once more list by list**, comes out list by list. Only a
change that files have overtaken overwrites them now. -/
theorem joinAll_byLane {path : AttributePath} {p : Pending} (sound : p.Sound) (aligned : p.Aligned path)
    (settled : p.Settled) : ∃ q, empty.joinAll (byLane p.operations) = some q ∧ q.errors = [] ∧
      ((¬ p.Overtakes ∧ q.operations = byLane p.operations) ∨
        (p.Overtakes ∧ q.operations = p.operations.filter (·.lane = 2))) := by
  by_cases overtakes : p.Overtakes
  · obtain ⟨no_deletes, first, tracked, changes, last, track⟩ := id overtakes
    have inside : tracked ∈ p.changes := by simp [changes]
    have artifact := sound.artifact_of_track inside track
    rw [sound.operations_of_track no_deletes inside track]
    have role : ∀ op ∈ p.changes, ∃ c, op.mutation.role = .change .artifact c := by
      intro op member
      obtain ⟨t, c, typed, hr⟩ := sound.typed op member
      rw [artifact, Option.some.injEq] at typed
      exact ⟨c, typed ▸ hr⟩
    obtain ⟨c, hr⟩ := role first (by simp [changes])
    obtain ⟨c', hr'⟩ := role tracked inside
    obtain ⟨q, joined, only, errors⟩ := joinAll_overtaken hr last hr'
    refine ⟨q, ?_, errors, .inr ⟨overtakes, ?_⟩⟩
    · rw [changes]
      simpa [byLane, last, track] using joined
    · rw [only, changes]
      simp [last, track]
  · have built (t : DataType) (fits : p.conflicts t = false) : Built t (byLane p.changes) := by
      rcases (settled.built t fits).byLane with built | ⟨first, tracked, -, changes, last, track⟩
      · exact built
      · -- tracked files wait for a deletion, so there is none
        have pending : p.deletes ≠ [] := fun none =>
          overtakes ⟨none, first, tracked, changes, last, track⟩
        have := aligned.barrier pending tracked (by simp [changes])
        rw [track] at this
        cases this
    have early (pending : p.deletes ≠ []) : ∀ op ∈ byLane p.changes, op.lane = 2 := by
      rw [byLane_eq_self_iff.2 (pairwise_of_lane (aligned.barrier pending))]
      exact aligned.barrier pending
    obtain ⟨q, joined, same, errors⟩ := joinAll_parts sound settled built early
    rw [← aligned.byLane_operations sound] at joined same
    exact ⟨q, joined, errors, .inl ⟨overtakes, same⟩⟩

end Pending

end Outbox
