import Mathlib.Data.List.Perm.Subperm
import Outbox.Proofs.Merge.Bounds
import Outbox.Proofs.Merge.Refusals

/-!
# Where the operations of a batch come from

Merging joins logs and tracked files of an attribute that follow each other, and drops what was overwritten or
deleted. Whatever a batch sends is one of the operations it accepted, or was joined from several of them, in
their order; none of them is used twice, and no point and no tracked file comes from anywhere else. So a batch
sends no more operations than it was merged from.

* `Gathers` says what a run of operations is joined to, and `ComesFrom` that operations come from others in this
  way;
* `Pending.Traced` is what is pending with the run of every operation, kept by every visit (`Traced.visited`);
* `Merger.comesFrom_finish` is the result, with what is in the lists of a batch and how they are ordered.
-/

namespace Outbox

/-! ## Runs of operations -/

/-- What a run of operations is joined to: a single one stays what it is, logs make a log of their points and
tracked files are tracked together, one after the other. -/
inductive Gathers : List Operation → Operation → Prop
  | single (op : Operation) : Gathers [op] op
  | log {run : List Operation} {path : AttributePath} {qs ps all : Points} :
      Gathers run ⟨path, .log qs⟩ → qs.append? ps = some all →
      Gathers (run ++ [⟨path, .log ps⟩]) ⟨path, .log all⟩
  | track {run : List Operation} {path : AttributePath} {projectId projectId' : String}
      {existing entries : List TrackedFile} :
      Gathers run ⟨path, .trackFiles projectId existing⟩ →
      Gathers (run ++ [⟨path, .trackFiles projectId' entries⟩])
        ⟨path, .trackFiles projectId (existing ++ entries)⟩

/-- An operation with the run that it was joined from. -/
structure Gathered where
  run : List Operation
  op : Operation
  gathers : Gathers run op

/-- An operation that nothing was joined with. -/
def Gathered.single (op : Operation) : Gathered :=
  ⟨[op], op, .single op⟩

/-- The operations of all runs. -/
def sources (parts : List Gathered) : List Operation :=
  parts.flatMap Gathered.run

/-- Whether an operation configures its attribute. -/
def Operation.configures (op : Operation) : Bool :=
  match op.mutation.role with
  | .configure _ => true
  | _ => false

/-- The operations that do not configure an attribute. -/
def unconfigured (ops : List Operation) : List Operation :=
  ops.filter fun op => !op.configures

/-- A run of more than one operation is one of operations that follow each other, configurations apart. -/
def Gathered.Consecutive (part : Gathered) (taken : List Operation) : Prop :=
  part.run = [part.op] ∨ part.run <:+: unconfigured taken

/-- Operations come from others: in some order, they are joined from runs of those. No operation is in two
runs, and some are in none. -/
def ComesFrom (taken sent : List Operation) : Prop :=
  ∃ (parts : List Gathered) (dropped : List Operation), (parts.map Gathered.op).Perm sent ∧
    (sources parts ++ dropped).Perm taken ∧ ∀ part ∈ parts, part.Consecutive taken

section

variable {run taken sent : List Operation} {op : Operation}

theorem Gathers.ne_nil (h : Gathers run op) : run ≠ [] := by
  cases h <;> simp

/-- What is joined is no copy if what it is joined from is none. -/
theorem Gathers.isCopy (h : Gathers run op) (plain : ∀ source ∈ run, source.isCopy = false) :
    op.isCopy = false := by
  cases h with
  | single => exact plain op (List.mem_singleton_self op)
  | log | track => rfl

@[simp] theorem sources_nil : sources [] = [] :=
  rfl

@[simp] theorem sources_cons (part : Gathered) (parts : List Gathered) :
    sources (part :: parts) = part.run ++ sources parts :=
  rfl

@[simp] theorem sources_append (parts parts' : List Gathered) :
    sources (parts ++ parts') = sources parts ++ sources parts' :=
  List.flatMap_append

/-- No operation is made from nothing. -/
theorem length_le_sources (parts : List Gathered) : parts.length ≤ (sources parts).length := by
  induction parts with
  | nil => exact Nat.le_refl 0
  | cons part parts ih =>
    have something := List.length_pos_of_ne_nil part.gathers.ne_nil
    rw [sources_cons, List.length_append, List.length_cons]
    omega

theorem ComesFrom.length_le (h : ComesFrom taken sent) : sent.length ≤ taken.length := by
  obtain ⟨parts, dropped, same, all, -⟩ := h
  have := length_le_sources parts
  rw [← same.length_eq, List.length_map, ← all.length_eq, List.length_append]
  omega

/-- No copy comes from operations that are none. -/
theorem ComesFrom.isCopy (h : ComesFrom taken sent) (plain : ∀ op ∈ taken, op.isCopy = false) :
    ∀ op ∈ sent, op.isCopy = false := by
  obtain ⟨parts, dropped, same, all, -⟩ := h
  intro op member
  obtain ⟨part, inside, rfl⟩ := List.mem_map.1 (same.mem_iff.2 member)
  refine part.gathers.isCopy fun source among => plain source (all.subset ?_)
  exact List.mem_append_left _ (List.mem_flatMap.2 ⟨part, inside, among⟩)

theorem ComesFrom.perm {sent' : List Operation} (h : ComesFrom taken sent) (same : sent.Perm sent') :
    ComesFrom taken sent' := by
  obtain ⟨parts, dropped, made, all, consecutive⟩ := h
  exact ⟨parts, dropped, made.trans same, all, consecutive⟩

theorem unconfigured_concat (configures : op.configures = false) :
    unconfigured (taken ++ [op]) = unconfigured taken ++ [op] := by
  simp [unconfigured, configures]

theorem unconfigured_concat_config (configures : op.configures = true) :
    unconfigured (taken ++ [op]) = unconfigured taken := by
  simp [unconfigured, configures]

/-- Operations that come later keep a run together. -/
theorem Gathered.Consecutive.concat {part : Gathered} (h : part.Consecutive taken) (op : Operation) :
    part.Consecutive (taken ++ [op]) := by
  refine h.imp_right fun together => together.trans ?_
  rw [unconfigured, unconfigured, List.filter_append]
  exact (List.prefix_append _ _).isInfix

end

/-! ## One attribute -/

namespace Pending

variable {p p' : Pending} {path : AttributePath} {op : Operation} {taken changes' : List Operation}

/-- What is pending, with the runs that it was joined from. -/
structure Trace where
  deletes : List Gathered
  changes : List Gathered
  configs : List Gathered
  /-- Operations that are in no run. -/
  dropped : List Operation

/-- All parts of what is pending. -/
def Trace.parts (t : Trace) : List Gathered :=
  t.deletes ++ t.changes ++ t.configs

/-- What is pending is traced to the operations that were accepted. -/
structure Traced (p : Pending) (taken : List Operation) (t : Trace) : Prop where
  deletes : t.deletes.map Gathered.op = p.deletes
  changes : t.changes.map Gathered.op = p.changes
  configs : t.configs.map Gathered.op = p.configs
  complete : (sources t.parts ++ t.dropped).Perm taken
  consecutive : ∀ part ∈ t.parts, part.Consecutive taken
  /-- The run of the last change goes on with the next operation. -/
  last : ∀ part ∈ t.changes.getLast?, part.run <:+ unconfigured taken

theorem traced_empty : empty.Traced [] ⟨[], [], [], []⟩ :=
  ⟨rfl, rfl, rfl, .refl _, fun _ member => absurd member List.not_mem_nil, fun _ last => absurd last (by simp)⟩

/-- How the parts go on that changes are made of, when one more operation is accepted. -/
structure Continues (taken : List Operation) (op : Operation) (changes after : List Gathered)
    (dropped : List Operation) : Prop where
  complete : (sources after ++ dropped).Perm (sources changes ++ [op])
  consecutive : ∀ part ∈ after, part ∈ changes ∨ part.Consecutive (taken ++ [op])
  last : ∀ part ∈ after.getLast?, part.run <:+ unconfigured (taken ++ [op])

/-- The operation takes the place of all changes. -/
theorem continues_alone (changes_it : op.configures = false) (changes : List Gathered) :
    Continues taken op changes [.single op] (sources changes) where
  complete := List.perm_append_comm
  consecutive := by
    rintro part (_ | ⟨_, ⟨⟩⟩)
    exact .inr (.inl rfl)
  last := by
    rintro part ⟨⟩
    rw [unconfigured_concat changes_it]
    exact List.suffix_append _ _

/-- The operation comes behind the changes. -/
theorem continues_behind (changes_it : op.configures = false) (changes : List Gathered) :
    Continues taken op changes (changes ++ [.single op]) [] where
  complete := by
    rw [List.append_nil, sources_append]
    exact .refl _
  consecutive := by
    intro part member
    rcases List.mem_append.1 member with old | new
    · exact .inl old
    · rw [List.mem_singleton.1 new]
      exact .inr (.inl rfl)
  last := by
    rw [List.getLast?_concat]
    rintro part ⟨⟩
    rw [unconfigured_concat changes_it]
    exact List.suffix_append _ _

/-- The operation is joined with the last change. -/
theorem continues_joined (changes_it : op.configures = false) {before : List Gathered} {part : Gathered}
    (last : part.run <:+ unconfigured taken) {joined : Operation} (gathers : Gathers (part.run ++ [op]) joined) :
    Continues taken op (before ++ [part]) (before ++ [⟨part.run ++ [op], joined, gathers⟩]) [] := by
  have together : part.run ++ [op] <:+ unconfigured (taken ++ [op]) := by
    obtain ⟨front, eq⟩ := last
    rw [unconfigured_concat changes_it, ← eq, List.append_assoc]
    exact List.suffix_append _ _
  refine ⟨?_, fun part' member => ?_, ?_⟩
  · simp
  · rcases List.mem_append.1 member with old | new
    · exact .inl (List.mem_append_left _ old)
    · rw [List.mem_singleton.1 new]
      exact .inr (.inr together.isInfix)
  · rw [List.getLast?_concat]
    rintro part' ⟨⟩
    exact together

/-- **A change that is combined with others** is a part of its own, or goes on with the run of the last one. -/
theorem Combined.traced {c : Combination} {t : DataType} {changes : List Gathered}
    (h : Combined (changes.map Gathered.op) op c changes') (hr : op.mutation.role = .change t c)
    (here : ∀ part ∈ changes, part.op.path = op.path)
    (last : ∀ part ∈ changes.getLast?, part.run <:+ unconfigured taken) :
    ∃ after dropped, after.map Gathered.op = changes' ∧ Continues taken op changes after dropped := by
  have changes_it : op.configures = false := by simp [Operation.configures, hr]
  -- a change that was joined with others is a part with a run
  have split {before : List Operation} {last' : Operation} (eq : changes.map Gathered.op = before ++ [last']) :
      ∃ front part, changes = front ++ [part] ∧ front.map Gathered.op = before ∧ part.op = last' := by
    obtain ⟨front, back, rfl, rfl, single⟩ := List.map_eq_append_iff.1 eq
    obtain ⟨part, none_more, rfl, rfl, nothing⟩ := List.map_eq_cons_iff.1 single
    rw [List.map_eq_nil_iff.1 nothing]
    exact ⟨front, part, rfl, rfl, rfl⟩
  generalize olds : changes.map Gathered.op = old at h
  cases h with
  | replaces | clears => exact ⟨_, _, rfl, continues_alone changes_it changes⟩
  | follows | startsLog | startsTrack =>
    exact ⟨_, _, by rw [List.map_append, olds]; rfl, continues_behind changes_it changes⟩
  | @extendsLog before path' _ qs ps all _ together =>
    obtain ⟨front, ⟨run, first, gathers⟩, rfl, rfl, rfl⟩ := split olds
    obtain ⟨logs, -⟩ := Mutation.role_log hr
    have place : path' = op.path := here _ (List.mem_append_right _ (List.mem_singleton_self _))
    obtain ⟨path, m⟩ := op
    obtain rfl : m = .log ps := logs
    obtain rfl : path' = path := place
    refine ⟨_, [], ?_, continues_joined changes_it (last _ (by simp)) (.log gathers together)⟩
    rw [List.map_append]
    rfl
  | @extendsTrack before path' _ projectId existing entries =>
    obtain ⟨front, ⟨run, first, gathers⟩, rfl, rfl, rfl⟩ := split olds
    obtain ⟨⟨projectId', tracks⟩, -⟩ := Mutation.role_track hr
    have place : path' = op.path := here _ (List.mem_append_right _ (List.mem_singleton_self _))
    obtain ⟨path, m⟩ := op
    obtain rfl : m = .trackFiles projectId' entries := tracks
    obtain rfl : path' = path := place
    refine ⟨_, [], ?_, continues_joined changes_it (last _ (by simp)) (.track gathers)⟩
    rw [List.map_append]
    rfl

/-- A change goes on from the parts of the others. -/
theorem Traced.changed {t : Trace} (h : p.Traced taken t) {after : List Gathered} {dropped : List Operation}
    (goes_on : Continues taken op t.changes after dropped) {type : DataType} {n : Nat} :
    (⟨some type, p.deletes, after.map Gathered.op, p.configs, p.errors, n⟩ : Pending).Traced (taken ++ [op])
      ⟨t.deletes, after, t.configs, dropped ++ t.dropped⟩ where
  deletes := h.deletes
  changes := rfl
  configs := h.configs
  complete := by
    have complete := h.complete
    have more := goes_on.complete
    simp only [List.perm_iff_count, Trace.parts, sources_append, List.count_append] at complete more ⊢
    intro o
    have := complete o
    have := more o
    omega
  consecutive := by
    intro part member
    simp only [Trace.parts, List.mem_append] at member
    rcases member with (delete | change) | config
    · exact (h.consecutive part (by simp [Trace.parts, delete])).concat op
    · rcases goes_on.consecutive part change with old | new
      · exact (h.consecutive part (by simp [Trace.parts, old])).concat op
      · exact new
    · exact (h.consecutive part (by simp [Trace.parts, config])).concat op
  last := goes_on.last

/-- A configuration takes the place of the one before it. -/
theorem Traced.configured {t : Trace} (h : p.Traced taken t) (configures : op.configures = true)
    {type : DataType} :
    (⟨some type, p.deletes, p.changes, [op], p.errors, p.points⟩ : Pending).Traced (taken ++ [op])
      ⟨t.deletes, t.changes, [.single op], sources t.configs ++ t.dropped⟩ where
  deletes := h.deletes
  changes := h.changes
  configs := rfl
  complete := by
    have complete := h.complete
    simp only [List.perm_iff_count, Trace.parts, sources_append, List.count_append] at complete ⊢
    intro o
    have := complete o
    simp only [sources_cons, sources_nil, List.append_nil, Gathered.single]
    omega
  consecutive := by
    intro part member
    simp only [Trace.parts, List.mem_append, List.mem_singleton] at member
    rcases member with (delete | change) | rfl
    · exact (h.consecutive part (by simp [Trace.parts, delete])).concat op
    · exact (h.consecutive part (by simp [Trace.parts, change])).concat op
    · exact .inl rfl
  last := by
    rw [unconfigured_concat_config configures]
    exact h.last

/-- A deletion keeps one part of what it deletes, unless another one did before. -/
theorem Traced.deleted {t : Trace} (h : p.Traced taken t) :
    ∃ t', (⟨none, p.deletesAfter op, [], [], p.errors, 0⟩ : Pending).Traced (taken ++ [op]) t' := by
  have complete := h.complete
  simp only [List.perm_iff_count, Trace.parts, sources_append, List.count_append] at complete
  unfold deletesAfter
  split
  · next first =>
    have no_deletes : t.deletes = [] := List.map_eq_nil_iff.1 (h.deletes.trans first)
    have parted : sources ((t.changes ++ t.configs).take 1) ++ sources ((t.changes ++ t.configs).drop 1) =
        sources t.changes ++ sources t.configs := by
      rw [← sources_append, List.take_append_drop, sources_append]
    refine ⟨⟨(t.changes ++ t.configs).take 1 ++ [.single op], [], [],
      sources ((t.changes ++ t.configs).drop 1) ++ t.dropped⟩, ?_, rfl, rfl, ?_, ?_, by simp⟩
    · rw [List.map_append, List.map_take, List.map_append, h.changes, h.configs]
      rfl
    · rw [List.perm_iff_count]
      intro o
      have all := complete o
      have counted := congrArg (List.count o) parted
      simp only [List.count_append] at counted
      simp only [Trace.parts, sources_append, sources_cons, sources_nil, List.append_nil, List.count_append,
        no_deletes, List.count_nil, Gathered.single] at all ⊢
      omega
    · intro part member
      simp only [Trace.parts, List.append_nil, List.mem_append, List.mem_singleton] at member
      rcases member with kept | rfl
      · refine (h.consecutive part ?_).concat op
        rw [Trace.parts, no_deletes]
        exact List.mem_of_mem_take kept
      · exact .inl rfl
  · refine ⟨⟨t.deletes, [], [], sources t.changes ++ sources t.configs ++ [op] ++ t.dropped⟩, h.deletes, rfl, rfl,
      ?_, ?_, by simp⟩
    · rw [List.perm_iff_count]
      intro o
      have := complete o
      simp only [Trace.parts, List.append_nil, List.count_append]
      omega
    · intro part member
      simp only [Trace.parts, List.append_nil] at member
      exact (h.consecutive part (by simp [Trace.parts, member])).concat op

/-- **Every visit keeps what is pending traced**, with the operation among those accepted if it was. -/
theorem Traced.visited {t : Trace} {v : Except MergeError Visit} (h : p.Traced taken t)
    (aligned : p.Aligned path) (hop : op.path = path) (hv : Visited p op p' v) :
    (v = .ok .accepted → ∃ t', p'.Traced (taken ++ [op]) t') ∧ (v ≠ .ok .accepted → p'.Traced taken t) := by
  cases hv with
  | copy | waits | rejected =>
    exact ⟨fun accepted => absurd accepted (by simp),
      fun _ => ⟨h.deletes, h.changes, h.configs, h.complete, h.consecutive, h.last⟩⟩
  | changed hr _ _ combined =>
    refine ⟨fun _ => ?_, fun refused => absurd rfl refused⟩
    have here : ∀ part ∈ t.changes, part.op.path = op.path := by
      intro part member
      have pending : part.op ∈ p.changes := h.changes ▸ List.mem_map_of_mem member
      rw [hop]
      exact aligned.here part.op (mem_operations.2 (.inr (.inl pending)))
    rw [← h.changes] at combined
    obtain ⟨after, dropped, rfl, goes_on⟩ := combined.traced hr here h.last
    exact ⟨_, h.changed goes_on⟩
  | configured hr =>
    exact ⟨fun _ => ⟨_, h.configured (by simp [Operation.configures, hr])⟩, fun refused => absurd rfl refused⟩
  | deleted => exact ⟨fun _ => h.deleted, fun refused => absurd rfl refused⟩

/-- All operations of an attribute. -/
theorem traced_takeAll {ops : List Operation} (here : ∀ op ∈ ops, op.path = path) :
    ∃ t, (empty.takeAll ops).1.Traced (empty.takeAll ops).2 t := by
  have kept : (empty.takeAll ops).1.Aligned path ∧ ∃ t, (empty.takeAll ops).1.Traced (empty.takeAll ops).2 t := by
    refine takeAll_keeps (P := fun p taken => p.Aligned path ∧ ∃ t, p.Traced taken t) ?_ sound_empty here
      ⟨aligned_empty path, _, traced_empty⟩
    rintro p p' op v taken sound place ⟨aligned, t, traced⟩ hv
    have law := Pending.visited sound hv
    obtain ⟨accepted, refused⟩ := traced.visited aligned place law
    exact ⟨fun joins => ⟨aligned.visited place law, accepted joins⟩,
      fun waits => ⟨aligned.visited place law, t, refused waits⟩⟩
  exact kept.2

theorem Traced.comesFrom {t : Trace} (h : p.Traced taken t) : ComesFrom taken p.operations := by
  refine ⟨t.parts, t.dropped, ?_, h.complete, h.consecutive⟩
  rw [Trace.parts, List.map_append, List.map_append, h.deletes, h.changes, h.configs]
  exact .refl _

end Pending

/-! ## The whole batch -/

/-- The names of operations that ship files. -/
def Operation.uploadKinds : List String :=
  ["UploadFile", "UploadFileContent", "UploadFileSet"]

/-- The operations that travel in lists of their own are known by name, and so is a copy. -/
theorem Operation.class_iff_kind (op : Operation) :
    (op.isUpload = true ↔ op.kind ∈ uploadKinds) ∧ (op.isTrack = true ↔ op.kind = "TrackFilesToArtifact") ∧
      (op.isCopy = true ↔ op.kind = "CopyAttribute") := by
  obtain ⟨path, m⟩ := op
  cases m with
  | assign v => cases v <;> simp [isUpload, isTrack, isCopy, kind, Mutation.kind, uploadKinds]
  | log ps => cases ps <;> simp [isUpload, isTrack, isCopy, kind, Mutation.kind, uploadKinds]
  | clearLog k => cases k <;> simp [isUpload, isTrack, isCopy, kind, Mutation.kind, uploadKinds]
  | _ => simp [isUpload, isTrack, isCopy, kind, Mutation.kind, uploadKinds]

/-- There are no more operations than others if there are no more of them on any attribute. -/
theorem length_le_of_onPath {ops ops' : List Operation}
    (fewer : ∀ path, (onPath path ops).length ≤ (onPath path ops').length) : ops.length ≤ ops'.length := by
  have count (ops : List Operation) (path : AttributePath) :
      (ops.map Operation.path).count path = (onPath path ops).length := by
    rw [onPath, ← List.countP_eq_length_filter, List.count, List.countP_map]
    rfl
  have among : (ops.map Operation.path).Subperm (ops'.map Operation.path) := by
    refine List.subperm_ext_iff.2 fun path _ => ?_
    rw [count, count]
    exact fewer path
  simpa only [List.length_map] using among.length_le

namespace Merger

variable {m : Merger} {ops : List Operation}

/-- The operations of a batch are counted before it is finished as they are afterwards. -/
theorem length_finish (m : Merger) (errors : List Inconsistency) : m.length = (m.finish errors).length := by
  have lanes : (m.finish errors).operations = byLane m.operations := Bundle.operations_pushAll _
  rw [length_eq_flatMap, ← Bundle.length_operations, lanes, (perm_byLane _).length_eq]
  rfl

/-- Each list has its own kinds of operations. -/
theorem kinds_finish (m : Merger) (errors : List Inconsistency) :
    (∀ op ∈ (m.finish errors).uploads, op.kind ∈ Operation.uploadKinds) ∧
      (∀ op ∈ (m.finish errors).tracks, op.kind = "TrackFilesToArtifact") ∧
      ∀ op ∈ (m.finish errors).others, op.kind ∉ Operation.uploadKinds ∧ op.kind ≠ "TrackFilesToArtifact" := by
  have lane {n : Nat} {op : Operation} (member : op ∈ m.operations.filter (·.lane = n)) : op.lane = n :=
    of_decide_eq_true (List.mem_filter.1 member).2
  obtain ⟨uploads, tracks, others⟩ := lists_finish m errors
  rw [uploads, tracks, others]
  refine ⟨fun op member => ?_, fun op member => ?_, fun op member => ?_⟩
  · exact op.class_iff_kind.1.1 (Operation.isUpload_of_lane (lane member))
  · exact op.class_iff_kind.2.1.1 (Operation.isTrack_of_lane (lane member))
  · have plain := Operation.lane_eq_two_iff.1 (lane member)
    rw [Bool.or_eq_false_iff] at plain
    exact ⟨fun named => by simp [op.class_iff_kind.1.2 named] at plain,
      fun named => by simp [op.class_iff_kind.2.1.2 named] at plain⟩

/-- The lists of a batch go from one path to the next. -/
theorem grouped_finish (fresh : m.Fresh) (errors : List Inconsistency) :
    ∀ list ∈ [(m.finish errors).uploads, (m.finish errors).tracks, (m.finish errors).others],
      groupedBy (m.table.map Prod.fst) list = list := by
  obtain ⟨uploads, tracks, others⟩ := lists_finish m errors
  have lane (n : Nat) :
      groupedBy (m.table.map Prod.fst) (m.operations.filter (·.lane = n)) = m.operations.filter (·.lane = n) := by
    refine ByPath.groupedBy_eq ((byPath_operations fresh.sorted fresh.aligned).filter _)
      (List.pairwise_map.2 fresh.sorted) fun op member => ?_
    obtain ⟨entry, inside, pending⟩ := List.mem_flatMap.1 (List.mem_filter.1 member).1
    rw [path_of_mem fresh.sorted fresh.aligned entry inside op pending]
    exact List.mem_map_of_mem inside
  rw [uploads, tracks, others]
  simp only [List.mem_cons, List.not_mem_nil, or_false]
  rintro list (rfl | rfl | rfl) <;> exact lane _

/-- **What a batch sends on an attribute** comes from the operations that it accepted there. -/
theorem comesFrom_onPath (all : empty.processAll ops = (m, .ok ops.length)) (errors : List Inconsistency)
    (path : AttributePath) :
    ComesFrom (Pending.empty.takeAll (onPath path ops)).2 (onPath path (m.finish errors).operations) := by
  obtain ⟨t, traced⟩ := Pending.traced_takeAll fun op (member : op ∈ onPath path ops) => path_of_mem_onPath member
  have fresh := (exact_processAll all).fresh
  rw [onPath_finish fresh.sorted fresh.aligned, pending_processAll all]
  exact traced.comesFrom.perm (perm_byLane _).symm

/-- No copy is sent. -/
theorem isCopy_finish (all : empty.processAll ops = (m, .ok ops.length)) (errors : List Inconsistency) :
    ∀ op ∈ (m.finish errors).operations, op.isCopy = false := by
  have none_taken : ∀ op ∈ ops, op.isCopy = false := by
    have taken := isCopy_of_processAll (congrArg Prod.snd all)
    rwa [List.take_length] at taken
  intro op member
  refine (comesFrom_onPath all errors op.path).isCopy (fun source among => none_taken source ?_) op
    (mem_onPath.2 ⟨member, rfl⟩)
  exact (mem_onPath.1 ((Pending.empty.takeAll_sublist _).subset among)).1

/-- **What a batch sends, and where it comes from.** Of operations that all joined a batch, its lists have uploads
of files, tracked files, and others that are no copies, each in the order of the paths, with the operations of a
path together. On every path they come from those that were accepted there: each is one of them, or was joined
from logs or tracked files that follow each other. The operations are counted alike before and after the batch
is finished, and are not more than those that it was merged from. -/
theorem comesFrom_finish (all : empty.processAll ops = (m, .ok ops.length)) (errors : List Inconsistency) :
    let b := m.finish errors
    ((∀ op ∈ b.uploads, op.kind ∈ Operation.uploadKinds) ∧
        (∀ op ∈ b.tracks, op.kind = "TrackFilesToArtifact") ∧
        ∀ op ∈ b.others, op.kind ∉ Operation.uploadKinds ∧ op.kind ≠ "TrackFilesToArtifact" ∧
          op.kind ≠ "CopyAttribute") ∧
      (∃ paths, paths.Pairwise (fun path path' => path.order path' = .lt) ∧
        ∀ list ∈ [b.uploads, b.tracks, b.others], groupedBy paths list = list) ∧
      (∀ path, (Pending.empty.takeAll (onPath path ops)).2.Sublist (onPath path ops) ∧
        ComesFrom (Pending.empty.takeAll (onPath path ops)).2 (onPath path b.operations)) ∧
      m.length = b.length ∧ b.length ≤ b.sourceCount ∧ b.sourceCount = ops.length := by
  intro b
  have fresh := (exact_processAll all).fresh
  have count : b.sourceCount = ops.length := (processAll_joined all).count.trans (Nat.zero_add _)
  have accepted (path : AttributePath) := Pending.empty.takeAll_sublist (onPath path ops)
  have comes (path : AttributePath) := comesFrom_onPath all errors path
  obtain ⟨uploads, tracks, others⟩ := kinds_finish m errors
  refine ⟨⟨uploads, tracks, fun op member => ?_⟩,
    ⟨_, List.pairwise_map.2 fresh.sorted, grouped_finish fresh errors⟩,
    fun path => ⟨accepted path, comes path⟩, length_finish m errors, ?_, count⟩
  · obtain ⟨no_upload, no_track⟩ := others op member
    refine ⟨no_upload, no_track, fun copy => ?_⟩
    have none_such := isCopy_finish all errors op (List.mem_append_right _ member)
    rw [op.class_iff_kind.2.2.2 copy] at none_such
    cases none_such
  · rw [count, ← Bundle.length_operations]
    exact length_le_of_onPath fun path => Nat.le_trans (comes path).length_le (accepted path).length_le

/-- A series is logged, configured and logged again, and a file is uploaded elsewhere. -/
def loggedTwice : List Operation :=
  let a := AttributePath.single "a"
  let point : Point Binary64 := ⟨.infinite false, none, .infinite true⟩
  [⟨a, .log (.floats [point])⟩, ⟨.single "b", .uploadFile "txt" "f" false⟩,
    ⟨a, .configFloatSeries none none none⟩, ⟨a, .log (.floats [point, point])⟩]

/-- The two logs are sent as one, so three operations are sent for four. -/
theorem comesFrom_finish_loggedTwice :
    let a := AttributePath.single "a"
    let taken := loggedTwice.filter (·.path = a)
    ∃ m, empty.processAll loggedTwice = (m, .ok 4) ∧ (m.finish []).length = 3 ∧ (m.finish []).sourceCount = 4 ∧
      (Pending.empty.takeAll (onPath a loggedTwice)).2 = taken ∧
      ComesFrom (Pending.empty.takeAll (onPath a loggedTwice)).2 (onPath a (m.finish []).operations) := by
  intro a taken
  have all : empty.processAll loggedTwice = (_, .ok 4) := rfl
  obtain ⟨-, -, comes, -, -, count⟩ := comesFrom_finish all []
  exact ⟨_, all, rfl, count, by decide, (comes a).2⟩

end Merger

end Outbox
