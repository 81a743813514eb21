import Outbox.Proofs.Batch.Coverage
import Outbox.Proofs.Merge.Counting

/-!
# Copies only lead a batch

A copy stands for the value that its source has when the copy is sent, so the service must not be asked for it
while something is collected that was not sent yet. The service is asked for a copy only if all records of the
batch before it were copies that were given up. A copy that is resolved is the first operation of its batch.

* `Backend.Resolves`, `Backend.GivesUp` and `Backend.NotReached` are the answers to a copy, in terms of what the
  service tells about the source; `Backend.asked` says that there are no others;
* `Collecting.Joins` and `Collecting.Dealt` list what can become of one operation and of one record;
* `Batch.Made` says what a batch is made of: copies given up, and operations merged, a copy only first among them;
  `Collecting.Made` is the same of a batch in the making, `MadeOf.take` the law of one record and `Took.made` that
  of all records that a call takes;
* `CopiesLead` is what one call does, `CopiesLeadAll` any number of calls, and `copiesLeadAll_collectCalls` is the
  result. The requests of a call are linked by the states of the service, from the one before the call to the
  one after it, so there are no requests but those listed.
-/

namespace Outbox

variable {ρ σ : Type}

/-! ## What copies stand for -/

/-- The name of the operations that a copy of this kind takes over. -/
def CopyKind.variant : CopyKind → String
  | .float => "AssignFloat"
  | .int => "AssignInt"
  | .bool => "AssignBool"
  | .string => "AssignString"
  | .datetime => "AssignDatetime"
  | .artifact => "AssignArtifact"
  | .stringSet => "AddStrings"

/-- A copy takes over just the operations of one name. -/
theorem CopyKind.fits_iff {kind : CopyKind} {m : Mutation} : kind.fits m = true ↔ m.kind = kind.variant := by
  cases m with
  | assign v => cases v <;> cases kind <;> simp [fits, Mutation.kind, variant]
  | log ps => cases ps <;> cases kind <;> simp [fits, Mutation.kind, variant]
  | clearLog k => cases k <;> cases kind <;> simp [fits, Mutation.kind, variant]
  | _ => cases kind <;> simp [fits, Mutation.kind, variant]

/-- What a copy takes over is an assignment or adds strings. -/
theorem CopyKind.cases_of_variant {kind : CopyKind} {m : Mutation} (named : m.kind = kind.variant) :
    (∃ v, m = .assign v) ∨ ∃ vs, m = .addStrings vs := by
  rw [← fits_iff] at named
  cases m with
  | assign v => exact .inl ⟨v, rfl⟩
  | addStrings vs => exact .inr ⟨vs, rfl⟩
  | _ => cases kind <;> cases named

namespace Backend

variable (b : Backend σ)

/-- A copy becomes the operation that it stands for: on the path of the copy, of the name that belongs to its
kind, with the value that the service tells. -/
inductive Resolves (s : σ) (r : Queued) : Operation → σ → Prop
  | told {source : CopySource} {fetched : Operation} {s' : σ} : r.op.mutation = .copy source →
      b.fetch s source = (s', .ok fetched) → fetched.kind = source.kind.variant →
      Resolves s r ⟨r.op.path, fetched.mutation⟩ s'

/-- A copy is given up, with this report: the service fails to tell the source for good, or tells a value that
belongs to another kind. -/
inductive GivesUp (s : σ) (r : Queued) : Inconsistency → σ → Prop
  | refused {source : CopySource} {e : BackendError} {s' : σ} : r.op.mutation = .copy source →
      b.fetch s source = (s', .error e) → e.isRetryable = false →
      GivesUp s r (Collecting.copyFailure r.op.path e) s'
  | other {source : CopySource} {fetched : Operation} {s' : σ} : r.op.mutation = .copy source →
      b.fetch s source = (s', .ok fetched) → fetched.kind ≠ source.kind.variant →
      GivesUp s r ⟨r.op.path, "Cannot copy " ++ source.path.display ++ " as " ++ source.kind.name ++
        ": source holds " ++ fetched.kind⟩ s'

/-- The service is not reached for a copy. -/
inductive NotReached (s : σ) (r : Queued) : BackendError → σ → Prop
  | failed {source : CopySource} {e : BackendError} {s' : σ} : r.op.mutation = .copy source →
      b.fetch s source = (s', .error e) → e.isRetryable = true → NotReached s r e s'

/-- Copies are given up one after the other, with one report each. -/
inductive GivesUpAll : σ → List Queued → List Inconsistency → σ → Prop
  | nothing {s : σ} : GivesUpAll s [] [] s
  | next {s s' s'' : σ} {rs : List Queued} {r : Queued} {reports : List Inconsistency}
      {report : Inconsistency} : GivesUpAll s rs reports s' → b.GivesUp s' r report s'' →
      GivesUpAll s (rs ++ [r]) (reports ++ [report]) s''

variable {b}

/-- Without a copy the service is where it was. -/
theorem GivesUpAll.still {s s' : σ} {reports : List Inconsistency}
    (h : b.GivesUpAll s [] reports s') : s' = s := by
  generalize none_given_up : ([] : List Queued) = rs at h
  cases h with
  | nothing => rfl
  | next => simp at none_given_up

theorem NotReached.isCopy {s s' : σ} {r : Queued} {e : BackendError} (h : b.NotReached s r e s') :
    r.op.isCopy = true := by
  cases h with
  | failed copy => simp [Operation.isCopy, copy]

/-- **What the service is asked for a copy**, and what follows from the answer. -/
theorem asked {s : σ} {r : Queued} (copy : r.op.isCopy = true) :
    (∃ op s', b.Resolves s r op s' ∧ b.resolve s r.op = (s', .ok op)) ∨
      (∃ e s', b.GivesUp s r (Collecting.copyFailure r.op.path e) s' ∧ e.isRetryable = false ∧
        b.resolve s r.op = (s', .error e)) ∨
      ∃ e s', b.NotReached s r e s' ∧ e.isRetryable = true ∧ b.resolve s r.op = (s', .error e) := by
  obtain ⟨source, is_copy⟩ : ∃ source, r.op.mutation = .copy source := by
    unfold Operation.isCopy at copy
    split at copy
    · next source is_copy => exact ⟨source, is_copy⟩
    · cases copy
  rcases told : b.fetch s source with ⟨s', e | fetched⟩
  · have result : b.resolve s r.op = (s', .error e) := by simp only [resolve, is_copy, told]
    cases retryable : e.isRetryable with
    | false => exact .inr (.inl ⟨e, s', .refused is_copy told retryable, retryable, result⟩)
    | true => exact .inr (.inr ⟨e, s', .failed is_copy told retryable, retryable, result⟩)
  · have result : b.resolve s r.op = (s', source.retarget r.op.path fetched) := by
      simp only [resolve, is_copy, told]
    by_cases fits : source.kind.fits fetched.mutation = true
    · refine .inl ⟨_, s', .told is_copy told (CopyKind.fits_iff.1 fits), ?_⟩
      rw [result, CopySource.retarget, if_pos fits]
    · rw [CopySource.retarget, if_neg fits] at result
      exact .inr (.inl ⟨.inconsistent _, s', .other is_copy told (mt CopyKind.fits_iff.2 fits), rfl, result⟩)

/-- A copy that is resolved is none any more, and carries no points. -/
theorem Resolves.plain {s s' : σ} {r : Queued} {op : Operation} (h : b.Resolves s r op s') :
    r.op.isCopy = true ∧ op.path = r.op.path ∧ op.isCopy = false ∧ op.isLog = false ∧ op.points = 0 := by
  cases h with
  | told copy _ named =>
    rcases CopyKind.cases_of_variant named with ⟨v, assigns⟩ | ⟨vs, adds⟩
    · simp [Operation.isCopy, Operation.isLog, Operation.points, copy, assigns]
    · simp [Operation.isCopy, Operation.isLog, Operation.points, copy, adds]

end Backend

/-! ## One record -/

namespace Collecting

variable {b : Backend σ} {limits : Limits} {s s' : σ} {c c' : Collecting} {r : Queued} {op : Operation}
  {taken : Taken} {run : List Queued}

/-- What becomes of an operation that a record stands for. -/
inductive Joins (limits : Limits) (c : Collecting) (r : Queued) (op : Operation) : Taken → Prop
  | merged {m : Merger} : limits.admit c.merger op = true → c.merger.process op = (m, .ok true) →
      Joins limits c r op (.covered ⟨m, c.errors, c.dropped, some r.version⟩)
  /-- A limit would be broken. -/
  | full : limits.admit c.merger op = false → Joins limits c r op (.kept c)
  /-- The attribute is to be deleted before. -/
  | waits : (op.isUpload || op.isTrack) = true → (c.merger.pending op.path).deletes ≠ [] →
      Joins limits c r op (.kept c)

theorem joins_join (sound : c.merger.Sound) (regular : c.merger.Regular) (plain : op.isCopy = false)
    (limits : Limits) (r : Queued) : c.Joins limits r op (c.join limits r op) := by
  unfold join
  split
  · next admitted =>
    rcases joined : c.merger.process op with ⟨m, result⟩
    obtain ⟨-, ⟨rfl, -⟩ | ⟨rfl, -⟩⟩ := Merger.processed sound plain joined
    · exact .merged admitted joined
    · obtain ⟨rfl, file, pending⟩ := Merger.process_eq_waits sound regular joined
      exact .waits file pending
  · next refused => exact .full (Bool.eq_false_iff.2 refused)

/-- What becomes of a record, and of the service that may be asked for it. -/
inductive Dealt (b : Backend σ) (limits : Limits) (s : σ) (c : Collecting) (r : Queued) : σ → Taken → Prop
  | plain {taken : Taken} : r.op.isCopy = false → c.Joins limits r r.op taken → Dealt b limits s c r s taken
  /-- Something was merged before the copy. -/
  | late : r.op.isCopy = true → c.merger.sourceCount ≠ 0 → Dealt b limits s c r s (.kept c)
  | resolved {op : Operation} {s' : σ} {taken : Taken} : c.merger.sourceCount = 0 → b.Resolves s r op s' →
      c.Joins limits r op taken → Dealt b limits s c r s' taken
  | givenUp {report : Inconsistency} {s' : σ} : c.merger.sourceCount = 0 → b.GivesUp s r report s' →
      Dealt b limits s c r s' (.covered ⟨c.merger, c.errors ++ [report], c.dropped + 1, some r.version⟩)
  | unreached {e : BackendError} {s' : σ} : c.merger.sourceCount = 0 → b.NotReached s r e s' →
      Dealt b limits s c r s' (.unreached e)

/-- **A record is dealt with in one of these ways.** -/
theorem dealt (sound : c.merger.Sound) (regular : c.merger.Regular)
    (taken_eq : c.take b limits s r = (s', taken)) : c.Dealt b limits s r s' taken := by
  unfold take at taken_eq
  split at taken_eq
  · next copy =>
    split at taken_eq
    · next first =>
      rcases Backend.asked (b := b) (s := s) copy with
        ⟨op, s₁, resolves, result⟩ | ⟨e, s₁, givesUp, final, result⟩ | ⟨e, s₁, notReached, retryable, result⟩
      · rw [result] at taken_eq
        cases taken_eq
        exact .resolved first resolves (joins_join sound regular resolves.plain.2.2.1 limits r)
      · rw [result] at taken_eq
        simp only [final, Bool.false_eq_true, if_false] at taken_eq
        cases taken_eq
        exact .givenUp first givesUp
      · rw [result] at taken_eq
        simp only [retryable, if_true] at taken_eq
        cases taken_eq
        exact .unreached first notReached
    · next merged =>
      cases taken_eq
      exact .late copy merged
  · next plain =>
    cases taken_eq
    rw [Bool.not_eq_true] at plain
    exact .plain plain (joins_join sound regular plain limits r)

end Collecting

/-- Only a batch that something was merged to keeps a record out. -/
theorem Collecting.Dealt.kept {b : Backend σ} {limits : Limits} {s s' : σ} {c c' : Collecting} {r : Queued}
    (fresh : c.merger.sourceCount = 0 → c.merger = .empty) (deals : c.Dealt b limits s r s' (.kept c')) :
    c' = c ∧ s' = s ∧ c.merger.sourceCount ≠ 0 := by
  have merged {op : Operation} (joins : c.Joins limits r op (.kept c')) :
      c' = c ∧ c.merger.sourceCount ≠ 0 := by
    cases joins with
    | full refused =>
      refine ⟨rfl, fun first => ?_⟩
      simp [first, Limits.admit] at refused
    | waits _ pending =>
      refine ⟨rfl, fun first => ?_⟩
      rw [fresh first] at pending
      exact pending rfl
  cases deals with
  | plain _ joins =>
    obtain ⟨same, something⟩ := merged joins
    exact ⟨same, rfl, something⟩
  | late _ something => exact ⟨rfl, rfl, something⟩
  | resolved first _ joins => exact absurd first (merged joins).2

/-! ## Batches -/

/-- Records stand for operations: for their own, but the first record may be a copy that is resolved. -/
inductive Backend.StandFor (b : Backend σ) (s : σ) : List Queued → List Operation → σ → Prop
  | plain {rs : List Queued} : (∀ r ∈ rs, r.op.isCopy = false) → StandFor b s rs (rs.map Queued.op) s
  | copy {r : Queued} {op : Operation} {rs : List Queued} {s' : σ} : b.Resolves s r op s' →
      (∀ r' ∈ rs, r'.op.isCopy = false) → StandFor b s (r :: rs) (op :: rs.map Queued.op) s'

theorem Backend.StandFor.length {b : Backend σ} {s s' : σ} {rs : List Queued} {ops : List Operation}
    (h : b.StandFor s rs ops s') : ops.length = rs.length := by
  cases h with
  | plain => exact List.length_map _
  | copy => exact congrArg (· + 1) (List.length_map _)

/-- Behind what was merged, a record that is no copy stands for its operation. -/
theorem Backend.StandFor.concat {b : Backend σ} {s s' : σ} {rs : List Queued} {ops : List Operation}
    (h : b.StandFor s rs ops s') {r : Queued} (plain : r.op.isCopy = false) :
    b.StandFor s (rs ++ [r]) (ops ++ [r.op]) s' := by
  have all_plain {rs : List Queued} (before : ∀ r' ∈ rs, r'.op.isCopy = false) :
      ∀ r' ∈ rs ++ [r], r'.op.isCopy = false := by
    intro r' member
    rcases List.mem_append.1 member with early | last
    · exact before r' early
    · exact List.mem_singleton.1 last ▸ plain
  cases h with
  | @plain _ before =>
    have stands := StandFor.plain (b := b) (s := s) (all_plain before)
    rwa [List.map_append] at stands
  | copy resolves before =>
    have stands := StandFor.copy resolves (all_plain before)
    rwa [List.map_append] at stands

/-- What a batch is made of, and which requests the service answered for it. The copies that were given up come
first, each with a report in front of those of the merged operations. -/
structure Batch.Made (b : Backend σ) (s : σ) (batch : Batch) (dropped consumed : List Queued) (s' : σ) :
    Prop where
  covers : batch.Covers (dropped ++ consumed)
  count : batch.dropped = dropped.length
  merged : ∃ reports s₁ ops m, b.GivesUpAll s dropped reports s₁ ∧ b.StandFor s₁ consumed ops s' ∧
    Merger.empty.processAll ops = (m, .ok ops.length) ∧
    batch.bundle = { m.finish [] with errors := reports ++ (m.finish []).errors }

namespace Collecting

/-- What a batch in the making is made of. -/
structure Made (b : Backend σ) (s₀ : σ) (c : Collecting) (dropped consumed : List Queued) (s : σ) : Prop where
  count : c.dropped = dropped.length
  merged : ∃ s₁ ops, b.GivesUpAll s₀ dropped c.errors s₁ ∧ b.StandFor s₁ consumed ops s ∧
    Merger.empty.processAll ops = (c.merger, .ok ops.length)

variable {b : Backend σ} {limits : Limits} {s₀ s s' : σ} {c c' : Collecting} {r : Queued}
  {dropped consumed : List Queued}

theorem made_empty (b : Backend σ) (s : σ) : empty.Made b s [] [] s :=
  ⟨rfl, s, [], .nothing, .plain fun _ member => absurd member List.not_mem_nil, rfl⟩

theorem Made.exact (h : c.Made b s₀ dropped consumed s) : c.merger.Exact := by
  obtain ⟨-, s₁, ops, -, -, all⟩ := h
  exact Merger.exact_processAll all

/-- So many operations were merged. -/
theorem Made.sourceCount (h : c.Made b s₀ dropped consumed s) : c.merger.sourceCount = consumed.length := by
  obtain ⟨-, s₁, ops, -, stands, all⟩ := h
  rw [(Merger.processAll_joined all).count, stands.length]
  exact Nat.zero_add _

/-- Without a request the service is where it was. -/
theorem Made.still (h : c.Made b s₀ [] [] s) : s = s₀ := by
  obtain ⟨-, s₁, ops, givenUp, stands, -⟩ := h
  cases stands
  exact givenUp.still

/-- **One more record is covered**: it is merged, or it is a copy and given up. -/
theorem Made.covered (h : c.Made b s₀ dropped consumed s) (deals : c.Dealt b limits s r s' (.covered c')) :
    (c'.Made b s₀ dropped (consumed ++ [r]) s') ∨ (consumed = [] ∧ c'.Made b s₀ (dropped ++ [r]) [] s') := by
  have count := h.sourceCount
  obtain ⟨dropped_count, s₁, ops, givenUp, stands, all⟩ := h
  -- before the first operation is merged
  have nothing (first : c.merger.sourceCount = 0) : consumed = [] ∧ ops = [] ∧ s₁ = s := by
    obtain rfl : consumed = [] := List.length_eq_zero_iff.1 (count.symm.trans first)
    cases stands
    exact ⟨rfl, rfl, rfl⟩
  cases deals with
  | plain plain joins =>
    cases joins with
    | merged _ merges =>
      exact .inl ⟨dropped_count, s₁, ops ++ [r.op], givenUp, stands.concat plain,
        Merger.processAll_concat all merges⟩
  | resolved first resolves joins =>
    obtain ⟨rfl, rfl, rfl⟩ := nothing first
    cases joins with
    | merged _ merges =>
      have alone : b.StandFor s₁ [r] [_] s' := .copy resolves fun _ member => absurd member List.not_mem_nil
      exact .inl ⟨dropped_count, s₁, [_], givenUp, alone, Merger.processAll_concat all merges⟩
  | givenUp first report =>
    obtain ⟨rfl, rfl, rfl⟩ := nothing first
    refine .inr ⟨rfl, ?_, s', [], givenUp.next report, ?_, all⟩
    · rw [List.length_append, ← dropped_count]
      rfl
    · exact .plain fun _ member => absurd member List.not_mem_nil

/-- The batch is made of what the batch in the making was. -/
theorem Made.finish (h : c.Made b s₀ dropped consumed s) {batch : Batch} (finished : c.finish = some batch)
    (covers : batch.Covers (dropped ++ consumed)) : batch.Made b s₀ dropped consumed s := by
  obtain ⟨dropped_count, s₁, ops, givenUp, stands, all⟩ := h
  obtain ⟨version, -, rfl⟩ := Option.map_eq_some_iff.1 finished
  exact ⟨covers, dropped_count, c.errors, s₁, ops, c.merger, givenUp, stands, all, rfl⟩

end Collecting

/-- A batch in the making covers these records, and is made of them. -/
def Collecting.MadeOf (b : Backend σ) (s₀ s : σ) (c : Collecting) (run : List Queued) : Prop :=
  c.Covers run ∧ ∃ dropped consumed, run = dropped ++ consumed ∧ c.Made b s₀ dropped consumed s

theorem Collecting.madeOf_empty (b : Backend σ) (s : σ) : empty.MadeOf b s s [] :=
  ⟨covers_empty, [], [], rfl, made_empty b s⟩

theorem Collecting.MadeOf.exact {b : Backend σ} {s₀ s : σ} {c : Collecting} {run : List Queued}
    (h : c.MadeOf b s₀ s run) : c.merger.Exact := by
  obtain ⟨-, dropped, consumed, -, made⟩ := h
  exact made.exact

/-- **Every record that is taken keeps what a batch is made of.** -/
theorem Collecting.MadeOf.take {b : Backend σ} {limits : Limits} {s₀ s s' : σ} {c c' : Collecting}
    {run : List Queued} {r : Queued} (h : c.MadeOf b s₀ s run)
    (taken : c.take b limits s r = (s', .covered c')) : c'.MadeOf b s₀ s' (run ++ [r]) := by
  have regular := h.exact.regular
  obtain ⟨covers, dropped, consumed, rfl, made⟩ := h
  refine ⟨covers.dealt taken, ?_⟩
  rcases made.covered (Collecting.dealt covers.sound regular taken) with merged | ⟨rfl, givenUp⟩
  · exact ⟨dropped, consumed ++ [r], List.append_assoc _ _ _, merged⟩
  · exact ⟨dropped ++ [r], [], by simp, givenUp⟩

/-- What a call took, its batch in the making is made of. -/
theorem Took.made {src : Source ρ} {b : Backend σ} {limits : Limits} {x y : Going ρ σ} {rs : List Queued}
    (took : Took src b limits x rs y) (start : x.batch = .empty) :
    y.batch.MadeOf b x.service y.service rs := by
  have begins : x.batch.MadeOf b x.service x.service [] := by
    rw [start]
    exact Collecting.madeOf_empty b x.service
  exact took.keeps (P := fun s c run => c.MadeOf b x.service s run) Collecting.MadeOf.take begins

/-! ## Calls -/

/-- What one call answers when these records are in no batch yet, from where the service is then to where it is
afterwards, and which records are left. -/
inductive CopiesLead (b : Backend σ) (s : σ) :
    List Queued → Except DeliveryError (Option Batch) → σ → List Queued → Prop
  | drained : CopiesLead b s [] (.ok none) s []
  /-- Copies alone are a batch only if there are no more records. -/
  | batch {batch : Batch} {dropped consumed rest : List Queued} {s' : σ} :
      batch.Made b s dropped consumed s' → (consumed = [] → rest = []) →
      CopiesLead b s (dropped ++ consumed ++ rest) (.ok (some batch)) s' rest
  /-- The service is not reached for one more copy behind those that were given up. -/
  | stopped {batch : Batch} {dropped rest : List Queued} {r : Queued} {e : BackendError} {s' s'' : σ} :
      batch.Made b s dropped [] s' → b.NotReached s' r e s'' →
      CopiesLead b s (dropped ++ r :: rest) (.ok (some batch)) s'' (r :: rest)
  | unreached {rest : List Queued} {r : Queued} {e : BackendError} {s' : σ} : b.NotReached s r e s' →
      CopiesLead b s (r :: rest) (.error (.backend e)) s' (r :: rest)

variable {src : Source ρ} {left : ρ → List Queued → Prop}

/-- **Copies only lead the batch of a call**, whatever the service answers. -/
theorem copiesLead_collect (yields : src.Yields left) (b : Backend σ) (limits : Limits)
    (stash : Option Queued) {source : ρ} {rest : List Queued} (hleft : left source rest) {s : σ} {call : Collected ρ σ}
    (called : collect src b limits stash source s = call) :
    ∃ rest', left call.source rest' ∧
      CopiesLead b s (stash.toList ++ rest) call.result call.backend (call.stash.toList ++ rest') := by
  have bounded := yields.bounded hleft
  have kept : stash.toList.length ≤ 1 := by cases stash <;> simp
  obtain ⟨rs, y, before, rest', took, split, hleft', stops⟩ :=
    collectFrom_stops yields b limits ⟨.empty, stash, source, s⟩ hleft
      (show stash.toList.length + rest.length < src.bound source + 2 by omega) called
  obtain ⟨covers, dropped, consumed, rfl, made⟩ := took.made rfl
  refine ⟨rest', hleft', ?_⟩
  rw [show stash.toList ++ rest = _ from split]
  replace made : y.batch.Made b s dropped consumed y.service := made
  have deal {r : Queued} {s' : σ} {taken : Taken} (deals : y.batch.take b limits y.service r = (s', taken)) :=
    Collecting.dealt covers.sound made.exact.regular deals
  generalize call.result = result, call.backend = s', call.stash.toList ++ rest' = after at stops ⊢
  cases stops with
  | drained =>
    rcases covers.finish with ⟨unfinished, nothing⟩ | ⟨batch, finished, covers⟩
    · obtain ⟨rfl, rfl⟩ := List.append_eq_nil_iff.1 nothing
      rw [unfinished, made.still]
      exact .drained
    · rw [finished]
      exact .batch (made.finish finished covers) fun _ => rfl
  | @kept r rest _ c' deals =>
    obtain ⟨rfl, rfl, something⟩ := (deal deals).kept covers.fresh
    have consumes : consumed ≠ [] := by
      rintro rfl
      exact something made.sourceCount
    rcases covers.finish with ⟨-, nothing⟩ | ⟨batch, finished, covers⟩
    · exact absurd (List.append_eq_nil_iff.1 nothing).2 consumes
    · rw [finished]
      exact .batch (made.finish finished covers) fun nothing => absurd nothing consumes
  | failed deals =>
    cases deal deals with
    | plain _ joins | resolved _ _ joins => cases joins
  | shipped deals finished =>
    cases deal deals with
    | plain _ joins | resolved _ _ joins => cases joins
    | unreached first notReached =>
      obtain rfl : consumed = [] := List.length_eq_zero_iff.1 (made.sourceCount.symm.trans first)
      rcases covers.finish with ⟨unfinished, -⟩ | ⟨batch, finished', covers⟩
      · cases unfinished.symm.trans finished
      · cases finished'.symm.trans finished
        rw [List.append_nil]
        exact .stopped (made.finish finished covers) notReached
  | unreached deals unfinished =>
    cases deal deals with
    | plain _ joins | resolved _ _ joins => cases joins
    | unreached first notReached =>
      rcases covers.finish with ⟨-, nothing⟩ | ⟨batch, finished, -⟩
      · obtain ⟨rfl, rfl⟩ := List.append_eq_nil_iff.1 nothing
        rw [made.still] at notReached
        exact .unreached notReached
      · cases unfinished.symm.trans finished

/-! ## Any number of calls -/

/-- Calls in turn. The service is in the given states when they begin, so that anything may have happened to it
between two calls. Gives what each call leaves behind and answers. -/
def collectCalls (src : Source ρ) (b : Backend σ) (limits : Limits) (stash : Option Queued) (source : ρ) :
    List σ → List (Collected ρ σ)
  | [] => []
  | s :: states =>
    let call := collect src b limits stash source s
    call :: collectCalls src b limits call.stash call.source states

/-- What calls in turn answer when these records are in no batch yet: each call goes on with the records that
the one before left, those kept and those not read. -/
inductive CopiesLeadAll (left : ρ → List Queued → Prop) (b : Backend σ) :
    List Queued → List σ → List (Collected ρ σ) → Prop
  | nil {records : List Queued} : CopiesLeadAll left b records [] []
  | cons {records rest : List Queued} {s : σ} {states : List σ} {call : Collected ρ σ}
      {calls : List (Collected ρ σ)} : left call.source rest →
      CopiesLead b s records call.result call.backend (call.stash.toList ++ rest) →
      CopiesLeadAll left b (call.stash.toList ++ rest) states calls →
      CopiesLeadAll left b records (s :: states) (call :: calls)

/-- The calls go on so from any state between two of them. -/
theorem copiesLeadAll_from (yields : src.Yields left) (b : Backend σ) (limits : Limits) (states : List σ)
    (stash : Option Queued) {source : ρ} {rest : List Queued} (hleft : left source rest) :
    CopiesLeadAll left b (stash.toList ++ rest) states (collectCalls src b limits stash source states) := by
  induction states generalizing stash source rest with
  | nil => exact .nil
  | cons s states ih =>
    obtain ⟨rest', hleft', first⟩ := copiesLead_collect yields b limits stash hleft (s := s) rfl
    exact .cons hleft' first (ih _ hleft')

/-- **Copies only lead a batch.** However often batches are collected, the service is asked for a copy only if
the batches before and the copies given up in this one cover all records before it. A batch has at most one copy
that is resolved, as its first operation; a copy that is given up is in no batch, and each is reported once. -/
theorem copiesLeadAll_collectCalls (yields : src.Yields left) (b : Backend σ) (limits : Limits)
    (states : List σ) {source : ρ} {records : List Queued} (hleft : left source records) :
    CopiesLeadAll left b records states (collectCalls src b limits none source states) := by
  simpa only [Option.toList_none, List.nil_append] using
    copiesLeadAll_from yields b limits states none hleft

/-- The first call does not reach the service, and the second one resolves the copy. -/
theorem copiesLeadAll_copyAndChanges :
    CopiesLeadAll (fun source rest => source = rest.map Except.ok) slowToStart copyAndChanges [0, 1, 2, 3]
      (collectCalls feed slowToStart ⟨0, 0, 0⟩ none (copyAndChanges.map .ok) [0, 1, 2, 3]) :=
  copiesLeadAll_collectCalls feed_yields slowToStart ⟨0, 0, 0⟩ [0, 1, 2, 3] rfl

end Outbox
