import Outbox.Batch.Sources
import Outbox.Proofs.Batch.Calls
import Outbox.Proofs.Merge.Uploads

/-!
# Batches cover the records

Collecting again and again takes the records of a source in their order, each of them once, and every
record is covered by one batch. Nothing is lost where a call ends early: a record that was read and
is in no batch is kept for the next call.

* `Source.Yields` says of a source which records are left in it;
* `Batch.Covers` says which stretch of records a batch stands for, and `Collecting.Covers` the same of
  a batch in the making; `Collecting.extends_take` is the law of one record;
* `StopsAt` is how a call ends, by the records that are left, and `collectFrom_stops` says that a call takes the
  first of them and ends so;
* `Collects` is what one call does with the records that are left, and `collects_collect` says that
  it does;
* `CollectsAll` and `collectTimes` are any number of calls, and `collectsAll_collectTimes` is the main
  statement.
-/

namespace Outbox

variable {ρ σ : Type}

/-! ## Sources -/

/-- The reads of a source do not fail: in every state it gives the records that are left in turn,
and then none. -/
structure Source.Yields (src : Source ρ) (left : ρ → List Queued → Prop) : Prop where
  drained : ∀ {s : ρ}, left s [] → ∃ s', src.next s = (s', .ok none) ∧ left s' []
  reads : ∀ {s : ρ} {r : Queued} {rs : List Queued}, left s (r :: rs) →
    ∃ s', src.next s = (s', .ok (some r)) ∧ left s' rs
  bounded : ∀ {s : ρ} {rs : List Queued}, left s rs → rs.length ≤ src.bound s

/-- A list without failures yields its records. -/
theorem feed_yields : feed.Yields fun s rs => s = rs.map .ok where
  drained := by
    rintro s rfl
    exact ⟨[], rfl, rfl⟩
  reads := by
    rintro s r rs rfl
    exact ⟨rs.map .ok, rfl, rfl⟩
  bounded := by
    rintro s rs rfl
    simp [feed]

/-! ## Batches and their records -/

/-- The number of records that a batch stands for. -/
def Batch.size (batch : Batch) : Nat :=
  batch.bundle.sourceCount + batch.dropped

/-- A batch stands for a stretch of records, which is not empty: its version is that of the last of
them, and each of them was either merged or dropped. It uploads what they upload. -/
structure Batch.Covers (b : Batch) (run : List Queued) : Prop where
  nonempty : run ≠ []
  version : run.getLast?.map Queued.version = some b.version
  counted : b.bundle.sourceCount + b.dropped = run.length
  uploads : ∀ op ∈ b.bundle.uploads, ∃ r ∈ run, r.op = op

namespace Collecting

/-- A batch in the making stands for a stretch of records. -/
structure Covers (c : Collecting) (run : List Queued) : Prop where
  sound : c.merger.Sound
  fresh : c.merger.sourceCount = 0 → c.merger = .empty
  counted : c.merger.sourceCount + c.dropped = run.length
  version : c.version = run.getLast?.map Queued.version
  uploads : c.merger.Uploads fun op => ∃ r ∈ run, r.op = op

theorem covers_empty : empty.Covers [] :=
  ⟨Merger.sound_empty, fun _ => rfl, rfl, rfl, Merger.uploads_empty _⟩

/-- A batch that covers some records is given out, and no other. -/
theorem Covers.finish {c : Collecting} {run : List Queued} (h : c.Covers run) :
    (c.finish = none ∧ run = []) ∨ ∃ batch, c.finish = some batch ∧ batch.Covers run := by
  cases hv : c.version with
  | none =>
    have none_last := h.version
    rw [hv, eq_comm, Option.map_eq_none_iff, List.getLast?_eq_none_iff] at none_last
    exact .inl ⟨by simp [Collecting.finish, hv], none_last⟩
  | some v =>
    have last := h.version
    rw [hv] at last
    refine .inr ⟨⟨c.merger.finish c.errors, c.dropped, v⟩, by simp [Collecting.finish, hv], ?_⟩
    refine ⟨?_, last.symm, h.counted, fun op mem => h.uploads.finish c.errors mem⟩
    rintro rfl
    simp at last

/-- A record that is merged is covered with those before it. -/
theorem Covers.join {c : Collecting} {run : List Queued} (h : c.Covers run) (r : Queued)
    {m : Merger} (sound : m.Sound) (count : m.sourceCount = c.merger.sourceCount + 1)
    (uploads : m.Uploads fun op => ∃ r' ∈ run ++ [r], r'.op = op) :
    ({ c with merger := m, version := some r.version } : Collecting).Covers (run ++ [r]) where
  sound := sound
  fresh := by
    intro zero
    rw [count] at zero
    cases zero
  counted := by
    have counted := h.counted
    simp only [count, List.length_append, List.length_singleton]
    omega
  version := by simp
  uploads := uploads

/-- A record that is dropped is covered with those before it. -/
theorem Covers.drop {c : Collecting} {run : List Queued} (h : c.Covers run) (r : Queued)
    (e : BackendError) : (c.drop r e).Covers (run ++ [r]) where
  sound := h.sound
  fresh := h.fresh
  counted := by
    have counted := h.counted
    simp only [Collecting.drop, List.length_append, List.length_singleton]
    omega
  version := by simp [Collecting.drop]
  uploads := h.uploads.mono fun _ ⟨r', mem, same⟩ => ⟨r', List.mem_append_left _ mem, same⟩

end Collecting

/-- What may become of a record behind those that a batch in the making covers. Only a batch that
covers something keeps the record out. -/
def Taken.Extends (run : List Queued) (r : Queued) : Taken → Prop
  | .covered c => c.Covers (run ++ [r])
  | .kept c => c.Covers run ∧ run ≠ []
  | .unreached e => e.isRetryable = true
  | .failed _ => False

namespace Collecting

theorem Covers.nonempty {c : Collecting} {run : List Queued} (h : c.Covers run)
    (merged : c.merger.sourceCount ≠ 0) : run ≠ [] := by
  rintro rfl
  have counted := h.counted
  simp only [List.length_nil] at counted
  omega

/-- The law of a record whose operation is no copy, or is one no more. -/
theorem extends_join {c : Collecting} {run : List Queued} (h : c.Covers run) (limits : Limits)
    (r : Queued) {op : Operation} (plain : op.isCopy = false) (upload : op.isUpload = true → r.op = op) :
    (c.join limits r op).Extends run r := by
  unfold join
  split
  · rcases hp : c.merger.process op with ⟨m, result⟩
    have uploads : m.Uploads fun op => ∃ r' ∈ run ++ [r], r'.op = op := by
      refine Merger.Uploads.process (h.uploads.mono ?_) h.sound ?_ hp
      · rintro op' ⟨r', mem, same⟩
        exact ⟨r', List.mem_append_left _ mem, same⟩
      · intro isUpload
        exact ⟨r, List.mem_append_right _ List.mem_cons_self, upload isUpload⟩
    obtain ⟨sound, ⟨rfl, count⟩ | ⟨rfl, count, pending⟩⟩ := Merger.processed h.sound plain hp
    · exact h.join r sound count uploads
    · have merged : c.merger.sourceCount ≠ 0 := by
        intro zero
        rw [h.fresh zero] at pending
        exact pending rfl
      refine ⟨⟨sound, ?_, ?_, h.version, h.uploads.waits h.sound hp⟩, h.nonempty merged⟩
      · intro zero
        rw [count] at zero
        exact absurd zero merged
      · rw [← h.counted, ← count]
  · next full =>
    have merged : c.merger.sourceCount ≠ 0 := by
      intro zero
      simp [zero, Limits.admit] at full
    exact ⟨h, h.nonempty merged⟩

/-- A resolved copy is a copy no more, and no upload either. -/
theorem plain_of_resolve {b : Backend σ} {s s' : σ} {op op' : Operation} (copy : op.isCopy = true)
    (h : b.resolve s op = (s', .ok op')) : op'.isCopy = false ∧ op'.isUpload = false := by
  obtain ⟨path, m⟩ := op
  cases m with
  | copy source =>
    simp only [Backend.resolve] at h
    split at h
    · simp at h
    · next fetched hf =>
      simp only [Prod.mk.injEq, CopySource.retarget] at h
      obtain ⟨-, h⟩ := h
      split at h
      · next fits =>
        simp only [Except.ok.injEq] at h
        subst h
        cases hm : fetched.mutation <;>
          simp_all [CopyKind.fits, Operation.isCopy, Operation.isUpload]
      · cases h
  | _ => simp [Operation.isCopy] at copy

/-- **One record is dealt with.** It is covered, or kept for the next batch, or waits for the
service. -/
theorem extends_take {c : Collecting} {run : List Queued} (h : c.Covers run) (b : Backend σ)
    (limits : Limits) (s : σ) (r : Queued) : (c.take b limits s r).2.Extends run r := by
  unfold take
  split
  · next copy =>
    split
    · split
      · next s' op' resolved =>
        obtain ⟨plain, noUpload⟩ := plain_of_resolve copy resolved
        apply extends_join h limits r plain
        intro upload
        rw [noUpload] at upload
        cases upload
      · next s' e _ =>
        show (if e.isRetryable = true then _ else _ : Taken).Extends run r
        split
        · next retryable => exact retryable
        · exact h.drop r e
    · next merged => exact ⟨h, h.nonempty merged⟩
  · next plain => exact extends_join h limits r (by simpa using plain) fun _ => rfl

theorem Covers.dealt {c : Collecting} {run : List Queued} (h : c.Covers run) {b : Backend σ}
    {limits : Limits} {s s' : σ} {r : Queued} {taken : Taken} (deals : c.take b limits s r = (s', taken)) :
    taken.Extends run r := by
  have law := extends_take h b limits s r
  rwa [deals] at law

end Collecting

/-- The batch in the making covers what a call took. -/
theorem Took.covers {src : Source ρ} {b : Backend σ} {limits : Limits} {x y : Going ρ σ} {rs : List Queued}
    (took : Took src b limits x rs y) {run : List Queued} (h : x.batch.Covers run) :
    y.batch.Covers (run ++ rs) :=
  took.keeps (P := fun _ c run => c.Covers run) (fun covers taken => covers.dealt taken) h

/-! ## One call -/

/-- What one call answers when these records are in no batch yet, and which are in none afterwards.
It answers with a batch of the first of them, or with none when there are no more, or with a failure
of the service that may pass, and then all of them are left. -/
inductive Collects (before : List Queued) :
    Except DeliveryError (Option Batch) → List Queued → Prop
  | batch {run rest : List Queued} {batch : Batch} : before = run ++ rest → batch.Covers run →
      Collects before (.ok (some batch)) rest
  | drained : before = [] → Collects before (.ok none) []
  | unreached {e : BackendError} : e.isRetryable = true →
      Collects before (.error (.backend e)) before

/-- The answer of a call that ends with a batch in the making. -/
theorem collects_finish {c : Collecting} {run : List Queued} (h : c.Covers run)
    {rest : List Queued} (ended : run = [] → rest = []) :
    Collects (run ++ rest) (.ok c.finish) rest := by
  obtain ⟨nothing, rfl⟩ | ⟨batch, eq, covers⟩ := h.finish
  · rw [nothing, ended rfl]
    exact .drained rfl
  · rw [eq]
    exact .batch rfl covers

/-- Something that holds of a batch in the making and the records it covers goes on to hold, whatever
becomes of one more record. -/
def Taken.Keeps (P : Collecting → List Queued → Prop) (c : Collecting) (run : List Queued) (r : Queued) :
    Taken → Prop
  | .covered c' => P c' (run ++ [r])
  | .kept c' => P c' run
  | .unreached _ => P c run
  | .failed _ => True

/-- Something goes on to hold with every record. -/
def Collecting.Kept (b : Backend σ) (limits : Limits) (P : σ → Collecting → List Queued → Prop) : Prop :=
  ∀ {s : σ} {c : Collecting} {run : List Queued} (r : Queued), c.Covers run → P s c run →
    (c.take b limits s r).2.Keeps (P (c.take b limits s r).1) c run r

/-- A source whose reads do not fail tells records only. -/
theorem Source.Yields.tells {src : Source ρ} {left : ρ → List Queued → Prop} (hsrc : src.Yields left) :
    src.Tells fun s items => ∃ rs, items = rs.map .ok ∧ left s rs where
  drained := by
    rintro s ⟨rs, none_left, hleft⟩
    obtain rfl := List.map_eq_nil_iff.1 none_left.symm
    obtain ⟨s', drained, hleft'⟩ := hsrc.drained hleft
    exact ⟨s', drained, [], rfl, hleft'⟩
  reads := by
    rintro s r items ⟨rs, some_left, hleft⟩
    obtain ⟨r', rs', rfl, same, rfl⟩ := List.map_eq_cons_iff.1 some_left.symm
    cases same
    obtain ⟨s', reads, hleft'⟩ := hsrc.reads hleft
    exact ⟨s', reads, rs', rfl, hleft'⟩
  fails := by
    rintro s e items ⟨rs, some_left, -⟩
    obtain ⟨r', rs', -, none_such, -⟩ := List.map_eq_cons_iff.1 some_left.symm
    cases none_such
  bounded := by
    rintro s items ⟨rs, rfl, hleft⟩
    rw [List.length_map]
    exact hsrc.bounded hleft

theorem ahead_map (stash : Option Queued) (rs : List Queued) :
    ahead stash (rs.map .ok) = (stash.toList ++ rs).map .ok :=
  List.map_append.symm

/-- A record that was read is the first of those that are left, the one kept before those of the source. -/
theorem Source.Yields.next {src : Source ρ} {left : ρ → List Queued → Prop} (hsrc : src.Yields left)
    {stash : Option Queued} {source source' : ρ} {rest : List Queued} (hleft : left source rest)
    {answer : Except QueueError (Option Queued)} (read : nextRecord src stash source = (source', answer)) :
    (answer = .ok none ∧ stash.toList ++ rest = [] ∧ left source' []) ∨
      ∃ r rest', answer = .ok (some r) ∧ stash.toList ++ rest = r :: rest' ∧ left source' rest' := by
  obtain ⟨items, ⟨rest', rfl, hleft'⟩, told⟩ := hsrc.tells.next ⟨rest, rfl, hleft⟩ read
  rw [ahead_map] at told
  rcases told with ⟨nothing, rfl, none_left⟩ | ⟨r, first, rfl⟩ | ⟨e, first, -⟩
  · obtain rfl := List.map_eq_nil_iff.1 none_left
    exact .inl ⟨rfl, List.map_eq_nil_iff.1 nothing, hleft'⟩
  · rw [← List.map_cons, List.map_inj_right (fun _ _ => Except.ok.inj)] at first
    exact .inr ⟨r, rest', rfl, first, hleft'⟩
  · obtain ⟨r', rs', -, none_such, -⟩ := List.map_eq_cons_iff.1 first
    cases none_such

/-- The records that a call took are the first of those that were left. -/
theorem Took.left {src : Source ρ} {left : ρ → List Queued → Prop} (hsrc : src.Yields left)
    {b : Backend σ} {limits : Limits} {x y : Going ρ σ} {rs : List Queued}
    (took : Took src b limits x rs y) {rest : List Queued} (hleft : left x.source rest) :
    ∃ rest', left y.source rest' ∧ x.stash.toList ++ rest = rs ++ (y.stash.toList ++ rest') := by
  obtain ⟨items, ⟨rest', rfl, hleft'⟩, split⟩ := took.told hsrc.tells ⟨rest, rfl, hleft⟩
  rw [ahead_map, ahead_map, ← List.map_append, List.map_inj_right (fun _ _ => Except.ok.inj)] at split
  exact ⟨rest', hleft', split⟩

/-- How a call ends with a batch in the making, by the records that are left: either there are none, or the
first of them ends it. -/
inductive StopsAt (b : Backend σ) (limits : Limits) (c : Collecting) (s : σ) :
    List Queued → Except DeliveryError (Option Batch) → σ → List Queued → Prop
  | drained : StopsAt b limits c s [] (.ok c.finish) s []
  | kept {r : Queued} {rest : List Queued} {s' : σ} {c' : Collecting} :
      c.take b limits s r = (s', .kept c') → StopsAt b limits c s (r :: rest) (.ok c'.finish) s' (r :: rest)
  | failed {r : Queued} {rest : List Queued} {s' : σ} {e : MergeError} :
      c.take b limits s r = (s', .failed e) → StopsAt b limits c s (r :: rest) (.error (.merge e)) s' rest
  | shipped {r : Queued} {rest : List Queued} {s' : σ} {e : BackendError} {batch : Batch} :
      c.take b limits s r = (s', .unreached e) → c.finish = some batch →
      StopsAt b limits c s (r :: rest) (.ok (some batch)) s' (r :: rest)
  | unreached {r : Queued} {rest : List Queued} {s' : σ} {e : BackendError} :
      c.take b limits s r = (s', .unreached e) → c.finish = none →
      StopsAt b limits c s (r :: rest) (.error (.backend e)) s' (r :: rest)

/-- **A call takes the first records that are left**, and stops at the next one. -/
theorem collectFrom_stops {src : Source ρ} {left : ρ → List Queued → Prop} (hsrc : src.Yields left)
    (b : Backend σ) (limits : Limits) {fuel : Nat} (x : Going ρ σ) {rest : List Queued}
    (hleft : left x.source rest) (enough : x.stash.toList.length + rest.length < fuel)
    {call : Collected ρ σ}
    (called : collectFrom src b limits fuel x.batch x.stash x.source x.service = call) :
    ∃ rs y before rest', Took src b limits x rs y ∧ x.stash.toList ++ rest = rs ++ before ∧
      left call.source rest' ∧
      StopsAt b limits y.batch y.service before call.result call.backend (call.stash.toList ++ rest') := by
  obtain ⟨rs, y, took, ends⟩ := collectFrom_ended src b limits fuel x
  obtain ⟨rest', hleft', split⟩ := took.left hsrc hleft
  rw [called] at ends
  rcases ends with ended | ⟨full, -⟩
  · refine ⟨rs, y, y.stash.toList ++ rest', ?_⟩
    cases ended with
    | drained read =>
      obtain ⟨-, order, hleft''⟩ | ⟨r, rest'', none_such, -⟩ := hsrc.next hleft' read
      · exact ⟨[], took, split, hleft'', by rw [order]; exact .drained⟩
      · cases none_such
    | broken read =>
      obtain ⟨none_such, -⟩ | ⟨r, rest'', none_such, -⟩ := hsrc.next hleft' read <;> cases none_such
    | kept read deals | failed read deals | shipped read deals | unreached read deals =>
      obtain ⟨none_such, -⟩ | ⟨r, rest'', read_r, order, hleft''⟩ := hsrc.next hleft' read
      · cases none_such
      · cases read_r
        refine ⟨rest'', took, split, hleft'', ?_⟩
        rw [order]
        constructor <;> assumption
  · -- there are not so many records
    have length := congrArg List.length split
    simp only [List.length_append] at length
    omega

/-- The invariant of a call: from a batch that covers some records on, the records that are left are
those kept and those not read, whatever the call does next. The call ends with a batch in the making,
for which everything holds that every record keeps. -/
theorem collectFrom_ends {src : Source ρ} {left : ρ → List Queued → Prop} (hsrc : src.Yields left)
    (b : Backend σ) (limits : Limits) {P : σ → Collecting → List Queued → Prop}
    (kept : Collecting.Kept b limits P) {fuel : Nat} {c : Collecting} {run : List Queued}
    (h : c.Covers run) {stash : Option Queued} {source : ρ} {rest : List Queued}
    (hleft : left source rest) (enough : stash.toList.length + rest.length < fuel) {s : σ}
    (holds : P s c run) {call : Collected ρ σ}
    (called : collectFrom src b limits fuel c stash source s = call) :
    ∃ c' run' rest', left call.source rest' ∧
      run ++ (stash.toList ++ rest) = run' ++ (call.stash.toList ++ rest') ∧
      c'.Covers run' ∧ P call.backend c' run' ∧
      (call.result = .ok c'.finish ∧ (run' = [] → call.stash.toList ++ rest' = []) ∨
        c'.finish = none ∧ ∃ e, e.isRetryable = true ∧ call.result = .error (.backend e)) := by
  obtain ⟨rs, y, before, rest', took, split, hleft', stops⟩ :=
    collectFrom_stops hsrc b limits ⟨c, stash, source, s⟩ hleft enough called
  obtain ⟨covers, holds'⟩ : y.batch.Covers (run ++ rs) ∧ P y.service y.batch (run ++ rs) := by
    refine took.keeps (P := fun s c run => c.Covers run ∧ P s c run) ?_ ⟨h, holds⟩
    rintro s s' c c' run r ⟨h, holds⟩ taken
    have keeps := kept r h holds
    rw [taken] at keeps
    exact ⟨h.dealt taken, keeps⟩
  have at_end {r : Queued} {s' : σ} {taken : Taken}
      (deals : y.batch.take b limits y.service r = (s', taken)) :
      taken.Extends (run ++ rs) r ∧ taken.Keeps (P s') y.batch (run ++ rs) r := by
    have keeps := kept r covers holds'
    rw [deals] at keeps
    exact ⟨covers.dealt deals, keeps⟩
  have ends : ∃ c', before = call.stash.toList ++ rest' ∧ c'.Covers (run ++ rs) ∧
      P call.backend c' (run ++ rs) ∧
      (call.result = .ok c'.finish ∧ (run ++ rs = [] → call.stash.toList ++ rest' = []) ∨
        c'.finish = none ∧ ∃ e, e.isRetryable = true ∧ call.result = .error (.backend e)) := by
    generalize call.result = result, call.backend = s', call.stash.toList ++ rest' = after at stops
    cases stops with
    | drained => exact ⟨y.batch, rfl, covers, holds', .inl ⟨rfl, fun _ => rfl⟩⟩
    | kept deals =>
      obtain ⟨⟨covers', nonempty⟩, holds''⟩ := at_end deals
      exact ⟨_, rfl, covers', holds'', .inl ⟨rfl, fun nothing => absurd nothing nonempty⟩⟩
    | failed deals => exact (at_end deals).1.elim
    | shipped deals finished =>
      obtain ⟨nothing, -⟩ | ⟨batch', -, covers'⟩ := covers.finish
      · cases nothing.symm.trans finished
      · exact ⟨y.batch, rfl, covers, (at_end deals).2,
          .inl ⟨by rw [finished], fun nothing => absurd nothing covers'.nonempty⟩⟩
    | unreached deals unfinished =>
      obtain ⟨retryable, holds''⟩ := at_end deals
      exact ⟨y.batch, rfl, covers, holds'', .inr ⟨unfinished, _, retryable, rfl⟩⟩
  obtain ⟨c', rfl, covers', holds'', ends⟩ := ends
  refine ⟨c', run ++ rs, rest', hleft', ?_, covers', holds'', ends⟩
  rw [List.append_assoc]
  exact congrArg (run ++ ·) split

/-- The call takes the first of the records that are left. -/
theorem collects_collectFrom {src : Source ρ} {left : ρ → List Queued → Prop}
    (hsrc : src.Yields left) (b : Backend σ) (limits : Limits) {fuel : Nat} {c : Collecting}
    {run : List Queued} (h : c.Covers run) {stash : Option Queued} {source : ρ}
    {rest : List Queued} (hleft : left source rest)
    (enough : stash.toList.length + rest.length < fuel) (s : σ) :
    ∃ rest', left (collectFrom src b limits fuel c stash source s).source rest' ∧
      Collects (run ++ (stash.toList ++ rest))
        (collectFrom src b limits fuel c stash source s).result
        ((collectFrom src b limits fuel c stash source s).stash.toList ++ rest') := by
  have nothing : Collecting.Kept b limits fun _ _ _ => True := by
    intro s c run r _ _
    cases (c.take b limits s r).2 <;> trivial
  obtain ⟨c', run', rest', hleft', split, covers, -, ends⟩ :=
    collectFrom_ends hsrc b limits nothing h hleft enough (s := s) trivial rfl
  refine ⟨rest', hleft', ?_⟩
  rw [split]
  rcases ends with ⟨result, ended⟩ | ⟨unfinished, e, retryable, result⟩
  · rw [result]
    exact collects_finish covers ended
  · rw [result]
    obtain ⟨-, rfl⟩ | ⟨batch, eq, -⟩ := covers.finish
    · exact .unreached retryable
    · rw [unfinished] at eq
      cases eq

/-- **One call takes the first records that are left**, and loses none. -/
theorem collects_collect {src : Source ρ} {left : ρ → List Queued → Prop} (hsrc : src.Yields left)
    (b : Backend σ) (limits : Limits) (stash : Option Queued) {source : ρ} {rest : List Queued}
    (hleft : left source rest) (s : σ) :
    ∃ rest', left (collect src b limits stash source s).source rest' ∧
      Collects (stash.toList ++ rest) (collect src b limits stash source s).result
        ((collect src b limits stash source s).stash.toList ++ rest') := by
  have bounded := hsrc.bounded hleft
  have kept : stash.toList.length ≤ 1 := by cases stash <;> simp
  simpa only [collect, List.nil_append] using
    collects_collectFrom hsrc b limits Collecting.covers_empty hleft (by omega) s

/-! ## Any number of calls -/

/-- What calls in turn answer when these records are in no batch yet, and which are in none after the
last call. -/
inductive CollectsAll :
    List Queued → List (Except DeliveryError (Option Batch)) → List Queued → Prop
  | nil {records : List Queued} : CollectsAll records [] records
  | cons {records between rest : List Queued} {answer : Except DeliveryError (Option Batch)}
      {answers : List (Except DeliveryError (Option Batch))} : Collects records answer between →
      CollectsAll between answers rest → CollectsAll records (answer :: answers) rest

/-- Calls in turn. The service is in the given states when they begin, so that anything may have
happened to it between two calls, and it may answer to the same question differently each time. Gives
the answers, the record kept in the end, and the source. -/
def collectTimes (src : Source ρ) (b : Backend σ) (limits : Limits) (stash : Option Queued)
    (source : ρ) : List σ → List (Except DeliveryError (Option Batch)) × Option Queued × ρ
  | [] => ([], stash, source)
  | s :: states =>
    let call := collect src b limits stash source s
    let later := collectTimes src b limits call.stash call.source states
    (call.result :: later.1, later.2)

/-- The records go on being covered from any state between two calls. -/
theorem collectsAll_from {src : Source ρ} {left : ρ → List Queued → Prop} (hsrc : src.Yields left)
    (b : Backend σ) (limits : Limits) (states : List σ) (stash : Option Queued) {source : ρ}
    {rest : List Queued} (hleft : left source rest) :
    ∃ rest', left (collectTimes src b limits stash source states).2.2 rest' ∧
      CollectsAll (stash.toList ++ rest) (collectTimes src b limits stash source states).1
        ((collectTimes src b limits stash source states).2.1.toList ++ rest') := by
  induction states generalizing stash source rest with
  | nil => exact ⟨rest, hleft, .nil⟩
  | cons s states ih =>
    obtain ⟨between, hbetween, first⟩ := collects_collect hsrc b limits stash hleft s
    obtain ⟨rest', hleft', later⟩ := ih (collect src b limits stash source s).stash hbetween
    exact ⟨rest', hleft', .cons first later⟩

/-- **Nothing is lost and nothing is taken twice.** However often batches are collected, and whatever
the service does in between, the answers cover the records of the source in turn up to a point; the
record kept and those still in the source are the others. -/
theorem collectsAll_collectTimes {src : Source ρ} {left : ρ → List Queued → Prop}
    (yields : src.Yields left) (b : Backend σ) (limits : Limits) (states : List σ) {source : ρ}
    {records : List Queued} (hleft : left source records) :
    ∃ rest, left (collectTimes src b limits none source states).2.2 rest ∧
      CollectsAll records (collectTimes src b limits none source states).1
        ((collectTimes src b limits none source states).2.1.toList ++ rest) := by
  simpa only [Option.toList_none, List.nil_append] using
    collectsAll_from yields b limits states none hleft

/-- A service that is first not reached. Its state counts the requests. -/
def slowToStart : Backend Nat where
  begin n := (n, 0)
  answer n _ _ := (n, .ok ⟨0, []⟩)
  fetch
    | 0, _ => (1, .error (.connection "refused"))
    | n + 1, source => (n + 2, .ok ⟨source.path, .assign (.bool true)⟩)

/-- The copy of a truth value, and two changes of the same attribute behind it. -/
def copyAndChanges : List Queued :=
  let path : AttributePath := ⟨["a"], by simp⟩
  [⟨1, path, .copy ⟨"run", .run, path, .bool⟩⟩, ⟨2, path, .assign (.bool false)⟩,
    ⟨3, path, .delete⟩]

theorem collectsAll_copyAndChanges :
    ∃ rest, (collectTimes feed slowToStart ⟨0, 0, 0⟩ none (copyAndChanges.map .ok)
        [0, 1, 2, 3]).2.2 = rest.map .ok ∧
      CollectsAll copyAndChanges
        (collectTimes feed slowToStart ⟨0, 0, 0⟩ none (copyAndChanges.map .ok) [0, 1, 2, 3]).1
        ((collectTimes feed slowToStart ⟨0, 0, 0⟩ none (copyAndChanges.map .ok)
          [0, 1, 2, 3]).2.1.toList ++ rest) :=
  collectsAll_collectTimes feed_yields slowToStart ⟨0, 0, 0⟩ [0, 1, 2, 3] rfl

end Outbox
