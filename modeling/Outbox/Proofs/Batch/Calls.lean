import Outbox.Batch.Collector

/-!
# How a call goes

A call that collects a batch reads records one after the other. Those that join the batch in the making come
first, whatever the source and the service are, and then something ends the call: there is no record, or it
cannot be read, or it has to wait.

* `Going` is a call under way, and `Took` says which records it took into the batch in the making;
* `CallEnds` lists the ways in which a call ends, and `collectFrom_ended` says that there are no others;
* `upcoming` are the records that reads give next, so those that a call takes (`Took.upcoming`);
* `Source.Tells` says of a source which items its reads tell, records and failures, and `Took.told` that a call
  takes the first of them.
-/

namespace Outbox

variable {ρ σ : Type}

/-- A call under way. -/
structure Going (ρ σ : Type) where
  batch : Collecting
  stash : Option Queued
  source : ρ
  service : σ

section

variable (src : Source ρ) (b : Backend σ) (limits : Limits)

/-- Records are read in turn and all of them join the batch in the making. -/
inductive Took : Going ρ σ → List Queued → Going ρ σ → Prop
  | nothing {x : Going ρ σ} : Took x [] x
  | record {x y : Going ρ σ} {r : Queued} {rs : List Queued} {source' : ρ} {s' : σ} {c' : Collecting} :
      nextRecord src x.stash x.source = (source', .ok (some r)) →
      x.batch.take b limits x.service r = (s', .covered c') →
      Took ⟨c', none, source', s'⟩ rs y → Took x (r :: rs) y

/-- How a call ends. -/
inductive CallEnds (x : Going ρ σ) : Collected ρ σ → Prop
  | drained {source' : ρ} : nextRecord src x.stash x.source = (source', .ok none) →
      CallEnds x ⟨none, source', x.service, .ok x.batch.finish⟩
  | broken {source' : ρ} {e : QueueError} : nextRecord src x.stash x.source = (source', .error e) →
      CallEnds x ⟨none, source', x.service, .error (.queue e)⟩
  | kept {source' : ρ} {r : Queued} {s' : σ} {c' : Collecting} :
      nextRecord src x.stash x.source = (source', .ok (some r)) →
      x.batch.take b limits x.service r = (s', .kept c') →
      CallEnds x ⟨some r, source', s', .ok c'.finish⟩
  | failed {source' : ρ} {r : Queued} {s' : σ} {e : MergeError} :
      nextRecord src x.stash x.source = (source', .ok (some r)) →
      x.batch.take b limits x.service r = (s', .failed e) →
      CallEnds x ⟨none, source', s', .error (.merge e)⟩
  /-- The service was not reached, but something was collected before. -/
  | shipped {source' : ρ} {r : Queued} {s' : σ} {e : BackendError} {batch : Batch} :
      nextRecord src x.stash x.source = (source', .ok (some r)) →
      x.batch.take b limits x.service r = (s', .unreached e) → x.batch.finish = some batch →
      CallEnds x ⟨some r, source', s', .ok (some batch)⟩
  | unreached {source' : ρ} {r : Queued} {s' : σ} {e : BackendError} :
      nextRecord src x.stash x.source = (source', .ok (some r)) →
      x.batch.take b limits x.service r = (s', .unreached e) → x.batch.finish = none →
      CallEnds x ⟨some r, source', s', .error (.backend e)⟩

/-- **A call takes records, and then it ends**, if it may take enough of them. -/
theorem collectFrom_ended (fuel : Nat) (x : Going ρ σ) :
    ∃ run y, Took src b limits x run y ∧
      (CallEnds src b limits y (collectFrom src b limits fuel x.batch x.stash x.source x.service) ∨
        run.length = fuel ∧ collectFrom src b limits fuel x.batch x.stash x.source x.service =
          ⟨y.stash, y.source, y.service, .ok y.batch.finish⟩) := by
  induction fuel generalizing x with
  | zero => exact ⟨[], x, .nothing, .inr ⟨rfl, rfl⟩⟩
  | succ fuel ih =>
    rcases read : nextRecord src x.stash x.source with ⟨source', e | _ | r⟩
    · refine ⟨[], x, .nothing, .inl ?_⟩
      simp only [collectFrom, read]
      exact .broken read
    · refine ⟨[], x, .nothing, .inl ?_⟩
      simp only [collectFrom, read]
      exact .drained read
    · rcases taken : x.batch.take b limits x.service r with ⟨s', c' | c' | e | e⟩
      · obtain ⟨run, y, took, ends⟩ := ih ⟨c', none, source', s'⟩
        refine ⟨r :: run, y, .record read taken took, ?_⟩
        simp only [collectFrom, read, taken]
        exact ends.imp_right fun ⟨length, eq⟩ => ⟨by rw [List.length_cons, length], eq⟩
      · refine ⟨[], x, .nothing, .inl ?_⟩
        simp only [collectFrom, read, taken]
        exact .kept read taken
      · refine ⟨[], x, .nothing, .inl ?_⟩
        simp only [collectFrom, read, taken]
        cases unfinished : x.batch.finish with
        | none => exact .unreached read taken unfinished
        | some batch => exact .shipped read taken unfinished
      · refine ⟨[], x, .nothing, .inl ?_⟩
        simp only [collectFrom, read, taken]
        exact .failed read taken

end

variable {src : Source ρ} {b : Backend σ} {limits : Limits} {x y : Going ρ σ} {rs : List Queued}

/-- What every record keeps that joins a batch in the making holds after all of them. -/
theorem Took.keeps {P : σ → Collecting → List Queued → Prop}
    (step : ∀ {s s' : σ} {c c' : Collecting} {run : List Queued} {r : Queued}, P s c run →
      c.take b limits s r = (s', .covered c') → P s' c' (run ++ [r]))
    (took : Took src b limits x rs y) {run : List Queued} (start : P x.service x.batch run) :
    P y.service y.batch (run ++ rs) := by
  induction took generalizing run with
  | nothing => rwa [List.append_nil]
  | record _ taken _ ih =>
    rw [List.append_cons]
    exact ih (step start taken)

/-- After a record was taken none is kept from the call before. -/
theorem Took.stash (took : Took src b limits x rs y) : y.stash = none ∨ rs = [] ∧ y = x := by
  induction took with
  | nothing => exact .inr ⟨rfl, rfl⟩
  | record _ _ _ ih =>
    rcases ih with none_kept | ⟨-, rfl⟩
    · exact .inl none_kept
    · exact .inl rfl

/-! ## The next records -/

/-- The next records, at most so many: the one that was kept, and those that reads give until there is none
or a read fails. -/
def upcoming (src : Source ρ) (stash : Option Queued) (source : ρ) : Nat → List Queued
  | 0 => []
  | n + 1 =>
    match nextRecord src stash source with
    | (source', .ok (some r)) => r :: upcoming src none source' n
    | _ => []

/-- A call takes the next records. -/
theorem Took.upcoming (took : Took src b limits x rs y) (n : Nat) :
    upcoming src x.stash x.source (rs.length + n) = rs ++ upcoming src y.stash y.source n := by
  induction took with
  | nothing => rw [List.length_nil, Nat.zero_add, List.nil_append]
  | @record x y r rs source' s' c' read _ _ ih =>
    rw [List.length_cons, Nat.add_right_comm, Outbox.upcoming, read]
    exact congrArg (r :: ·) ih

/-! ## Items -/

/-- The reads of a source tell the items of a list in turn, records and failures, and then there are none. -/
structure Source.Tells (src : Source ρ) (left : ρ → List (Except QueueError Queued) → Prop) : Prop where
  drained : ∀ {s : ρ}, left s [] → ∃ s', src.next s = (s', .ok none) ∧ left s' []
  reads : ∀ {s : ρ} {r : Queued} {items : List (Except QueueError Queued)}, left s (.ok r :: items) →
    ∃ s', src.next s = (s', .ok (some r)) ∧ left s' items
  fails : ∀ {s : ρ} {e : QueueError} {items : List (Except QueueError Queued)}, left s (.error e :: items) →
    ∃ s', src.next s = (s', .error e) ∧ left s' items
  bounded : ∀ {s : ρ} {items : List (Except QueueError Queued)}, left s items → items.length ≤ src.bound s

/-- The items that reads give next: the record that was kept is in front of those of the source. -/
def ahead (stash : Option Queued) (items : List (Except QueueError Queued)) : List (Except QueueError Queued) :=
  stash.toList.map .ok ++ items

variable {left : ρ → List (Except QueueError Queued) → Prop}

/-- A read gives the first of the items that are left. -/
theorem Source.Tells.next (tells : src.Tells left) {stash : Option Queued} {source source' : ρ}
    {items : List (Except QueueError Queued)} (hleft : left source items)
    {answer : Except QueueError (Option Queued)} (read : nextRecord src stash source = (source', answer)) :
    ∃ items', left source' items' ∧
      ((ahead stash items = [] ∧ answer = .ok none ∧ items' = []) ∨
        (∃ r, ahead stash items = .ok r :: items' ∧ answer = .ok (some r)) ∨
        ∃ e, ahead stash items = .error e :: items' ∧ answer = .error e) := by
  cases stash with
  | some r =>
    cases read
    exact ⟨items, hleft, .inr (.inl ⟨r, rfl, rfl⟩)⟩
  | none =>
    replace read : src.next source = (source', answer) := read
    rcases items with _ | ⟨e | r, items'⟩
    · obtain ⟨s', drained, hleft'⟩ := tells.drained hleft
      cases drained.symm.trans read
      exact ⟨[], hleft', .inl ⟨rfl, rfl, rfl⟩⟩
    · obtain ⟨s', fails, hleft'⟩ := tells.fails hleft
      cases fails.symm.trans read
      exact ⟨items', hleft', .inr (.inr ⟨e, rfl, rfl⟩)⟩
    · obtain ⟨s', reads, hleft'⟩ := tells.reads hleft
      cases reads.symm.trans read
      exact ⟨items', hleft', .inr (.inl ⟨r, rfl, rfl⟩)⟩

/-- A call takes the first of the items that are left, which are records. -/
theorem Took.told (tells : src.Tells left) (took : Took src b limits x rs y)
    {items : List (Except QueueError Queued)} (hleft : left x.source items) :
    ∃ items', left y.source items' ∧ ahead x.stash items = rs.map .ok ++ ahead y.stash items' := by
  induction took generalizing items with
  | nothing => exact ⟨items, hleft, rfl⟩
  | record read _ _ ih =>
    obtain ⟨items', hleft', ⟨-, none_read, -⟩ | ⟨r, first, some_read⟩ | ⟨e, -, none_read⟩⟩ :=
      tells.next hleft read
    · cases none_read
    · cases some_read
      obtain ⟨items'', hleft'', split⟩ := ih hleft'
      exact ⟨items'', hleft'', first.trans (congrArg (_ :: ·) split)⟩
    · cases none_read

end Outbox
