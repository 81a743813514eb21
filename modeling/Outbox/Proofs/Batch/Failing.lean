import Outbox.Proofs.Batch.Coverage

/-!
# Sources whose reads may fail

A call stops where a read fails. Up to there, whatever it answers is made of records that the source gave.

* `Source.Gives` says which records a source gave so far, and what is left of it when a read fails;
* `Batch.From` is a batch of some records;
* `collectFrom_gives` is the law of a call.
-/

namespace Outbox

variable {ρ σ : Type}

/-- The reads of a source go on from the records that it gave: there is another one or none, or the read
fails. -/
structure Source.Gives (src : Source ρ) (given : ρ → List Queued → Prop) (broken : ρ → Prop) : Prop where
  ended : ∀ {s s' : ρ} {rs : List Queued}, given s rs → src.next s = (s', .ok none) → given s' rs
  gives : ∀ {s s' : ρ} {rs : List Queued} {r : Queued}, given s rs →
    src.next s = (s', .ok (some r)) → given s' (rs ++ [r])
  breaks : ∀ {s s' : ρ} {rs : List Queued} {e : QueueError}, given s rs →
    src.next s = (s', .error e) → broken s'

/-- A batch stands for some of these records. -/
def Batch.From (batch : Batch) (rs : List Queued) : Prop :=
  ∃ run, batch.Covers run ∧ ∀ r ∈ run, r ∈ rs

theorem Batch.From.mono {batch : Batch} {rs rs' : List Queued} (h : batch.From rs)
    (more : ∀ r ∈ rs, r ∈ rs') : batch.From rs' := by
  obtain ⟨run, covers, inside⟩ := h
  exact ⟨run, covers, fun r mem => more r (inside r mem)⟩

/-- The version of a batch is that of one of the records. -/
theorem Batch.From.version {batch : Batch} {rs : List Queued} (h : batch.From rs) :
    ∃ r ∈ rs, r.version = batch.version := by
  obtain ⟨run, covers, inside⟩ := h
  obtain ⟨r, last, version⟩ := Option.map_eq_some_iff.1 covers.version
  exact ⟨r, inside r (List.mem_of_getLast? last), version⟩

variable {src : Source ρ} {given : ρ → List Queued → Prop} {broken : ρ → Prop}

/-- The next record is one that the source gave, now or before. -/
theorem nextRecord_gives (hsrc : src.Gives given broken) {source : ρ} {rs : List Queued}
    (hgiven : given source rs) {stash : Option Queued} (kept : ∀ r ∈ stash, r ∈ rs) {source' : ρ}
    {answer : Except QueueError (Option Queued)}
    (read : nextRecord src stash source = (source', answer)) :
    (broken source' ∧ ∃ e, answer = .error e) ∨
      ∃ r? rs', answer = .ok r? ∧ given source' rs' ∧ (∀ r ∈ rs, r ∈ rs') ∧ ∀ r ∈ r?, r ∈ rs' := by
  cases stash with
  | some r =>
    obtain ⟨rfl, rfl⟩ := Prod.mk.inj read
    exact .inr ⟨some r, rs, rfl, hgiven, fun _ => id, kept⟩
  | none =>
    replace read : src.next source = (source', answer) := read
    rcases answer with e | _ | r
    · exact .inl ⟨hsrc.breaks hgiven read, e, rfl⟩
    · exact .inr ⟨none, rs, rfl, hsrc.ended hgiven read, fun _ => id,
        fun r mem => absurd mem (Option.not_mem_none r)⟩
    · refine .inr ⟨some r, rs ++ [r], rfl, hsrc.gives hgiven read, ?_, ?_⟩
      · exact fun _ mem => List.mem_append_left _ mem
      · intro r' mem
        obtain rfl := Option.some.inj mem
        exact List.mem_append_right _ List.mem_cons_self

/-- The records that a call took are ones that the source gave, now or before. -/
theorem Took.gives (hsrc : src.Gives given broken) {b : Backend σ} {limits : Limits} {x y : Going ρ σ}
    {taken : List Queued} (took : Took src b limits x taken y) {rs : List Queued} (hgiven : given x.source rs)
    (kept : ∀ r ∈ x.stash, r ∈ rs) :
    ∃ rs', given y.source rs' ∧ (∀ r ∈ rs, r ∈ rs') ∧ (∀ r ∈ taken, r ∈ rs') ∧ ∀ r ∈ y.stash, r ∈ rs' := by
  induction took generalizing rs with
  | nothing => exact ⟨rs, hgiven, fun _ => id, fun r mem => absurd mem List.not_mem_nil, kept⟩
  | @record x y r taken source' s' c' read _ _ ih =>
    obtain ⟨-, e, none_such⟩ | ⟨r?, rs', answer, hgiven', more, got⟩ := nextRecord_gives hsrc hgiven kept read
    · cases none_such
    · cases answer
      obtain ⟨rs'', hgiven'', more', inside, kept'⟩ :=
        ih hgiven' fun r mem => absurd mem (Option.not_mem_none r)
      refine ⟨rs'', hgiven'', fun r mem => more' r (more r mem), fun r' mem => ?_, kept'⟩
      rcases List.mem_cons.1 mem with rfl | later
      · exact more' _ (got _ rfl)
      · exact inside r' later

/-- **Whatever a call answers is made of records that the source gave**, unless a read failed. -/
theorem collectFrom_gives (hsrc : src.Gives given broken) (b : Backend σ) (limits : Limits) (fuel : Nat)
    {c : Collecting} {run : List Queued} (h : c.Covers run) {source : ρ} {rs : List Queued}
    (hgiven : given source rs) (inside : ∀ r ∈ run, r ∈ rs) {stash : Option Queued}
    (kept : ∀ r ∈ stash, r ∈ rs) {s : σ} {call : Collected ρ σ}
    (called : collectFrom src b limits fuel c stash source s = call) :
    (broken call.source ∧ ∃ e, call.result = .error (.queue e)) ∨
      ∃ rs', given call.source rs' ∧ (∀ r ∈ call.stash, r ∈ rs') ∧
        ∀ batch, call.result = .ok (some batch) → batch.From rs' := by
  -- a call that ends with a batch in the making answers with a batch of what that covers
  have finished {c : Collecting} {run rs : List Queued} {batch : Batch} (h : c.Covers run)
      (inside : ∀ r ∈ run, r ∈ rs) (answered : c.finish = some batch) : batch.From rs := by
    obtain ⟨nothing, -⟩ | ⟨batch', eq, covers⟩ := h.finish
    · rw [nothing] at answered
      cases answered
    · rw [eq] at answered
      cases answered
      exact ⟨run, covers, inside⟩
  obtain ⟨taken, y, took, ends⟩ := collectFrom_ended src b limits fuel ⟨c, stash, source, s⟩
  rw [show collectFrom src b limits fuel _ _ _ _ = call from called] at ends
  have covers := took.covers h
  obtain ⟨rs', hgiven', more, took_inside, kept'⟩ := took.gives hsrc hgiven kept
  have inside' : ∀ r ∈ run ++ taken, r ∈ rs' :=
    List.forall_mem_append.2 ⟨fun r mem => more r (inside r mem), took_inside⟩
  rcases ends with ended | ⟨-, rfl⟩
  · have next {source' : ρ} {r? : Option Queued} (read : nextRecord src y.stash y.source = (source', .ok r?)) :
        ∃ rs'', given source' rs'' ∧ (∀ r ∈ r?, r ∈ rs'') ∧ ∀ r ∈ run ++ taken, r ∈ rs'' := by
      obtain ⟨-, e, none_such⟩ | ⟨r?', rs'', same, hgiven'', more', got⟩ :=
        nextRecord_gives hsrc hgiven' kept' read
      · cases none_such
      · cases same
        exact ⟨rs'', hgiven'', got, fun r mem => more' r (inside' r mem)⟩
    cases ended with
    | drained read =>
      obtain ⟨rs'', hgiven'', none_kept, inside''⟩ := next read
      exact .inr ⟨rs'', hgiven'', none_kept, fun batch answered =>
        finished covers inside'' (Except.ok.inj answered)⟩
    | broken read =>
      obtain ⟨fails, -⟩ | ⟨r?, rs'', none_such, -⟩ := nextRecord_gives hsrc hgiven' kept' read
      · exact .inl ⟨fails, _, rfl⟩
      · cases none_such
    | kept read deals =>
      obtain ⟨rs'', hgiven'', is_kept, inside''⟩ := next read
      obtain ⟨covers', -⟩ := covers.dealt deals
      exact .inr ⟨rs'', hgiven'', is_kept, fun batch answered =>
        finished covers' inside'' (Except.ok.inj answered)⟩
    | failed read deals => exact (covers.dealt deals).elim
    | shipped read deals shipped =>
      obtain ⟨rs'', hgiven'', is_kept, inside''⟩ := next read
      exact .inr ⟨rs'', hgiven'', is_kept, fun batch answered =>
        finished covers inside'' (shipped.trans (Except.ok.inj answered))⟩
    | unreached read deals =>
      obtain ⟨rs'', hgiven'', is_kept, -⟩ := next read
      refine .inr ⟨rs'', hgiven'', is_kept, fun batch answered => ?_⟩
      cases answered
  · exact .inr ⟨rs', hgiven', kept', fun batch answered => finished covers inside' (Except.ok.inj answered)⟩

end Outbox
