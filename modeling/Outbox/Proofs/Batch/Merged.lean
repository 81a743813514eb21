import Outbox.Proofs.Batch.Coverage
import Outbox.Proofs.Delivery.OneByOne
import Outbox.Proofs.Merge.Neutral

/-!
# What a batch is merged from

A batch that reports nothing is merged from what direct delivery would send of its records: the
operations, and for a copy, which can only come first, the assignment that it stands for when the batch is
collected. So the service keeps the same after both, unless the batch clears what it made itself.

* `Collecting.Merges` is what a batch in the making is merged from, and `kept_merges` says that every record
  keeps it;
* `Batch.MergedFrom` is the same of a batch, and `mergedFrom_collect` says so of every batch collected;
* `Batch.MergedFrom.sameAttributes` is the result.
-/

namespace Outbox

open MemoryBackend (service Steady SameAttributes)

/-! ## Joining -/

namespace Merger

variable {m m' m'' : Merger} {ops ops' : List Operation} {op : Operation}

theorem Joined.trans (h : m.Joined ops m') (h' : m'.Joined ops' m'') : m.Joined (ops ++ ops') m'' where
  pending path := by
    rw [onPath_append, Pending.joinAll_append, h.pending]
    exact h'.pending path
  has path := by
    rw [h'.has, h.has, onPath_append]
    cases m.has path <;> cases onPath path ops <;> rfl
  count := by
    rw [h'.count, h.count, List.length_append, Nat.add_assoc]
  regular := h'.regular ∘ h.regular

theorem Joined.process (h : m.Joined ops m') (joins : m'.process op = (m'', .ok true)) :
    m.Joined (ops ++ [op]) m'' :=
  h.trans (processAll_joined (processAll_cons.2 ⟨m'', joins, rfl⟩))

end Merger

/-! ## One record -/

/-- What a batch in the making is merged from, if it reports nothing. -/
def Collecting.Merges (t : Direct MemoryBackend) (c : Collecting) (run : List Queued) : Prop :=
  c.errors = [] → c.dropped = 0 ∧ Merger.empty.Joined (t.sent service (run.map Queued.op)) c.merger

namespace Collecting

variable {t : Direct MemoryBackend} {s : MemoryBackend} {c : Collecting} {run : List Queued}

/-- An operation that is sent for a record joins, or waits. -/
theorem Merges.join (h : c.Merges t run) (covers : c.Covers run) (limits : Limits) {r : Queued}
    {op : Operation}
    (sends : c.errors = [] → (t.enqueueAll service (run.map Queued.op)).sent service [r.op] = [op]) :
    (c.join limits r op).Keeps (Merges t) c run r := by
  unfold Collecting.join
  split
  · rcases joined : c.merger.process op with ⟨m, e | _ | _⟩
    · trivial
    · intro quiet
      obtain ⟨none_dropped, before⟩ := h quiet
      obtain ⟨rfl, -⟩ := Merger.process_eq_waits covers.sound (before.regular Merger.regular_empty) joined
      exact ⟨none_dropped, before⟩
    · intro quiet
      obtain ⟨none_dropped, before⟩ := h quiet
      refine ⟨none_dropped, ?_⟩
      rw [List.map_append, Direct.sent_append]
      show Merger.Joined _ (_ ++ Direct.sent service _ [r.op]) _
      rw [sends quiet]
      exact before.process joined
  · exact h

/-- **Every record keeps what a batch is merged from.** -/
theorem kept_merges (steady : s.Steady) (steady' : t.backend.Steady) (same : s.SameAttributes t.backend)
    (limits : Limits) : Kept service limits fun s' c run => s' = s ∧ c.Merges t run := by
  rintro s' c run r covers ⟨rfl, h⟩
  have with_state {taken : Taken} (keeps : taken.Keeps (Merges t) c run r) :
      taken.Keeps (fun c run => s' = s' ∧ c.Merges t run) c run r := by
    cases taken with
    | covered | kept | unreached => exact ⟨rfl, keeps⟩
    | failed => trivial
  unfold Collecting.take
  by_cases copy : r.op.isCopy = true
  · rw [if_pos copy]
    by_cases first : c.merger.sourceCount = 0
    · rw [if_pos first]
      have still := steady.resolve r.op
      have alike := MemoryBackend.resolve_congr steady steady' same r.op
      -- a copy is resolved for the first record only, so nothing was sent before
      have sends {op : Operation} (resolved : (service.resolve s' r.op).2 = .ok op)
          (quiet : c.errors = []) :
          (t.enqueueAll service (run.map Queued.op)).sent service [r.op] = [op] := by
        obtain ⟨none_dropped, -⟩ := h quiet
        have counted := covers.counted
        have none_before : run = [] := List.length_eq_zero_iff.1 (by omega)
        subst none_before
        rw [alike] at resolved
        show ((service.resolve t.backend r.op).2.toOption.toList ++ [] : List Operation) = [op]
        rw [resolved]
        rfl
      generalize service.resolve s' r.op = answer at still sends ⊢
      obtain ⟨s, e | op⟩ := answer
      · obtain rfl : s = s' := still
        dsimp only
        split
        · exact ⟨rfl, h⟩
        · refine ⟨rfl, fun quiet => ?_⟩
          simp [Collecting.drop] at quiet
      · obtain rfl : s = s' := still
        exact with_state (h.join covers limits (sends rfl))
    · rw [if_neg first]
      exact ⟨rfl, h⟩
  · rw [if_neg copy]
    exact with_state (h.join covers limits fun _ => Direct.sent_plain (Bool.eq_false_iff.2 copy) _)

end Collecting

/-! ## One call -/

/-- A batch that was collected for these records, and what it is merged from. -/
def Batch.MergedFrom (batch : Batch) (t : Direct MemoryBackend) (run : List Queued) : Prop :=
  batch.bundle.errors = [] → ∃ m, Merger.empty.Joined (t.sent service (run.map Queued.op)) m ∧
    batch.bundle = m.finish []

variable {t : Direct MemoryBackend} {s : MemoryBackend}

/-- **A batch that is collected is merged from what direct delivery would send** of its records, if both
services keep the same then. Collecting leaves the service as it is. -/
theorem mergedFrom_collect {ρ : Type} {src : Source ρ} {left : ρ → List Queued → Prop}
    (hsrc : src.Yields left) (steady : s.Steady) (steady' : t.backend.Steady)
    (same : s.SameAttributes t.backend) (limits : Limits) (stash : Option Queued) {source : ρ}
    {rest : List Queued} (hleft : left source rest) :
    (collect src service limits stash source s).backend = s ∧
      ∀ batch, (collect src service limits stash source s).result = .ok (some batch) →
        batch.MergedFrom t ((stash.toList ++ rest).take batch.size) := by
  have bounded := hsrc.bounded hleft
  have kept : stash.toList.length ≤ 1 := by cases stash <;> simp
  have start : Collecting.empty.Merges t [] := fun _ => ⟨rfl, Merger.joined_nil _⟩
  have enough : stash.toList.length + rest.length < src.bound source + 2 := by omega
  obtain ⟨c, run, rest', -, split, covers, ⟨still, merges⟩, ends⟩ :=
    collectFrom_ends hsrc service limits (Collecting.kept_merges steady steady' same limits)
      Collecting.covers_empty hleft enough (s := s) ⟨rfl, start⟩ rfl
  refine ⟨still, fun batch answered quiet => ?_⟩
  have answered : c.finish = some batch := by
    rcases ends with ⟨result, -⟩ | ⟨-, e, -, result⟩
    · exact Except.ok.inj (result.symm.trans answered)
    · cases result.symm.trans answered
  unfold Collecting.finish at answered
  obtain ⟨v, -, rfl⟩ := Option.map_eq_some_iff.1 answered
  obtain ⟨reported, -⟩ := List.append_eq_nil_iff.1 quiet
  have size : Batch.size ⟨c.merger.finish c.errors, c.dropped, v⟩ = run.length := covers.counted
  rw [List.nil_append] at split
  rw [split, size, List.take_left]
  exact ⟨c.merger, (merges reported).2, by rw [reported]⟩

/-- **A service keeps the same after a batch as after its records one by one**, unless the batch clears
what it made itself. -/
theorem Batch.MergedFrom.sameAttributes {batch : Batch} {run : List Queued}
    (h : batch.MergedFrom t run) (quiet : batch.bundle.errors = []) (steady : t.backend.Steady)
    (same : s.SameAttributes t.backend)
    (leaves : ∀ path, ¬ ClearsOwn (t.backend.store.get? t.container.id path)
      (onPath path (t.sent service (run.map Queued.op)))) :
    (s.take t.container batch.bundle).1.SameAttributes
      (t.enqueueAll service (run.map Queued.op)).backend := by
  obtain ⟨m, joined, bundle⟩ := h quiet
  obtain ⟨-, -, store⟩ := Direct.enqueueAll_spec steady (run.map Queued.op)
  intro id path
  rw [store]
  show (s.store.applyAll t.container.id batch.bundle.operations).get? id path = _
  rw [bundle] at quiet ⊢
  rw [← Merger.get?_finish joined quiet _ _ leaves, AttributeStore.get?_applyAll,
    AttributeStore.get?_applyAll, same, same]

end Outbox
