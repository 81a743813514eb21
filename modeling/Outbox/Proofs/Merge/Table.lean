import Outbox.Merge.Merger
import Outbox.Proofs.Merge.Shape

/-!
# The attributes of a batch

The table of pending changes behaves as a map from paths, and every entry of it is sound at all
times. So an operation that is no copy is always dealt with: it joins the batch, or has to wait for
the next one, and the first operation of a batch never has to wait.

* `PendingTable.get?_set` is the law of the table;
* `Merger.Sound` is the invariant, and `Merger.processed` says what one operation does;
* `Merger.takeAll` takes operations in turn, and `takeAll_induction` says what holds of every attribute
  then.
-/

namespace Outbox

namespace PendingTable

/-- What is set is found at its path, and all else is found as before. -/
theorem get?_set (table : PendingTable) (path path' : AttributePath) (p : Pending) :
    (table.set path p).get? path' = if path' = path then some p else table.get? path' := by
  induction table with
  | nil =>
    by_cases same : path' = path
    · simp [set, get?, same]
    · simp [set, get?, same, Ne.symm same]
  | cons entry rest ih =>
    obtain ⟨here, q⟩ := entry
    by_cases same : path' = path
    · subst same
      cases order : path'.order here with
      | lt => simp [set, order, get?]
      | eq => simp [set, order, get?]
      | gt =>
        have differs : here ≠ path' := by
          intro equal
          rw [AttributePath.order_eq_eq_iff.2 equal.symm] at order
          cases order
        simpa [set, order, get?, differs] using ih
    · cases order : path.order here with
      | lt => simp [set, order, get?, same, Ne.symm same]
      | eq =>
        rw [AttributePath.order_eq_eq_iff] at order
        subst order
        simp [set, AttributePath.order_eq_eq_iff.2, get?, same, Ne.symm same]
      | gt =>
        by_cases found : here = path'
        · subst found
          simp [set, order, get?, same]
        · simpa [set, order, get?, found, same] using ih

theorem mem_of_set {table : PendingTable} {path : AttributePath} {p : Pending}
    {entry : AttributePath × Pending} (mem : entry ∈ table.set path p) :
    entry = (path, p) ∨ entry ∈ table := by
  fun_induction set table path p with
  | case1 => exact .inl (List.mem_singleton.1 mem)
  | case2 path' p' rest => exact List.mem_cons.1 mem
  | case3 path' p' rest =>
    rcases List.mem_cons.1 mem with new | old
    · exact .inl new
    · exact .inr (List.mem_cons_of_mem _ old)
  | case4 path' p' rest _ ih =>
    rcases List.mem_cons.1 mem with first | later
    · exact .inr (List.mem_cons.2 (.inl first))
    · exact (ih later).imp_right (List.mem_cons_of_mem _)

theorem mem_of_get? {table : PendingTable} {path : AttributePath} {p : Pending}
    (found : table.get? path = some p) : (path, p) ∈ table := by
  fun_induction get? table path with
  | case1 => cases found
  | case2 p' rest =>
    cases found
    exact List.mem_cons_self
  | case3 path' p' rest other ih => exact List.mem_cons_of_mem _ (ih found)

end PendingTable

namespace Merger

/-- The pending changes of every attribute are sound. -/
def Sound (m : Merger) : Prop :=
  ∀ path, (m.pending path).Sound

theorem sound_empty : empty.Sound :=
  fun _ => Pending.sound_empty

theorem pending_set (m : Merger) (path path' : AttributePath) (p : Pending) (n k : Nat) :
    (⟨m.table.set path p, n, k⟩ : Merger).pending path' =
      if path' = path then p else m.pending path' := by
  rw [pending, pending, PendingTable.get?_set]
  split <;> rfl

/-- Whatever becomes of an operation, the table has what it left of its attribute. -/
theorem table_process (m : Merger) (op : Operation) :
    (m.process op).1.table = m.table.set op.path ((m.pending op.path).visit op).1 := by
  rcases visited : (m.pending op.path).visit op with ⟨after, v⟩
  cases v with
  | error e => simp only [process, visited]
  | ok v =>
    simp only [process, visited]
    split <;> rfl

theorem pending_process (m : Merger) (op : Operation) (path : AttributePath) :
    (m.process op).1.pending path =
      if path = op.path then ((m.pending op.path).visit op).1 else m.pending path := by
  rw [pending, table_process, PendingTable.get?_set]
  split <;> rfl

theorem Sound.process {m : Merger} (h : m.Sound) (op : Operation) : (m.process op).1.Sound := by
  intro path
  rw [pending_process]
  split
  · exact Pending.sound_visit (h op.path) rfl
  · exact h path

/-- What an operation that is no copy does to a batch: it is counted if it joins the batch. Only a
pending deletion of its attribute can keep it from joining. -/
theorem processed {m m' : Merger} (h : m.Sound) {op : Operation} (plain : op.isCopy = false)
    {r : Except MergeError Bool} (hp : m.process op = (m', r)) :
    m'.Sound ∧ ((r = .ok true ∧ m'.sourceCount = m.sourceCount + 1) ∨
      (r = .ok false ∧ m'.sourceCount = m.sourceCount ∧ (m.pending op.path).deletes ≠ [])) := by
  have sound : m'.Sound := by
    have after_process := h.process op
    rwa [hp] at after_process
  rcases hv : (m.pending op.path).visit op with ⟨after, v⟩
  cases v with
  | error e =>
    have copy := Pending.visit_error (h op.path) hv
    rw [plain] at copy
    cases copy
  | ok v =>
    by_cases late : v = .waits
    · subst late
      simp only [Merger.process, hv, ↓reduceIte, Prod.mk.injEq] at hp
      obtain ⟨rfl, rfl⟩ := hp
      refine ⟨sound, .inr ⟨rfl, rfl, ?_⟩⟩
      cases Pending.visited (h op.path) hv with
      | waits _ _ _ pending => exact pending
    · simp only [Merger.process, hv, late, ↓reduceIte, Prod.mk.injEq] at hp
      obtain ⟨rfl, rfl⟩ := hp
      exact ⟨sound, .inl ⟨rfl, rfl⟩⟩

/-! ## Runs -/

/-- Takes operations in turn, going on whatever becomes of them. -/
def takeAll (m : Merger) (ops : List Operation) : Merger :=
  ops.foldl (fun m op => (m.process op).1) m

theorem Sound.takeAll {m : Merger} (h : m.Sound) (ops : List Operation) : (m.takeAll ops).Sound := by
  induction ops generalizing m with
  | nil => exact h
  | cons op ops ih => exact ih (h.process op)

/-- What holds of an attribute on which nothing is pending, and is kept by every visit, holds of all
attributes of a batch at all times. -/
theorem takeAll_induction_visit {P : AttributePath → Pending → Prop} (start : ∀ path, P path .empty)
    (step : ∀ {path : AttributePath} {p : Pending} {op : Operation}, op.path = path → p.Sound →
      P path p → P path (p.visit op).1)
    (ops : List Operation) (path : AttributePath) : P path ((empty.takeAll ops).pending path) := by
  suffices from_any : ∀ m : Merger, m.Sound → (∀ path, P path (m.pending path)) →
      P path ((m.takeAll ops).pending path) from from_any empty sound_empty start
  induction ops with
  | nil => exact fun m _ holds => holds path
  | cons op ops ih =>
    intro m sound holds
    refine ih (m.process op).1 (sound.process op) fun path' => ?_
    rw [pending_process]
    split
    · next here =>
      subst here
      exact step rfl (sound op.path) (holds op.path)
    · exact holds path'

/-- The same with what can become of the operation in place of the visit. -/
theorem takeAll_induction {P : AttributePath → Pending → Prop} (start : ∀ path, P path .empty)
    (step : ∀ {path : AttributePath} {p p' : Pending} {op : Operation} {v : Except MergeError Visit},
      op.path = path → p.Sound → P path p → Pending.Visited p op p' v → P path p')
    (ops : List Operation) (path : AttributePath) : P path ((empty.takeAll ops).pending path) :=
  takeAll_induction_visit start
    (fun here sound holds => step here sound holds (Pending.visited sound rfl)) ops path

/-- As many operations as can join the batch are taken in turn. -/
theorem processAll_takeAll (m : Merger) (ops : List Operation) :
    ∃ taken, (m.processAll ops).1 = m.takeAll taken := by
  induction ops generalizing m with
  | nil => exact ⟨[], rfl⟩
  | cons op ops ih =>
    rcases first : m.process op with ⟨m', e | _ | _⟩
    · exact ⟨[op], by simp [processAll, takeAll, first]⟩
    · exact ⟨[op], by simp [processAll, takeAll, first]⟩
    · obtain ⟨taken, rest⟩ := ih m'
      refine ⟨op :: taken, ?_⟩
      have joined : (m.processAll (op :: ops)).1 = (m'.processAll ops).1 := by
        rw [processAll, first]
        dsimp only
        split <;> simp_all
      rw [joined, rest]
      simp [takeAll, first]

end Merger

end Outbox
