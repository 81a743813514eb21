import Outbox.Proofs.Merge.Clearing

/-!
# Merging and what is kept

A service in memory that takes merged operations keeps what it would keep had it taken them one by one,
unless they clear what they made themselves.

* `Pending.Mirrors` is the invariant of an attribute in a batch, and `Mirrors.visited` keeps it;
* `Merger.get?_finish` is the result for a batch.
-/

namespace Outbox

variable {held base : Option Operation} {path : AttributePath} {ops taken changes : List Operation}
  {op : Operation}

/-! ## One attribute -/

theorem heldAfter_deletion {deletes : List Operation} (h : Deletion deletes) (pending : deletes ≠ [])
    (held : Option Operation) : heldAfter held deletes = none := by
  cases h with
  | none => exact absurd rfl pending
  | alone deletes =>
    rw [heldAfter_cons]
    unfold Operation.effect
    rw [deletes]
    rfl
  | behind _ deletes =>
    rw [heldAfter_cons, heldAfter_cons]
    unfold Operation.effect
    rw [deletes]
    rfl

namespace Pending

variable {p p' q : Pending}

theorem conflicts_some {t t' : DataType} (typed : p.dataType = some t) (fits : p.conflicts t' = false) :
    t' = t := by
  rw [conflicts, typed, Option.any_some, bne_eq_false_iff_eq] at fits
  exact fits.symm

/-- What is pending on an attribute reflects the operations that were taken since the last deletion, and
the deletion those before. -/
structure Mirrors (held : Option Operation) (path : AttributePath) (p : Pending) (taken : List Operation) :
    Prop where
  here : ∀ op ∈ taken, op.path = path
  split : ∃ front back, taken = front ++ back ∧ heldAfter held front = heldAfter held p.deletes ∧
    ∀ t, p.conflicts t = false →
      (∀ op ∈ back, op.On t) ∧ Reflects path (heldAfter held p.deletes) back p.changes t

theorem mirrors_empty (held : Option Operation) (path : AttributePath) : empty.Mirrors held path [] where
  here _ mem := absurd mem List.not_mem_nil
  split := ⟨[], [], rfl, rfl, fun _ _ => ⟨fun _ mem => absurd mem List.not_mem_nil, reflects_of_same rfl⟩⟩

theorem Mirrors.visited (h : p.Mirrors held path taken) (sound : p.Sound) (sound' : p'.Sound)
    (place : op.path = path) (hv : Visited p op p' (.ok .accepted)) :
    p'.Mirrors held path (taken ++ [op]) := by
  obtain ⟨here, front, back, rfl, deleted, reflects⟩ := h
  have snoc {P : Operation → Prop} {ops : List Operation} (old : ∀ op' ∈ ops, P op') (new : P op) :
      ∀ op' ∈ ops ++ [op], P op' := by
    intro op' mem
    rcases List.mem_append.1 mem with before | last
    · exact old op' before
    · exact List.mem_singleton.1 last ▸ new
  have on' {t : DataType} (typed : p'.dataType = some t) : ∀ op' ∈ p'.changes, op'.On t := by
    intro op' mem
    obtain ⟨t', c, typed', role⟩ := sound'.typed op' mem
    rw [typed, Option.some.injEq] at typed'
    exact .inl ⟨c, typed' ▸ role⟩
  refine ⟨snoc here place, ?_⟩
  cases hv with
  | deleted role =>
    have pending : p.deletesAfter op ≠ [] := by
      unfold deletesAfter
      split <;> simp_all
    have gone (held : Option Operation) : op.effect held = none := by
      unfold Operation.effect
      rw [Mutation.role_delete role]
    have nothing {t' : DataType} : ∀ op' ∈ ([] : List Operation), op'.On t' :=
      fun _ mem => absurd mem List.not_mem_nil
    refine ⟨front ++ back ++ [op], [], (List.append_nil _).symm, ?_, fun _ _ =>
      ⟨nothing, reflects_of_same rfl⟩⟩
    have deletion := sound.deletion_after (Mutation.role_delete role)
    rw [heldAfter_concat, gone, heldAfter_deletion deletion pending]
  | changed role fits barrier combined =>
    obtain ⟨on, reflects⟩ := reflects _ fits
    refine ⟨front, back ++ [op], List.append_assoc .., deleted, fun t' fits' => ?_⟩
    obtain rfl := conflicts_some rfl fits'
    refine ⟨snoc on (.inl ⟨_, role⟩), ?_⟩
    exact reflects.changed on (on' rfl) (fun op' mem => here op' (List.mem_append_right _ mem)) place role
      combined
  | configured role fits =>
    obtain ⟨-, rfl⟩ := Mutation.role_configure role
    obtain ⟨on, -⟩ := reflects _ fits
    have all := snoc on (.inr role)
    refine ⟨front, back ++ [op], List.append_assoc .., deleted, fun t' fits' => ?_⟩
    obtain rfl := conflicts_some rfl fits'
    exact ⟨all, reflects_unkept rfl all (on' rfl)⟩

/-- Configurations are not kept. -/
theorem heldAfter_operations (sound : p.Sound) (held : Option Operation) :
    heldAfter held p.operations = heldAfter (heldAfter held p.deletes) p.changes := by
  rw [operations, heldAfter_append, heldAfter_append]
  refine heldAfter_idle (fun op mem => ?_) _
  obtain ⟨t, -, role⟩ := sound.configured op mem
  exact Operation.On.idle (.inr role) (by obtain ⟨-, rfl⟩ := Mutation.role_configure role; rfl)

theorem Mirrors.same_or (h : p.Mirrors held path taken) (sound : p.Sound) :
    heldAfter held p.operations = heldAfter held taken ∨ ClearsOwn held taken := by
  obtain ⟨-, front, back, rfl, deleted, reflects⟩ := h
  obtain ⟨t, fits⟩ : ∃ t, p.conflicts t = false := by
    cases typed : p.dataType with
    | none => exact ⟨.float, by simp [conflicts, typed]⟩
    | some t => exact ⟨t, by simp [conflicts, typed]⟩
  rw [heldAfter_operations sound, heldAfter_append, deleted]
  refine (reflects t fits).2.same_or.imp_right fun clears => ?_
  rw [← deleted] at clears
  exact clears.behind

/-- Reports stay. -/
theorem errors_joinAll (sound : p.Sound) (joined : p.joinAll ops = some q) (clean : q.errors = []) :
    p.errors = [] := by
  induction ops generalizing p with
  | nil =>
    cases joined
    exact clean
  | cons op ops ih =>
    obtain ⟨p', v, hv, -, rest⟩ := visit_of_joinAll joined
    have before := ih (sound_visit sound hv) rest
    cases visited sound hv with
    | waits | changed | configured | deleted => exact before
    | rejected =>
      unfold reject at before
      simp at before

/-- Operations that are merged without a report are mirrored. -/
theorem Mirrors.joinAll (h : p.Mirrors held path taken) (sound : p.Sound)
    (here : ∀ op ∈ ops, op.path = path) (joined : p.joinAll ops = some q) (clean : q.errors = []) :
    q.Sound ∧ q.Mirrors held path (taken ++ ops) := by
  induction ops generalizing p taken with
  | nil =>
    cases joined
    rw [List.append_nil]
    exact ⟨sound, h⟩
  | cons op ops ih =>
    obtain ⟨p', v, hv, joins, rest⟩ := visit_of_joinAll joined
    have sound' := sound_visit sound hv
    have quiet := errors_joinAll sound' rest clean
    have law := Pending.visited sound hv
    have accepted : v = .accepted := by
      cases law with
      | waits => exact absurd rfl joins
      | rejected =>
        unfold reject at quiet
        simp at quiet
      | _ => rfl
    subst accepted
    have place := here op List.mem_cons_self
    rw [List.append_cons]
    exact ih (h.visited sound sound' place law) sound' (fun op' mem => here op' (List.mem_cons_of_mem _ mem))
      rest

theorem Aligned.joinAll (h : p.Aligned path) (sound : p.Sound) (here : ∀ op ∈ ops, op.path = path)
    (joined : p.joinAll ops = some q) : q.Aligned path := by
  induction ops generalizing p with
  | nil =>
    cases joined
    exact h
  | cons op ops ih =>
    obtain ⟨p', v, hv, -, rest⟩ := visit_of_joinAll joined
    refine ih (h.visited (here op List.mem_cons_self) (Pending.visited sound hv)) (sound_visit sound hv)
      ?_ rest
    exact fun op' mem => here op' (List.mem_cons_of_mem _ mem)

end Pending

/-! ## The whole batch -/

namespace Merger

variable {m : Merger}

theorem errors_pending {errors : List Inconsistency} (clean : (m.finish errors).errors = [])
    (path : AttributePath) : (m.pending path).errors = [] := by
  obtain ⟨-, quiet⟩ := List.append_eq_nil_iff.1 clean
  unfold Merger.pending
  cases found : m.table.get? path with
  | none => rfl
  | some p => exact List.flatMap_eq_nil_iff.1 quiet _ (PendingTable.mem_of_get? found)

/-- **A batch is as good as its operations one by one**, for a service in memory, if it reports nothing
and does not clear what it made itself. -/
theorem get?_finish (joined : empty.Joined ops m) (clean : (m.finish []).errors = [])
    (store : AttributeStore) (id : String)
    (leaves : ∀ path, ¬ ClearsOwn (store.get? id path) (onPath path ops)) (id' : String)
    (path : AttributePath) :
    (store.applyAll id (m.finish []).operations).get? id' path =
      (store.applyAll id ops).get? id' path := by
  have aligned (path : AttributePath) : (m.pending path).Aligned path :=
    (Pending.aligned_empty path).joinAll Pending.sound_empty (fun op mem => path_of_mem_onPath mem)
      (joined.pending path)
  rw [AttributeStore.get?_applyAll, AttributeStore.get?_applyAll,
    onPath_finish (joined.regular regular_empty).sorted aligned, heldAfter_byLane]
  obtain ⟨sound, mirrors⟩ := (Pending.mirrors_empty (store.get? id path) path).joinAll Pending.sound_empty
    (fun op mem => path_of_mem_onPath mem) (joined.pending path) (errors_pending clean path)
  rw [(mirrors.same_or sound).resolve_right (leaves path), List.nil_append]

end Merger

end Outbox
