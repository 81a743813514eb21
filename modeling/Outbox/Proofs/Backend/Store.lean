import Outbox.Backend.Memory
import Outbox.Proofs.Merge.Lanes

/-!
# What a service in memory keeps

The service keeps one assignment for each attribute of each container, and an operation changes that of
its own attribute only. So the attributes can be looked at one by one: each goes through the effects of
the operations on it.

* `Operation.effect` is what an operation makes of the assignment of its attribute, and `heldAfter` what
  several make of it;
* `AttributeStore.get?_apply` and `get?_applyAll` are the laws of the store;
* `heldAfter_byLane` says that the lists of a bundle are no matter: files are not kept.
-/

namespace Outbox

/-! ## Effects on one attribute -/

/-- A set of strings with its strings changed. Nothing else is. -/
def mapHeld (f : List String → List String) : Option Operation → Option Operation
  | some ⟨path, .addStrings vs⟩ => some ⟨path, .addStrings (f vs)⟩
  | held => held

/-- What an operation makes of the assignment of its attribute. -/
def Operation.effect (op : Operation) (held : Option Operation) : Option Operation :=
  match op.mutation with
  | .assign _ => some op
  | .addStrings vs =>
    match held with
    | some ⟨path, .addStrings old⟩ => some ⟨path, .addStrings (old ++ vs)⟩
    | _ => some op
  | .removeStrings vs => mapHeld (fun old => old.filter fun v => !vs.contains v) held
  | .clearStringSet => mapHeld (fun _ => []) held
  | .delete => none
  | _ => held

/-- What operations in turn make of the assignment of their attribute. -/
def heldAfter (held : Option Operation) (ops : List Operation) : Option Operation :=
  ops.foldl (fun held op => op.effect held) held

section heldAfter

variable (held : Option Operation)

@[simp] theorem heldAfter_cons (op : Operation) (ops : List Operation) :
    heldAfter held (op :: ops) = heldAfter (op.effect held) ops := rfl

theorem heldAfter_append (ops ops' : List Operation) :
    heldAfter held (ops ++ ops') = heldAfter (heldAfter held ops) ops' :=
  List.foldl_append

theorem heldAfter_concat (ops : List Operation) (op : Operation) :
    heldAfter held (ops ++ [op]) = op.effect (heldAfter held ops) :=
  heldAfter_append held ops [op]

end heldAfter

/-- An operation on something that the service does not keep. -/
def Operation.IsIdle (op : Operation) : Prop :=
  ∀ held, op.effect held = held

theorem heldAfter_idle {ops : List Operation} (idle : ∀ op ∈ ops, op.IsIdle) (held : Option Operation) :
    heldAfter held ops = held := by
  induction ops with
  | nil => rfl
  | cons op ops ih =>
    rw [heldAfter_cons, idle op List.mem_cons_self]
    exact ih fun op' mem => idle op' (List.mem_cons_of_mem _ mem)

/-- Operations that the service does not keep can be left out. -/
theorem heldAfter_filter {keep : Operation → Bool} (idle : ∀ op, keep op = false → op.IsIdle)
    (ops : List Operation) (held : Option Operation) :
    heldAfter held (ops.filter keep) = heldAfter held ops := by
  induction ops generalizing held with
  | nil => rfl
  | cons op ops ih =>
    cases kept : keep op with
    | true => rw [List.filter_cons_of_pos kept, heldAfter_cons, heldAfter_cons, ih]
    | false =>
      rw [List.filter_cons_of_neg (by rw [kept]; exact Bool.false_ne_true), heldAfter_cons,
        idle op kept, ih]

/-- Uploads and tracked files are not kept. -/
theorem Operation.idle_of_lane {op : Operation} (lane : op.lane ≠ 2) : op.IsIdle := by
  intro held
  obtain ⟨path, m⟩ := op
  cases m with
  | uploadFile | uploadFileContent | uploadFileSet | trackFiles => rfl
  | _ => exact absurd rfl lane

/-- It is no matter that uploads and tracked files are sent before the others. -/
theorem heldAfter_byLane (ops : List Operation) (held : Option Operation) :
    heldAfter held (byLane ops) = heldAfter held ops := by
  have early (n : Nat) (other : n ≠ 2) (held : Option Operation) :
      heldAfter held (ops.filter (·.lane = n)) = held := by
    refine heldAfter_idle (fun op mem => Operation.idle_of_lane ?_) held
    rw [of_decide_eq_true (List.mem_filter.1 mem).2]
    exact other
  rw [byLane, heldAfter_append, heldAfter_append, early 0 (by decide), early 1 (by decide)]
  exact heldAfter_filter (fun op other => Operation.idle_of_lane (of_decide_eq_false other)) ops held

/-! ## The store -/

namespace AttributeStore

variable (store : AttributeStore) (id id' : String) (path path' : AttributePath)

theorem get?_cons (entry : (String × AttributePath) × Operation) :
    get? (entry :: store) id path =
      if (id, path) = entry.1 then some entry.2 else store.get? id path := by
  unfold get?
  rw [List.lookup_cons]
  by_cases here : (id, path) = entry.1
  · rw [if_pos here, here, beq_self_eq_true]
  · rw [if_neg here, beq_eq_false_iff_ne.2 here]

theorem get?_set (op : Operation) :
    (store.set id path op).get? id' path' =
      if (id', path') = (id, path) then some op else store.get? id' path' := by
  induction store with
  | nil => rw [set, get?_cons]
  | cons entry rest ih =>
    obtain ⟨key, op'⟩ := entry
    unfold set
    by_cases found : key = (id, path)
    · rw [if_pos found, get?_cons, get?_cons, found]
      split
      · rfl
      · rfl
    · rw [if_neg found, get?_cons, get?_cons, ih]
      by_cases here : (id', path') = key
      · rw [if_pos here, if_pos here, if_neg (here ▸ found)]
      · rw [if_neg here, if_neg here]

theorem get?_remove :
    (store.remove id path).get? id' path' =
      if (id', path') = (id, path) then none else store.get? id' path' := by
  induction store with
  | nil =>
    show none = _
    split
    · rfl
    · rfl
  | cons entry rest ih =>
    unfold remove at ih ⊢
    by_cases found : entry.1 = (id, path)
    · rw [List.filter_cons_of_neg (by simpa using found), ih, get?_cons, found]
      split <;> rfl
    · rw [List.filter_cons_of_pos (by simpa using found), get?_cons, get?_cons, ih]
      by_cases here : (id', path') = entry.1
      · rw [if_pos here, if_pos here, if_neg (here ▸ found)]
      · rw [if_neg here, if_neg here]

theorem get?_mapStrings (f : List String → List String) :
    (store.mapStrings id path f).get? id' path' =
      if (id', path') = (id, path) then mapHeld f (store.get? id path) else store.get? id' path' := by
  unfold mapStrings
  split
  · next found => rw [get?_set, found, mapHeld]
  · next other =>
    have same : mapHeld f (store.get? id path) = store.get? id path := by
      unfold mapHeld
      split
      · next path vs found => exact absurd found (other path vs)
      · rfl
    rw [same]
    split
    · next here =>
      cases here
      rfl
    · rfl

/-- **An operation has its effect on its own attribute**, and on no other one. -/
theorem get?_apply (op : Operation) :
    (store.apply id op).get? id' path' =
      if (id', path') = (id, op.path) then op.effect (store.get? id op.path)
      else store.get? id' path' := by
  have unchanged : store.get? id' path' =
      if (id', path') = (id, op.path) then store.get? id op.path else store.get? id' path' := by
    split
    · next here =>
      cases here
      rfl
    · rfl
  obtain ⟨path, m⟩ := op
  cases m with
  | assign v => exact get?_set store id id' path path' _
  | removeStrings vs => exact get?_mapStrings store id id' path path' _
  | clearStringSet => exact get?_mapStrings store id id' path path' _
  | delete => exact get?_remove store id id' path path'
  | addStrings vs =>
    rcases found : store.get? id path with _ | ⟨path', kept⟩
    · simp only [apply, Operation.effect, found, get?_set]
    · cases kept <;> simp only [apply, Operation.effect, found, get?_set]
  | _ => exact unchanged

/-- Operations in turn have their effects on their attributes. -/
theorem get?_applyAll (ops : List Operation) :
    (store.applyAll id ops).get? id' path' =
      if id' = id then heldAfter (store.get? id path') (onPath path' ops) else store.get? id' path' := by
  induction ops generalizing store with
  | nil =>
    show store.get? id' path' = _
    split
    · next here => rw [here]; rfl
    · rfl
  | cons op ops ih =>
    show ((store.apply id op).applyAll id ops).get? id' path' = _
    rw [ih, get?_apply, get?_apply]
    by_cases container : id' = id
    · rw [if_pos container, if_pos container]
      by_cases here : op.path = path'
      · rw [onPath_cons_same here, heldAfter_cons, here, if_pos rfl]
      · rw [onPath_cons_other here, if_neg fun same => here (Prod.mk.inj same).2.symm]
    · rw [if_neg container, if_neg container, if_neg fun same => container (Prod.mk.inj same).1]

end AttributeStore

end Outbox
