import Outbox.Delivery.Direct
import Outbox.Proofs.Backend.Store

/-!
# Operations sent one by one

Direct delivery to a service in memory that is always reached: each operation has its effect at once, a
copy that of the assignment it stands for, and a copy that cannot be resolved has none.

* `MemoryBackend.Steady` is a service without failures arranged;
* `MemoryBackend.SameAttributes` says that two services keep the same attributes, and `resolve_congr` that
  copies are resolved to the same then;
* `Direct.sent` are the operations that are sent, and `Direct.enqueueAll_spec` is what is kept in the end.
-/

namespace Outbox

namespace MemoryBackend

/-- No failures are arranged. Operations may be arranged to be rejected, which has no effect on what is
kept. -/
structure Steady (m : MemoryBackend) : Prop where
  connects : m.failedConnections = 0
  executes : m.failures = []
  fetches : m.fetchFailures = []

/-- Two services keep the same attributes. -/
def SameAttributes (m m' : MemoryBackend) : Prop :=
  ∀ id path, m.store.get? id path = m'.store.get? id path

variable {m m' : MemoryBackend}

theorem Steady.answer (h : m.Steady) (c : Container) (batch : Bundle) :
    m.answer c batch = ((m.take c batch).1, .ok (m.take c batch).2) := by
  unfold MemoryBackend.answer
  rw [h.connects, h.executes]

theorem Steady.take (h : m.Steady) (c : Container) (batch : Bundle) : (m.take c batch).1.Steady :=
  ⟨h.connects, h.executes, h.fetches⟩

theorem Steady.begin (h : m.Steady) : m.begin.1.Steady :=
  ⟨h.connects, h.executes, h.fetches⟩

/-- A fetch changes nothing. -/
theorem Steady.fetch (h : m.Steady) (source : CopySource) : (service.fetch m source).1 = m := by
  show (m.fetch source).1 = m
  unfold MemoryBackend.fetch
  rw [h.fetches]
  dsimp only
  split <;> rfl

theorem Steady.resolve (h : m.Steady) (op : Operation) : (service.resolve m op).1 = m := by
  unfold Backend.resolve
  split
  · next source _ =>
    have same := h.fetch source
    generalize service.fetch m source = answer at same ⊢
    obtain ⟨m', e | fetched⟩ := answer <;> exact same
  · rfl

/-- What a copy stands for depends on the attributes only. -/
theorem resolve_congr (h : m.Steady) (h' : m'.Steady) (same : m.SameAttributes m') (op : Operation) :
    (service.resolve m op).2 = (service.resolve m' op).2 := by
  unfold Backend.resolve
  split
  · next source _ =>
    have fetched : (service.fetch m source).2 = (service.fetch m' source).2 := by
      show (m.fetch source).2 = (m'.fetch source).2
      unfold MemoryBackend.fetch
      rw [h.fetches, h'.fetches, same]
      dsimp only
      split <;> rfl
    generalize service.fetch m source = answer at fetched ⊢
    generalize service.fetch m' source = answer' at fetched ⊢
    obtain ⟨_, r⟩ := answer
    obtain ⟨_, r'⟩ := answer'
    obtain rfl : r = r' := fetched
    cases r <;> rfl
  · rfl

theorem resolve_plain {op : Operation} (plain : op.isCopy = false) (m : MemoryBackend) :
    service.resolve m op = (m, .ok op) := by
  unfold Backend.resolve
  obtain ⟨path, mutation⟩ := op
  cases mutation with
  | copy source => cases plain
  | _ => rfl

end MemoryBackend

theorem Bundle.operations_ofOperations_single (op : Operation) :
    (Bundle.ofOperations [op]).operations = [op] := by
  show (Bundle.empty.pushAll [op]).operations = [op]
  rw [Bundle.operations_pushAll, byLane_eq_self_iff]
  exact List.pairwise_singleton _ op

namespace Direct

/-- Sends operations one by one. -/
def enqueueAll {σ : Type} (b : Backend σ) (p : Direct σ) (ops : List Operation) : Direct σ :=
  ops.foldl (fun p op => (p.enqueue b op).1) p

/-- What is sent: the operations, and for copies the assignments they stand for. -/
def sent {σ : Type} (b : Backend σ) (p : Direct σ) : List Operation → List Operation
  | [] => []
  | op :: ops => (b.resolve p.backend op).2.toOption.toList ++ sent b (p.enqueue b op).1 ops

theorem enqueueAll_append {σ : Type} (b : Backend σ) (p : Direct σ) (ops ops' : List Operation) :
    p.enqueueAll b (ops ++ ops') = (p.enqueueAll b ops).enqueueAll b ops' :=
  List.foldl_append

theorem sent_append {σ : Type} (b : Backend σ) (p : Direct σ) (ops ops' : List Operation) :
    p.sent b (ops ++ ops') = p.sent b ops ++ (p.enqueueAll b ops).sent b ops' := by
  induction ops generalizing p with
  | nil => rfl
  | cons op ops ih =>
    show _ ++ (p.enqueue b op).1.sent b (ops ++ ops') = (_ ++ (p.enqueue b op).1.sent b ops) ++ _
    rw [ih, List.append_assoc]
    rfl

variable {p : Direct MemoryBackend}

/-- One operation. -/
theorem enqueue_spec (steady : p.backend.Steady) (op : Operation) :
    (p.enqueue MemoryBackend.service op).1.container = p.container ∧
    (p.enqueue MemoryBackend.service op).1.backend.Steady ∧
    (p.enqueue MemoryBackend.service op).1.backend.store =
      p.backend.store.applyAll p.container.id
        (MemoryBackend.service.resolve p.backend op).2.toOption.toList := by
  have still := steady.resolve op
  unfold enqueue
  generalize MemoryBackend.service.resolve p.backend op = resolved at still ⊢
  obtain ⟨s, e | op'⟩ := resolved
  · obtain rfl : s = p.backend := still
    exact ⟨rfl, steady, rfl⟩
  · obtain rfl : s = p.backend := still
    have answer : MemoryBackend.service.execute p.backend p.container (Bundle.ofOperations [op']) = _ :=
      steady.begin.answer p.container (Bundle.ofOperations [op'])
    dsimp only
    rw [answer]
    refine ⟨rfl, steady.begin.take _ _, ?_⟩
    show p.backend.store.applyAll _ (Bundle.ofOperations [op']).operations = _
    rw [Bundle.operations_ofOperations_single]
    rfl

/-- **What is kept** after operations were sent one by one. -/
theorem enqueueAll_spec (steady : p.backend.Steady) (ops : List Operation) :
    (p.enqueueAll MemoryBackend.service ops).container = p.container ∧
    (p.enqueueAll MemoryBackend.service ops).backend.Steady ∧
    (p.enqueueAll MemoryBackend.service ops).backend.store =
      p.backend.store.applyAll p.container.id (p.sent MemoryBackend.service ops) := by
  induction ops generalizing p with
  | nil => exact ⟨rfl, steady, rfl⟩
  | cons op ops ih =>
    obtain ⟨container, steady', store⟩ := enqueue_spec steady op
    obtain ⟨container', steady'', store'⟩ := ih steady'
    refine ⟨container'.trans container, steady'', store'.trans ?_⟩
    rw [store, container]
    exact List.foldl_append.symm

theorem sent_plain {op : Operation} (plain : op.isCopy = false) (p : Direct MemoryBackend) :
    p.sent MemoryBackend.service [op] = [op] := by
  unfold sent
  rw [MemoryBackend.resolve_plain plain]
  rfl

end Direct

end Outbox
