import Outbox.Proofs.Delivery.Order

/-!
# What a wait promises

A wait is over when everything is delivered up to the version that was told last. An operation gets its
version under the lock of the queue, and the version is told under the lock of the control words. Another
caller may come in between, so the version that is told last need not be the highest one, and then a wait
is over too early.

* `CallPoint` is where a caller is who enqueues an operation or waits, and `Background.callStep` the next
  section of the call; `callSteps_enqueuing` and `callSteps_waiting` say which sections the calls are;
* `Callers` is delivery in the background together with any number of calls, and `Callers.run` is any number
  of moves of the two;
* `Background.lastPut_after` says that a version is told in one section only, and `Callers.TellsInOrder`
  that versions are told in order;
* `Callers.keepsWord_iff` is the result: then, and only then, waits keep what they promise.
-/

namespace Outbox

/-! ## The course of a call -/

/-- Where a call is. -/
inductive CallPoint where
  /-- An operation is to be enqueued. -/
  | enqueuing (wall now : Nat) (op : Operation)
  /-- Delivery has not stopped. -/
  | accepted (wall now : Nat) (op : Operation)
  /-- The operation has a version, which is not told yet. -/
  | stored (now version : Nat) (overflowing : Bool)
  | told (now version : Nat)
  | enqueued (version : Nat)
  /-- The call has failed. -/
  | refused (e : DeliveryError)
  /-- A wait begins. -/
  | waiting
  /-- The queue was handed to the disk. -/
  | flushed
  /-- The consumer was woken. -/
  | woken
  /-- Waits until everything up to a version is delivered. -/
  | awaiting (target : Nat)
  /-- A wait is over. -/
  | delivered
deriving DecidableEq

/-- What a call has returned, if it is over. -/
def CallPoint.result? : CallPoint → Option (Except DeliveryError Unit)
  | .enqueued _ => some (.ok ())
  | .refused e => some (.error e)
  | .delivered => some (.ok ())
  | _ => none

/-- Whether a wait looks next at what was delivered. -/
def CallPoint.Looks : CallPoint → Prop
  | .woken | .awaiting _ => True
  | _ => False

/-- What was told of a call is at most this version. -/
def CallPoint.UpTo (version : Nat) : CallPoint → Prop
  | .told _ version' | .enqueued version' => version' ≤ version
  | _ => True

/-- If a call waits for a version, it is for this one or a later one. -/
def CallPoint.AtLeast (version : Nat) : CallPoint → Prop
  | .awaiting target => version ≤ target
  | _ => True

/-- The version that a section tells. -/
def Section.told? {σ : Type} : Section σ → Option Nat
  | .publish version _ => some version
  | _ => none

namespace Background

variable {σ : Type}

/-- A wait for a version looks whether it is over. -/
def lookFor (p : Background σ) (target : Nat) : CallPoint :=
  match p.waitAnswer target with
  | none => .awaiting target
  | some (.ok _) => .delivered
  | some (.error e) => .refused e

/-- The next section of a call, and where it is then. -/
def callStep (p : Background σ) : CallPoint → Background σ × CallPoint
  | .enqueuing wall now op => if p.isRefusing then (p, .refused .stopped) else (p, .accepted wall now op)
  | .accepted wall now op =>
    match p.putSection wall op with
    | (p', .error e) => (p', .refused e)
    | (p', .ok (version, overflowing)) => (p', .stored now version overflowing)
  | .stored now version overflowing => (p.publish version overflowing, .told now version)
  | .told now version => (p.checkProgress now, .enqueued version)
  | .waiting => (p.flush, .flushed)
  | .flushed => (p.wake, .woken)
  | .woken => (p, p.lookFor p.control.lastPut)
  | .awaiting target => (p, p.lookFor target)
  | pt => (p, pt)

/-- A call with nothing happening in between. -/
def callSteps (p : Background σ) (pt : CallPoint) : Nat → Background σ × CallPoint
  | 0 => (p, pt)
  | n + 1 => (p.callStep pt).1.callSteps (p.callStep pt).2 n

/-- Enqueuing an operation, as one call, takes four sections. -/
theorem callSteps_enqueuing (p : Background σ) (wall now : Nat) (op : Operation) :
    (p.callSteps (.enqueuing wall now op) 4).1 = (p.enqueue wall now op).1 ∧
      (p.callSteps (.enqueuing wall now op) 4).2.result? = some (p.enqueue wall now op).2 := by
  cases refusing : p.isRefusing with
  | true => simp [enqueue, callSteps, callStep, refusing, CallPoint.result?]
  | false =>
    rcases put : p.putSection wall op with ⟨p', e | ⟨version, overflowing⟩⟩
    · simp [enqueue, callSteps, callStep, refusing, put, CallPoint.result?]
    · simp [enqueue, callSteps, callStep, refusing, put, CallPoint.result?]

/-- A wait, as one call, looks for the first time in its third section. -/
theorem callSteps_waiting (p : Background σ) :
    p.callSteps .waiting 3 = (p.beginWait.1, p.beginWait.1.lookFor p.beginWait.2) :=
  rfl

/-! ## The version that was told last -/

variable (b : Backend σ) (p : Background σ)

theorem lastPut_notify : p.notify.control.lastPut = p.control.lastPut := by
  unfold notify
  split <;> rfl

theorem lastPut_retry (now retries : Nat) (next : Nat → Attempt) :
    (p.retry now retries next).control.lastPut = p.control.lastPut := by
  unfold retry
  split <;> rfl

theorem lastPut_wakeSection : p.wakeSection.control.lastPut = p.control.lastPut := by
  unfold wakeSection
  dsimp only
  split <;> rfl

theorem lastPut_takeUp (now retries : Nat) (r : Except DeliveryError (Option Batch)) :
    (p.takeUp now retries r).control.lastPut = p.control.lastPut := by
  unfold takeUp
  split
  · rfl
  · split <;> rfl
  · split
    · exact lastPut_retry _ _ _ _
    · rfl
  · rfl

/-- The consumer tells no version. -/
theorem lastPut_step (now : Nat) : (p.step b now).control.lastPut = p.control.lastPut := by
  unfold step
  cases p.readiness now with
  | waits _ => rfl
  | gone => rfl
  | ready =>
    cases p.consumer.phase with
    | absent | ended | ending | sending | publishing => rfl
    | collecting retries => exact lastPut_takeUp _ _ _ _
    | sleeping => exact lastPut_wakeSection p
    | awaiting batch retries _ =>
      show (p.answerSection b now batch retries).control.lastPut = _
      unfold answerSection
      split
      · rfl
      · split
        · exact lastPut_retry _ _ _ _
        · rfl
    | starting =>
      show (p.flushIfDue now).control.lastPut = _
      unfold flushIfDue
      split <;> rfl
    | checking retries =>
      show (p.check retries).control.lastPut = _
      unfold check
      split
      · rfl
      · split <;> rfl
    | acknowledging batch =>
      show (p.ackSection batch).control.lastPut = _
      unfold ackSection
      split <;> rfl
    | backingOff _ next =>
      show (if _ then _ else _ : Background σ).control.lastPut = _
      split
      · rfl
      · cases next <;> rfl
    | resting =>
      show (p.restSection now).control.lastPut = _
      unfold restSection
      split
      · rfl
      · split
        · exact lastPut_wakeSection p
        · rfl

theorem lastPut_putSection (wall : Nat) (op : Operation) :
    (p.putSection wall op).1.control.lastPut = p.control.lastPut := by
  unfold putSection
  split <;> rfl

theorem lastPut_publish (version : Nat) (overflowing : Bool) :
    (p.publish version overflowing).control.lastPut = version := by
  show (if _ then _ else _ : Background σ).control.lastPut = version
  split
  · exact lastPut_notify _
  · rfl

/-- **Versions are told by one section only**, and by no other. -/
theorem lastPut_after (s : Section σ) :
    (p.after b s).control.lastPut = s.told?.getD p.control.lastPut := by
  cases s with
  | put wall op => exact lastPut_putSection p wall op
  | publish version overflowing => exact lastPut_publish p version overflowing
  | start now =>
    show (p.start now).control.lastPut = _
    unfold start
    split <;> rfl
  | consumer now => exact lastPut_step b p now
  | cleanUp => exact congrArg Control.lastPut (cleanUp_frame p).1
  | wake | notify | resume | askToStop | interrupt | markStopped => exact lastPut_notify _
  | checkProgress | flush | close | suspend | service | disk => rfl

/-- The version that a call tells in its next section. -/
theorem lastPut_callStep (pt : CallPoint) : (p.callStep pt).1.control.lastPut =
    match pt with
    | .stored _ version _ => version
    | _ => p.control.lastPut := by
  cases pt with
  | enqueuing wall now op =>
    show (if _ then _ else _ : Background σ × CallPoint).1.control.lastPut = _
    split <;> rfl
  | accepted wall now op =>
    have same := lastPut_putSection p wall op
    rcases put : p.putSection wall op with ⟨p', e | ⟨version, overflowing⟩⟩ <;>
      simpa only [callStep, put] using same
  | stored now version overflowing => exact lastPut_publish p version overflowing
  | flushed => exact lastPut_notify _
  | told | waiting | enqueued | refused | woken | awaiting | delivered => rfl

variable {p}

/-- What a call has told is not above what was told last. -/
theorem upTo_callStep {pt : CallPoint} (h : pt.UpTo p.control.lastPut)
    (order : p.control.lastPut ≤ (p.callStep pt).1.control.lastPut) :
    (p.callStep pt).2.UpTo (p.callStep pt).1.control.lastPut := by
  cases pt with
  | enqueuing =>
    simp only [callStep]
    split <;> trivial
  | accepted wall now op =>
    rcases put : p.putSection wall op with ⟨p', e | ⟨version, overflowing⟩⟩ <;>
      simp only [callStep, put, CallPoint.UpTo]
  | stored now version overflowing => exact Nat.le_of_eq (lastPut_publish p version overflowing).symm
  | told now version => exact h
  | enqueued version => exact h
  | woken | awaiting =>
    simp only [callStep, lookFor]
    split <;> trivial
  | waiting | flushed | refused | delivered => trivial

theorem atLeast_lookFor {version target : Nat} (h : version ≤ target) :
    (p.lookFor target).AtLeast version := by
  unfold lookFor
  split
  · exact h
  · trivial
  · trivial

/-- A wait is for no less than what was told before. -/
theorem atLeast_callStep {pt : CallPoint} {version : Nat} (h : pt.AtLeast version)
    (told : version ≤ p.control.lastPut) : (p.callStep pt).2.AtLeast version := by
  cases pt with
  | enqueuing =>
    simp only [callStep]
    split <;> trivial
  | accepted wall now op =>
    rcases put : p.putSection wall op with ⟨p', e | ⟨version, overflowing⟩⟩ <;>
      simp only [callStep, put, CallPoint.AtLeast]
  | woken => exact atLeast_lookFor told
  | awaiting target => exact atLeast_lookFor h
  | stored | told | enqueued | waiting | flushed | refused | delivered => trivial

/-- **A wait that looks is over** only if everything up to its version is delivered. -/
theorem le_consumed_of_lookFor {target : Nat} (ended : p.lookFor target = .delivered) :
    target ≤ p.control.consumed := by
  unfold lookFor waitAnswer at ended
  by_cases delivered : target ≤ p.control.consumed
  · exact delivered
  · rw [if_neg delivered] at ended
    cases alive : p.control.status.isAlive <;> simp [alive] at ended

/-- So it is if it waits for no less than a version that was told. -/
theorem le_consumed_of_callStep {pt : CallPoint} {version : Nat} (looks : pt.Looks)
    (h : pt.AtLeast version) (told : version ≤ p.control.lastPut)
    (ended : (p.callStep pt).2 = .delivered) : version ≤ p.control.consumed := by
  cases pt with
  | woken => exact Nat.le_trans told (le_consumed_of_lookFor ended)
  | awaiting target => exact Nat.le_trans h (le_consumed_of_lookFor ended)
  | _ => exact looks.elim

end Background

/-! ## Any number of calls -/

/-- Delivery in the background, and the calls that were made. -/
structure Callers (σ : Type) where
  system : Background σ
  calls : List CallPoint

/-- What may happen next. -/
inductive CallMove (σ : Type) where
  /-- A section of the consumer, or of anything else. -/
  | beside (s : Section σ)
  | enqueue (wall now : Nat) (op : Operation)
  | wait
  /-- The next section of a call. -/
  | call (i : Nat)

namespace Callers

variable {σ : Type}

/-- Everything after a move. -/
def after (b : Backend σ) (t : Callers σ) : CallMove σ → Callers σ
  | .beside s => { t with system := t.system.after b s }
  | .enqueue wall now op => { t with calls := t.calls ++ [.enqueuing wall now op] }
  | .wait => { t with calls := t.calls ++ [.waiting] }
  | .call i =>
    match t.calls[i]? with
    | none => t
    | some pt => ⟨(t.system.callStep pt).1, t.calls.set i (t.system.callStep pt).2⟩

/-- Everything after some moves. -/
def run (b : Backend σ) (t : Callers σ) : List (CallMove σ) → Callers σ
  | [] => t
  | m :: moves => run b (t.after b m) moves

/-- The version that a move tells. -/
def told? (t : Callers σ) : CallMove σ → Option Nat
  | .beside s => s.told?
  | .call i =>
    match t.calls[i]? with
    | some (.stored _ version _) => some version
    | _ => none
  | _ => none

/-- The versions that moves tell, one after the other. -/
def tells (b : Backend σ) (t : Callers σ) : List (CallMove σ) → List Nat
  | [] => []
  | m :: moves => (t.told? m).toList ++ tells b (t.after b m) moves

/-- The version that was told last. -/
abbrev lastTold (t : Callers σ) : Nat :=
  t.system.control.lastPut

variable {b : Backend σ} {t : Callers σ}

theorem run_append (front back : List (CallMove σ)) :
    t.run b (front ++ back) = (t.run b front).run b back := by
  induction front generalizing t with
  | nil => rfl
  | cons m front ih => exact ih

/-- **What is told last is what a move tells**, if it tells anything. -/
theorem lastTold_after (m : CallMove σ) : (t.after b m).lastTold = (t.told? m).getD t.lastTold := by
  cases m with
  | beside s => exact Background.lastPut_after b t.system s
  | enqueue | wait => rfl
  | call i =>
    cases found : t.calls[i]? with
    | none => simp only [lastTold, after, told?, found, Option.getD_none]
    | some pt =>
      have told := t.system.lastPut_callStep pt
      simp only [lastTold, after, told?, found, told]
      cases pt <;> rfl

/-! ## Versions in order -/

/-- The versions are told in order, from the one on that was told before. -/
def TellsInOrder (b : Backend σ) (t : Callers σ) (moves : List (CallMove σ)) : Prop :=
  (t.lastTold :: t.tells b moves).Pairwise (· ≤ ·)

/-- They are if each move keeps the order. -/
theorem tellsInOrder_cons {m : CallMove σ} {moves : List (CallMove σ)} :
    t.TellsInOrder b (m :: moves) ↔
      t.lastTold ≤ (t.after b m).lastTold ∧ (t.after b m).TellsInOrder b moves := by
  have last := lastTold_after (b := b) (t := t) m
  show (t.lastTold :: ((t.told? m).toList ++ (t.after b m).tells b moves)).Pairwise (· ≤ ·) ↔
    _ ∧ ((t.after b m).lastTold :: (t.after b m).tells b moves).Pairwise (· ≤ ·)
  cases told : t.told? m with
  | none =>
    rw [told, Option.getD_none] at last
    rw [last, Option.toList_none, List.nil_append]
    exact ⟨fun h => ⟨Nat.le_refl _, h⟩, And.right⟩
  | some version =>
    rw [told, Option.getD_some] at last
    rw [last, Option.toList_some, List.singleton_append, List.pairwise_cons (l := version :: _)]
    constructor
    · exact fun h => ⟨h.1 version List.mem_cons_self, h.2⟩
    · refine fun h => ⟨List.forall_mem_cons.2 ⟨h.1, fun later member => ?_⟩, h.2⟩
      exact Nat.le_trans h.1 ((List.pairwise_cons.1 h.2).1 later member)

/-- What every move keeps that does not tell a smaller version is kept while versions are told in order. -/
theorem TellsInOrder.induct {P : Callers σ → Prop}
    (step : ∀ t m, P t → t.lastTold ≤ (t.after b m).lastTold → P (t.after b m))
    {front back : List (CallMove σ)} (h : t.TellsInOrder b (front ++ back)) (start : P t) :
    P (t.run b front) ∧ (t.run b front).TellsInOrder b back := by
  induction front generalizing t with
  | nil => exact ⟨start, h⟩
  | cons m front ih =>
    obtain ⟨first, rest⟩ := tellsInOrder_cons.1 h
    exact ih rest (step t m start first)

theorem TellsInOrder.le {front back : List (CallMove σ)} (h : t.TellsInOrder b (front ++ back)) :
    t.lastTold ≤ (t.run b front).lastTold :=
  (h.induct (P := fun t' => t.lastTold ≤ t'.lastTold) (fun _ _ h h' => Nat.le_trans h h')
    (Nat.le_refl _)).1

/-! ## The promise -/

/-- What becomes of a call by a move: nothing, or it is made, or it goes on. -/
theorem calls_after {m : CallMove σ} {j : Nat} {pt : CallPoint}
    (found : (t.after b m).calls[j]? = some pt) :
    t.calls[j]? = some pt ∨ (∃ wall now op, pt = .enqueuing wall now op) ∨ pt = .waiting ∨
      ∃ pt', t.calls[j]? = some pt' ∧
        (t.system.callStep pt') = ((t.after b m).system, pt) := by
  have new {first : CallPoint} (found : (t.calls ++ [first])[j]? = some pt) :
      t.calls[j]? = some pt ∨ pt = first := by
    rw [List.getElem?_append] at found
    split at found
    · exact .inl found
    · refine .inr ?_
      obtain ⟨inside, same⟩ := List.getElem?_eq_some_iff.1 found
      simpa using same.symm
  cases m with
  | beside s => exact .inl found
  | enqueue wall now op =>
    rcases new found with before | first
    · exact .inl before
    · exact .inr (.inl ⟨wall, now, op, first⟩)
  | wait =>
    rcases new found with before | first
    · exact .inl before
    · exact .inr (.inr (.inl first))
  | call i =>
    cases here : t.calls[i]? with
    | none =>
      simp only [after, here] at found
      exact .inl found
    | some pt' =>
      simp only [after, here] at found ⊢
      rw [List.getElem?_set] at found
      split at found
      · next same =>
        subst same
        split at found
        · cases found
          exact .inr (.inr (.inr ⟨pt', here, rfl⟩))
        · cases found
      · exact .inl found

/-- Every call has told at most what was told last. -/
def Told (t : Callers σ) : Prop :=
  ∀ (j : Nat) (pt : CallPoint), t.calls[j]? = some pt → pt.UpTo t.lastTold

theorem Told.after {m : CallMove σ} (h : t.Told) (order : t.lastTold ≤ (t.after b m).lastTold) :
    (t.after b m).Told := by
  intro j pt found
  rcases calls_after found with before | ⟨wall, now, op, rfl⟩ | rfl | ⟨pt', before, step⟩
  · have upTo := h j pt before
    cases pt with
    | told | enqueued => exact Nat.le_trans upTo order
    | _ => trivial
  · trivial
  · trivial
  · have upTo := h j pt' before
    have order' : t.lastTold ≤ (t.system.callStep pt').1.control.lastPut := by rwa [step]
    have kept := Background.upTo_callStep upTo order'
    rwa [step] at kept

/-- A version was told, and the calls from some number on wait for it, or for later ones, or not at all. -/
structure Covers (t : Callers σ) (version made : Nat) : Prop where
  told : version ≤ t.lastTold
  calls : ∀ (j : Nat) (pt : CallPoint), made ≤ j → t.calls[j]? = some pt → pt.AtLeast version

theorem Covers.after {m : CallMove σ} {version made : Nat} (h : t.Covers version made)
    (order : t.lastTold ≤ (t.after b m).lastTold) : (t.after b m).Covers version made where
  told := Nat.le_trans h.told order
  calls j pt later found := by
    rcases calls_after found with before | ⟨wall, now, op, rfl⟩ | rfl | ⟨pt', before, step⟩
    · exact h.calls j pt later before
    · trivial
    · trivial
    · have kept := Background.atLeast_callStep (h.calls j pt' later before) h.told
      rwa [step] at kept

/-- What is promised of the version that was told last, and of waits. -/
structure KeepsWord (b : Backend σ) (t : Callers σ) (moves : List (CallMove σ)) : Prop where
  /-- It never decreases. -/
  advances : ∀ front middle back, moves = front ++ middle ++ back →
    (t.run b front).lastTold ≤ (t.run b (front ++ middle)).lastTold
  /-- A wait that is made after an operation was enqueued is over only when the version of that operation
  is delivered. -/
  waits : ∀ first second j back version pt, moves = first ++ second ++ .call j :: back →
    .enqueued version ∈ (t.run b first).calls → (t.run b first).calls.length ≤ j →
    (t.run b (first ++ second)).calls[j]? = some pt → pt.Looks →
    ((t.run b (first ++ second)).system.callStep pt).2 = .delivered →
    version ≤ (t.run b (first ++ second)).system.control.consumed

/-- If the version that was told last never decreases, the versions are told in order. -/
theorem tellsInOrder_of_advances {moves : List (CallMove σ)}
    (advances : ∀ front middle back, moves = front ++ middle ++ back →
      (t.run b front).lastTold ≤ (t.run b (front ++ middle)).lastTold) : t.TellsInOrder b moves := by
  induction moves generalizing t with
  | nil => exact List.pairwise_singleton _ _
  | cons m moves ih =>
    refine tellsInOrder_cons.2 ⟨advances [] [m] moves rfl, ih fun front middle back split => ?_⟩
    exact advances (m :: front) middle back (by rw [split]; rfl)

/-- A wait that is made after a version was told is for this version, or for a later one. -/
theorem TellsInOrder.covers {first second back : List (CallMove σ)}
    (h : t.TellsInOrder b (first ++ (second ++ back))) (start : t.Told) {version : Nat}
    (enqueued : .enqueued version ∈ (t.run b first).calls) :
    (t.run b (first ++ second)).Covers version (t.run b first).calls.length := by
  obtain ⟨told, rest⟩ := h.induct (P := Told) (fun _ _ h order => h.after order) start
  obtain ⟨i, found⟩ := List.getElem?_of_mem enqueued
  have begins : (t.run b first).Covers version (t.run b first).calls.length := by
    refine ⟨told i _ found, fun j pt later found => ?_⟩
    rw [List.getElem?_eq_none later] at found
    cases found
  rw [run_append]
  exact (rest.induct (P := (Covers · version _)) (fun _ _ h order => h.after order) begins).1

/-- **Waits keep their word if and only if the versions are told in order**, whatever the consumer and all
others do, and however many calls there are. -/
theorem keepsWord_iff (b : Backend σ) (p : Background σ) (moves : List (CallMove σ)) :
    (Callers.mk p []).KeepsWord b moves ↔ (Callers.mk p []).TellsInOrder b moves := by
  refine ⟨fun h => tellsInOrder_of_advances h.advances, fun h => ⟨?_, ?_⟩⟩
  · rintro front middle back rfl
    rw [List.append_assoc] at h
    have rest := (h.induct (P := fun _ => True) (fun _ _ _ _ => trivial) trivial).2
    rw [run_append]
    exact rest.le
  · rintro first second j back version pt rfl enqueued later found looks ended
    rw [List.append_assoc] at h
    have start : (Callers.mk p []).Told := fun _ _ found => by cases found
    have covers := h.covers start enqueued
    exact Background.le_consumed_of_callStep looks (covers.calls j pt later found) covers.told ended

open Background in
/-- The first operation is put and delivered, but its version is not told yet when the second one is
enqueued. -/
def enqueueBeside : List (CallMove Nat) :=
  [.beside (.start 0), .enqueue 5 0 (forget "a"), .call 0, .call 0] ++
    List.replicate 4 (.beside (.consumer 0)) ++ List.replicate 3 (.beside (.consumer 4000000)) ++
    [.enqueue 6 0 (forget "b"), .call 1, .call 1, .call 1, .call 1]

/-- Then it is told, and someone waits. -/
def tellAndWait : List (CallMove Nat) :=
  [.call 0, .wait, .call 2, .call 2]

open Background in
/-- **A wait is over too early**: only the first operation is delivered, and the second one was enqueued
before the wait was made. -/
theorem not_keepsWord_overtaken :
    ∃ d' p, create Disk.empty 1 ⟨"RUN-1", .run⟩ shortSettings 5 1 0 = (d', .ok p) ∧
      ((Callers.mk p []).run secondAttempt enqueueBeside).calls = [.stored 0 1 false, .enqueued 2] ∧
      ((Callers.mk p []).run secondAttempt (enqueueBeside ++ tellAndWait ++ [.call 2])).calls =
        [.told 0 1, .enqueued 2, .delivered] ∧
      ((Callers.mk p []).run secondAttempt (enqueueBeside ++ tellAndWait)).system.control.consumed = 1 ∧
      ¬ (Callers.mk p []).KeepsWord secondAttempt (enqueueBeside ++ tellAndWait ++ [.call 2]) := by
  have facts : (create Disk.empty 1 ⟨"RUN-1", .run⟩ shortSettings 5 1 0).2.toOption.map (fun p =>
      (((Callers.mk p []).run secondAttempt enqueueBeside).calls,
        ((Callers.mk p []).run secondAttempt (enqueueBeside ++ tellAndWait ++ [.call 2])).calls,
        ((Callers.mk p []).run secondAttempt (enqueueBeside ++ tellAndWait)).system.control.consumed,
        ((Callers.mk p []).run secondAttempt (enqueueBeside ++ tellAndWait)).calls[2]?,
        (((Callers.mk p []).run secondAttempt (enqueueBeside ++ tellAndWait)).system.callStep .woken).2)) =
      some ([.stored 0 1 false, .enqueued 2], [.told 0 1, .enqueued 2, .delivered], 1,
        some .woken, .delivered) := by decide +kernel
  obtain ⟨d', p, created, facts⟩ := exists_created facts
  simp only [Prod.mk.injEq] at facts
  obtain ⟨before, after, consumed, woken, ended⟩ := facts
  refine ⟨d', p, created, before, after, consumed, fun keeps => ?_⟩
  have delivered := keeps.waits enqueueBeside tellAndWait 2 [] 2 .woken rfl (by simp [before])
    (by simp [before]) woken trivial ended
  rw [consumed] at delivered
  exact absurd delivered (by decide)

end Callers

end Outbox
