import Outbox.Proofs.Delivery.Footprint
import Outbox.Proofs.Delivery.Places

/-!
# Executions side by side

Executions of one process share the disk. Each has a queue in its folder, and whatever one of them does, in any
order, is no matter to the others as long as no folder of one is the folder of another one, or lies in it.

* `Party` is an execution in the background or an offline one, and `Act` is what it may do next;
* `SharedDisk` is a disk with its tenants, `Turn` is what may happen on it, and `SharedDisk.run` any number of
  turns;
* `Party.Keeps.act`, `Party.Keeps.touched` and `Party.Keeps.aside` are the laws of one party, and
  `Arrival.settles` that of its beginning;
* `SharedDisk.Sound` is the invariant, with `Sound.act` and `Sound.arrive` for the turns;
* `SharedDisk.KeepsApart` is what holds then, and `keepsApart` the result; `mixed_sameTime` shows two executions
  that have one folder.
-/

namespace Outbox

/-! ## Parties -/

/-- An execution that keeps its operations on the disk. -/
inductive Party (σ : Type) where
  | background (p : Background σ)
  | offline (p : Offline)

/-- What an execution may do. -/
inductive Act (σ : Type) where
  | background (s : Section σ)
  | offline (c : OfflineCall)

namespace Party

variable {σ : Type}

def disk : Party σ → Disk
  | .background p => p.disk
  | .offline p => p.disk

def queue : Party σ → Queue
  | .background p => p.queue
  | .offline p => p.queue

/-- Where the queue lies. -/
def place (x : Party σ) : Place :=
  x.queue.folder

/-- The disk has changed. -/
def on (d : Disk) : Party σ → Party σ
  | .background p => .background { p with disk := d }
  | .offline p => .offline { p with disk := d }

@[simp] theorem disk_on (d : Disk) (x : Party σ) : (x.on d).disk = d := by
  cases x <;> rfl

@[simp] theorem queue_on (d : Disk) (x : Party σ) : (x.on d).queue = x.queue := by
  cases x <;> rfl

@[simp] theorem place_on (d : Disk) (x : Party σ) : (x.on d).place = x.place := by
  rw [place, queue_on, place]

@[simp] theorem on_on (d d' : Disk) (x : Party σ) : (x.on d).on d' = x.on d' := by
  cases x <;> rfl

@[simp] theorem on_disk (x : Party σ) : x.on x.disk = x := by
  cases x <;> rfl

/-- Everything after an act. -/
def act (b : Backend σ) : Party σ → Act σ → Party σ
  | .background p, .background s => .background (p.after b s)
  | .offline p, .offline c => .offline (p.after c)
  | x, _ => x

/-- The record that an act puts. -/
def stored? : Party σ → Act σ → Option (Record Operation)
  | .background p, .background s => p.stored? s
  | .offline p, .offline c => p.stored? c
  | _, _ => none

/-- The batch that an act ends. -/
def ended? (b : Backend σ) : Party σ → Act σ → Option Ended
  | .background p, .background s => p.ended? b s
  | _, _ => none

/-- Whether an act may come next. The disk is left to the others. -/
def CanDo : Party σ → Act σ → Prop
  | .background p, .background s => p.Allows s ∧ ∀ d, s ≠ .disk d
  | .offline p, .offline c => p.Allows c
  | _, _ => True

/-- Whether an act may come next that hands over no file in some folders. -/
def Allows (homes : List Place) (x : Party σ) (a : Act σ) : Prop :=
  x.CanDo a ∧ ∀ r, x.stored? a = some r → ∀ home ∈ homes, r.obj.Spares home

/-- An act that puts nothing hands over nothing. -/
theorem allows_of_none {homes : List Place} {x : Party σ} {a : Act σ} (can : x.CanDo a) (nothing : x.stored? a = none) :
    x.Allows homes a :=
  ⟨can, fun r put => by cases nothing.symm.trans put⟩

/-- An execution is in order, where these records were put and these batches ended. -/
def Keeps (records : List (Record Operation)) (ended : List Ended) : Party σ → Prop
  | .background p => ∃ l shipments flight, p.InOrder l shipments flight ∧ l.records = records ∧
      shipments.map Shipment.ended = ended
  | .offline p => ended = [] ∧ ∃ l, p.Keeps l ∧ l.records = records

/-- The records of an execution are its own: its batches stand for records that it put, one after the other, and
whoever opens its queue later reads those that were not acknowledged. -/
structure Own (records : List (Record Operation)) (ended : List Ended) (x : Party σ) : Prop where
  accounted : ∃ shipments, Accounts ended records shipments ∧ x.queue.lastAck ≤ (delivered shipments).length
  put : x.queue.lastPut = records.length
  readable : records.drop x.queue.lastAck ≠ [] → ∀ maxSize n, ∃ d' q',
    Queue.openIn (x.queue.drop x.disk) x.place maxSize = (d', .ok q') ∧
    (q'.getUpTo (α := Operation) d' n).result =
      .ok (((records.drop x.queue.lastAck).take n).map ListQueue.element)

variable {b : Backend σ} {x : Party σ} {records : List (Record Operation)} {ended : List Ended} {a : Act σ}

/-- The queue stays where it is. -/
theorem Keeps.place_act (h : x.Keeps records ended) (b : Backend σ) (a : Act σ) : (x.act b a).place = x.place := by
  cases x with
  | background p =>
    cases a with
    | background s => exact Background.folder_after b p s
    | offline c => rfl
  | offline p =>
    cases a with
    | background s => rfl
    | offline c =>
      obtain ⟨-, l, keeps, -⟩ := h
      exact (Offline.stays_after keeps.atHome c).folder

/-- **An execution stays in order.** -/
theorem Keeps.act (h : x.Keeps records ended) (b : Backend σ) (can : x.CanDo a) :
    (x.act b a).Keeps (records ++ (x.stored? a).toList) (ended ++ (x.ended? b a).toList) := by
  cases x with
  | background p =>
    cases a with
    | background s =>
      obtain ⟨l, shipments, flight, inOrder, rfl, rfl⟩ := h
      obtain ⟨l', more, flight', inOrder', batches, puts, -, -⟩ := inOrder.after (b := b) can.1
      exact ⟨l', shipments ++ more, flight', inOrder', puts, by rw [List.map_append, batches]; rfl⟩
    | offline c =>
      show Party.Keeps (records ++ []) (ended ++ []) _
      rw [List.append_nil, List.append_nil]
      exact h
  | offline p =>
    cases a with
    | background s =>
      show Party.Keeps (records ++ []) (ended ++ []) _
      rw [List.append_nil, List.append_nil]
      exact h
    | offline c =>
      obtain ⟨rfl, l, keeps, rfl⟩ := h
      exact ⟨rfl, keeps.after can⟩

/-- An execution works in its folder, and removes files that its records hand over. -/
theorem Keeps.touched (h : x.Keeps records ended) (b : Backend σ) (can : x.CanDo a) :
    x.disk.Touched (x.act b a).disk x.place records := by
  cases x with
  | background p =>
    cases a with
    | background s =>
      obtain ⟨l, shipments, flight, inOrder, rfl, -⟩ := h
      exact inOrder.touched b can.1 can.2
    | offline c => exact .of_eq rfl
  | offline p =>
    cases a with
    | background s => exact .of_eq rfl
    | offline c =>
      obtain ⟨-, l, keeps, -⟩ := h
      exact .inside (Offline.stays_after keeps.atHome c).inside

/-- An execution does not notice what leaves its folder alone. -/
theorem Keeps.aside (h : x.Keeps records ended) {d : Disk} (aside : x.disk.Aside d x.place) :
    (x.on d).Keeps records ended := by
  cases x with
  | background p =>
    obtain ⟨l, shipments, flight, inOrder, facts⟩ := h
    exact ⟨l, shipments, flight, inOrder.aside aside, facts⟩
  | offline p =>
    obtain ⟨none_ended, l, keeps, facts⟩ := h
    exact ⟨none_ended, l, keeps.aside aside, facts⟩

/-- **An execution that is in order delivers what is its own**, and nothing else. -/
theorem Keeps.own (h : x.Keeps records ended) : x.Own records ended := by
  cases x with
  | background p =>
    obtain ⟨l, shipments, flight, inOrder, rfl, rfl⟩ := h
    have stores := inOrder.keeps.stores
    have lastAck : p.queue.lastAck = l.acked := stores.lastAck
    refine ⟨⟨shipments, inOrder.keeps.accounts, lastAck ▸ inOrder.acked_le⟩, stores.lastPut, ?_⟩
    show l.records.drop p.queue.lastAck ≠ [] → _
    rw [queue, lastAck]
    exact stores.readable
  | offline p =>
    obtain ⟨rfl, l, keeps, rfl⟩ := h
    obtain ⟨ids, intact⟩ := keeps.holds.intact
    have lastAck : p.queue.lastAck = l.acked := keeps.holds.acked
    refine ⟨⟨[], ⟨rfl, List.forall_mem_nil _, List.nil_prefix, rfl⟩, ?_⟩, intact.lastPut, fun _ maxSize n => ?_⟩
    · exact Nat.le_of_eq (lastAck.trans keeps.acked)
    · obtain ⟨d₁, q₁, opened, holds, -⟩ := keeps.holds.reopen maxSize
      obtain ⟨d₂, q₂, got, -⟩ := holds.getUpTo n
      rw [queue, lastAck]
      exact ⟨d₁, q₁, opened, congrArg Outcome.result got⟩

end Party

/-! ## Arrivals -/

/-- An execution that is to begin, with the time of the wall clock. -/
inductive Arrival (σ : Type) where
  | background (s : σ) (c : Container) (settings : BackgroundSettings) (wall now : Nat)
  | offline (base : String) (c : Container) (maxSegment wall : Nat)

namespace Arrival

variable {σ : Type}

/-- Begins an execution, with the disk it leaves behind also if it fails. -/
def create (d : Disk) (process : Nat) : Arrival σ → Disk × Except DeliveryError (Party σ)
  | .background s c settings wall now =>
    match Background.create d s c settings wall process now with
    | (d', r) => (d', r.map .background)
  | .offline base c maxSegment wall =>
    match Offline.create d base c maxSegment wall process with
    | (d', r) => (d', r.map .offline)

/-- Where the execution will be. -/
def place (process : Nat) : Arrival σ → Place
  | .background _ c settings wall _ => executionPlace settings.dataDir c wall process
  | .offline base c _ wall => executionPlace base c wall process

end Arrival

/-- Places where folders can be made, one beside the other. -/
structure Grounds (d : Disk) (homes : List Place) : Prop where
  apart : homes.Pairwise Place.Apart
  clear : ∀ home ∈ homes, d.Clear home
  named : ∀ home ∈ homes, home.all isName = true
  /-- The paths go down. -/
  straight : ∀ home ∈ homes, ".." ∉ home

/-- **An execution settles at its place**, and is in order if it begins. -/
theorem Arrival.settles {σ : Type} {d : Disk} {process : Nat} {a : Arrival σ} (nothing : d.Clear (a.place process))
    (named : (a.place process).all isName = true) (straight : ".." ∉ a.place process) :
    d.Settles (a.create d process).1 (a.place process) ∧
      ∀ x, (a.create d process).2 = .ok x →
        x.disk = (a.create d process).1 ∧ x.place = a.place process ∧ x.Keeps [] [] := by
  cases a with
  | background s c settings wall now =>
    obtain ⟨settles, begins⟩ := Execution.settles_begin nothing named straight settings.maxSegment .async
    have same := Background.create_eq d s c settings wall process now
    generalize Execution.begin d settings.dataDir c settings.maxSegment .async wall process = o at settles begins same
    obtain ⟨d', e | ⟨e, q⟩⟩ := o
    · rw [create, same]
      exact ⟨settles, fun _ arrived => by cases arrived⟩
    · have inOrder := Background.inOrder_create same fun d₁ e created => by
        rcases Execution.create_cases nothing named straight with ⟨_, failed⟩ | ⟨_, _, created', -, -, blank⟩
        · cases failed.symm.trans created
        · cases created'.symm.trans created
          exact blank
      rw [create, same]
      refine ⟨settles, fun x arrived => ?_⟩
      cases arrived
      exact ⟨rfl, (begins e q rfl).2, .empty, [], [], inOrder, rfl, rfl⟩
  | offline base c maxSegment wall =>
    obtain ⟨settles, begins⟩ := Execution.settles_begin nothing named straight maxSegment .offline
    rw [create, Offline.create_eq]
    generalize Execution.begin d base c maxSegment .offline wall process = o at settles begins ⊢
    obtain ⟨d', e | ⟨e, q⟩⟩ := o
    · exact ⟨settles, fun _ arrived => by cases arrived⟩
    · refine ⟨settles, fun x arrived => ?_⟩
      cases arrived
      obtain ⟨holds, folder⟩ := begins e q rfl
      exact ⟨rfl, folder, rfl, .empty, ⟨holds, rfl⟩, rfl⟩

/-! ## A shared disk -/

/-- An execution, with the records that it put and the batches that ended. -/
structure Tenant (σ : Type) where
  party : Party σ
  records : List (Record Operation)
  ended : List Ended

/-- A disk and the executions that began on it. -/
structure SharedDisk (σ : Type) where
  disk : Disk
  tenants : List (Tenant σ)

/-- What may happen on a shared disk: an execution begins, or the one of a number does something. -/
inductive Turn (σ : Type) where
  | arrive (a : Arrival σ)
  | act (i : Nat) (a : Act σ)

/-- The places of the executions that are to begin. -/
def homes {σ : Type} (process : Nat) (turns : List (Turn σ)) : List Place :=
  turns.filterMap fun
    | .arrive a => some (a.place process)
    | .act .. => none

namespace Tenant

variable {σ : Type}

def place (t : Tenant σ) : Place :=
  t.party.place

/-- Everything after an act, with what was put and ended noted. -/
def act (b : Backend σ) (t : Tenant σ) (a : Act σ) : Tenant σ :=
  ⟨t.party.act b a, t.records ++ (t.party.stored? a).toList, t.ended ++ (t.party.ended? b a).toList⟩

/-- An execution on a disk as the others left it. -/
def on (d : Disk) (t : Tenant σ) : Tenant σ :=
  { t with party := t.party.on d }

end Tenant

namespace SharedDisk

variable {σ : Type}

/-- A disk on which no execution began yet. -/
def vacant (d : Disk) : SharedDisk σ :=
  ⟨d, []⟩

/-- Everything after a turn. -/
def after (b : Backend σ) (process : Nat) (s : SharedDisk σ) : Turn σ → SharedDisk σ
  | .arrive a =>
    match a.create s.disk process with
    | (d, .error _) => { s with disk := d }
    | (d, .ok x) => ⟨d, s.tenants ++ [⟨x, [], []⟩]⟩
  | .act i a =>
    match s.tenants[i]? with
    | none => s
    | some t =>
      let t' := (t.on s.disk).act b a
      ⟨t'.party.disk, s.tenants.set i t'⟩

/-- Everything after some turns. -/
def run (b : Backend σ) (process : Nat) (s : SharedDisk σ) : List (Turn σ) → SharedDisk σ
  | [] => s
  | m :: turns => run b process (s.after b process m) turns

/-- Whether a turn may come next: what is put can be stored, and hands over no file in a folder of an execution. -/
def Allows (s : SharedDisk σ) (homes : List Place) : Turn σ → Prop
  | .arrive _ => True
  | .act i a => ∀ t, s.tenants[i]? = some t → (t.party.on s.disk).Allows homes a

/-- Whether turns may come one after the other. -/
def AllowsAll (b : Backend σ) (process : Nat) (homes : List Place) (s : SharedDisk σ) : List (Turn σ) → Prop
  | [] => True
  | m :: turns => s.Allows homes m ∧ AllowsAll b process homes (s.after b process m) turns

/-- A turn left the executions alone that it does not concern: each is as it was, and so is its folder. -/
def Leaves (s s' : SharedDisk σ) (turn : Turn σ) : Prop :=
  ∀ i t, s.tenants[i]? = some t → (∀ a, turn ≠ .act i a) → s'.tenants[i]? = some t ∧ s.disk.Aside s'.disk t.place

theorem after_act {b : Backend σ} {process : Nat} {s : SharedDisk σ} {i : Nat} {t : Tenant σ}
    (here : s.tenants[i]? = some t) (a : Act σ) : s.after b process (.act i a) =
      ⟨((t.on s.disk).act b a).party.disk, s.tenants.set i ((t.on s.disk).act b a)⟩ := by
  simp only [after, here]

theorem after_act_absent {b : Backend σ} {process : Nat} {s : SharedDisk σ} {i : Nat}
    (here : s.tenants[i]? = none) (a : Act σ) : s.after b process (.act i a) = s := by
  simp only [after, here]

end SharedDisk

/-! ## The invariant -/

/-- What holds of a tenant at all times, where executions may be in some places and are still to come in some of
them. -/
structure Tenant.Sound {σ : Type} (t : Tenant σ) (d : Disk) (known later : List Place) : Prop where
  keeps : (t.party.on d).Keeps t.records t.ended
  spared : ∀ r ∈ t.records, ∀ home ∈ known, r.obj.Spares home
  home : t.place ∈ known
  apart : ∀ home ∈ later, Place.Apart t.place home

/-- What holds of a shared disk. -/
structure SharedDisk.Sound {σ : Type} (s : SharedDisk σ) (known later : List Place) : Prop where
  divides : s.disk.Divides (s.tenants.map Tenant.place)
  tenants : ∀ t ∈ s.tenants, t.Sound s.disk known later
  coming : ∀ home ∈ later, home ∈ known
  grounds : Grounds s.disk later

section

variable {σ : Type} {b : Backend σ} {process : Nat} {d : Disk} {s : SharedDisk σ} {t : Tenant σ} {a : Act σ}
  {known later : List Place} {home : Place}

namespace Grounds

theorem tail (h : Grounds d (home :: later)) : Grounds d later where
  apart := h.apart.of_cons
  clear other member := h.clear other (List.mem_cons_of_mem _ member)
  named other member := h.named other (List.mem_cons_of_mem _ member)
  straight other member := h.straight other (List.mem_cons_of_mem _ member)

/-- Places stay free where nothing happens. -/
theorem cleared (h : Grounds d later) {d' : Disk} (clear : ∀ home ∈ later, d.Clear home → d'.Clear home) :
    Grounds d' later :=
  ⟨h.apart, fun home member => clear home member (h.clear home member), h.named, h.straight⟩

end Grounds

namespace Tenant.Sound

theorem tail (h : t.Sound d known (home :: later)) : t.Sound d known later :=
  ⟨h.keeps, h.spared, h.home, fun other member => h.apart other (List.mem_cons_of_mem _ member)⟩

/-- A tenant does not notice what leaves its folder alone. -/
theorem aside (h : t.Sound d known later) {d' : Disk} (aside : d.Aside d' t.place) : t.Sound d' known later where
  keeps := by
    have kept := h.keeps.aside (d := d')
    rw [Party.disk_on, Party.place_on, Party.on_on] at kept
    exact kept aside
  spared := h.spared
  home := h.home
  apart := h.apart

theorem place_act (h : t.Sound d known later) (b : Backend σ) (a : Act σ) : ((t.on d).act b a).place = t.place :=
  (h.keeps.place_act b a).trans (Party.place_on d t.party)

/-- A tenant stays in order. -/
theorem act (h : t.Sound d known later) (b : Backend σ) (allowed : (t.party.on d).Allows known a) :
    ((t.on d).act b a).Sound ((t.on d).act b a).party.disk known later where
  keeps := by
    show (((t.party.on d).act b a).on ((t.party.on d).act b a).disk).Keeps _ _
    rw [Party.on_disk]
    exact h.keeps.act b allowed.1
  spared r put := by
    rcases List.mem_append.1 put with old | new
    · exact h.spared r old
    · exact allowed.2 r (Option.mem_toList.1 new)
  home := h.place_act b a ▸ h.home
  apart := h.place_act b a ▸ h.apart

/-- A tenant works in its folder. -/
theorem touched (h : t.Sound d known later) (b : Backend σ) (allowed : (t.party.on d).Allows known a) :
    d.Touched ((t.on d).act b a).party.disk t.place t.records := by
  have touched := h.keeps.touched b allowed.1
  rwa [Party.disk_on, Party.place_on] at touched

end Tenant.Sound

/-- An element of a list with one replaced is the new one, or stands at another place. -/
theorem getElem?_of_mem_set {α : Type} {l : List α} {i : Nat} {x y : α} (inside : i < l.length)
    (member : y ∈ l.set i x) : y = x ∨ ∃ j, j ≠ i ∧ l[j]? = some y := by
  obtain ⟨j, found⟩ := List.getElem?_of_mem member
  by_cases same : i = j
  · subst same
    rw [List.getElem?_set_self inside] at found
    exact .inl (Option.some.inj found).symm
  · rw [List.getElem?_set_ne same] at found
    exact .inr ⟨j, Ne.symm same, found⟩

namespace SharedDisk.Sound

/-- Different tenants have different places. -/
theorem place_ne (h : s.Sound known later) {i j : Nat} {t u : Tenant σ} (here : s.tenants[i]? = some t)
    (there : s.tenants[j]? = some u) (ne : j ≠ i) : u.place ≠ t.place := by
  obtain ⟨insideI, rfl⟩ := List.getElem?_eq_some_iff.1 here
  obtain ⟨insideJ, rfl⟩ := List.getElem?_eq_some_iff.1 there
  have strangers := List.pairwise_iff_getElem.1 (List.pairwise_map.1 h.divides.strangers)
  rcases Nat.lt_or_gt_of_ne ne with before | behind
  · exact (strangers _ _ insideJ insideI before).apart.ne
  · exact (strangers _ _ insideI insideJ behind).apart.ne.symm

/-- **An act of one tenant** leaves everything sound, and the other ones alone. -/
theorem act (h : s.Sound known later) {i : Nat} (allowed : s.Allows known (.act i a)) :
    (s.after b process (.act i a)).Sound known later ∧
      s.Leaves (s.after b process (.act i a)) (.act i a) := by
  cases here : s.tenants[i]? with
  | none =>
    rw [after_act_absent here]
    exact ⟨h, fun _ t there _ => ⟨there, .refl s.disk t.place⟩⟩
  | some t =>
    have sound := h.tenants t (List.mem_of_getElem? here)
    have allowed := allowed t here
    have touched := sound.touched b allowed
    have place := sound.place_act b a
    have sound' := sound.act b allowed
    rw [after_act here]
    generalize (t.on s.disk).act b a = t' at touched place sound' ⊢
    have listed {j : Nat} {u : Tenant σ} (there : s.tenants[j]? = some u) :
        u.place ∈ s.tenants.map Tenant.place := List.mem_map_of_mem (List.mem_of_getElem? there)
    have spared : ∀ r ∈ t.records, ∀ folder ∈ s.tenants.map Tenant.place, r.obj.Spares folder :=
      fun r put => List.forall_mem_map.2 fun u member => sound.spared r put u.place (h.tenants u member).home
    obtain ⟨divides, aside⟩ := h.divides.touched (listed here) touched spared
    have left {j : Nat} {u : Tenant σ} (ne : j ≠ i) (there : s.tenants[j]? = some u) :
        s.disk.Aside t'.party.disk u.place := aside u.place (listed there) (h.place_ne here there ne)
    obtain ⟨inside, rfl⟩ := List.getElem?_eq_some_iff.1 here
    have places : (s.tenants.set i t').map Tenant.place = s.tenants.map Tenant.place := by
      rw [List.map_set, place, ← List.getElem_map Tenant.place, List.set_getElem_self]
      simpa using inside
    refine ⟨⟨?_, fun u member => ?_, h.coming, ?_⟩, fun j u there other => ?_⟩
    · show t'.party.disk.Divides ((s.tenants.set i t').map Tenant.place)
      exact places ▸ divides
    · rcases getElem?_of_mem_set inside member with rfl | ⟨j, ne, there⟩
      · exact sound'
      · exact (h.tenants u (List.mem_of_getElem? there)).aside (left ne there)
    · exact h.grounds.cleared fun home coming => touched.clear (sound.apart home coming)
    · have ne : j ≠ i := fun same => other a (same ▸ rfl)
      exact ⟨(List.getElem?_set_ne ne.symm).trans there, left ne there⟩

/-- **An execution that begins** leaves everything sound, and the other ones alone. -/
theorem arrive {a : Arrival σ} (h : s.Sound known (a.place process :: later)) :
    (s.after b process (.arrive a)).Sound known later ∧
      s.Leaves (s.after b process (.arrive a)) (.arrive a) := by
  have grounds := h.grounds
  have nothing := grounds.clear _ List.mem_cons_self
  have named := grounds.named _ List.mem_cons_self
  have apart : ∀ home ∈ later, Place.Apart (a.place process) home := (List.pairwise_cons.1 grounds.apart).1
  obtain ⟨settles, begins⟩ := a.settles nothing named (grounds.straight _ List.mem_cons_self)
  have away : ∀ folder ∈ s.tenants.map Tenant.place, Place.Apart folder (a.place process) :=
    List.forall_mem_map.2 fun t member => (h.tenants t member).apart _ List.mem_cons_self
  obtain ⟨divides, aside⟩ := h.divides.settles nothing named away settles
  have grounds' : Grounds (a.create s.disk process).1 later :=
    grounds.tail.cleared fun home coming => settles.clear (apart home coming)
  have coming (home : Place) (member : home ∈ later) : home ∈ known := h.coming home (List.mem_cons_of_mem _ member)
  unfold after
  dsimp only
  generalize a.create s.disk process = o at divides aside grounds' begins ⊢
  have left {t : Tenant σ} (member : t ∈ s.tenants) : s.disk.Aside o.1 t.place :=
    aside t.place (List.mem_map_of_mem member)
  have sound : ∀ t ∈ s.tenants, t.Sound o.1 known later := fun t member =>
    ((h.tenants t member).aside (left member)).tail
  obtain ⟨d, e | x⟩ := o
  · refine ⟨⟨divides.sublist (List.sublist_append_left _ _), sound, coming, grounds'⟩, fun i t there _ => ?_⟩
    exact ⟨there, left (List.mem_of_getElem? there)⟩
  · obtain ⟨disk, place, keeps⟩ := begins x rfl
    have same : x.on d = x := (congrArg x.on disk.symm).trans x.on_disk
    have place : Tenant.place ⟨x, [], []⟩ = a.place process := place
    have sound' : Tenant.Sound ⟨x, [], []⟩ d known later :=
      ⟨same.symm ▸ keeps, List.forall_mem_nil _, place ▸ h.coming _ List.mem_cons_self,
        place ▸ apart⟩
    refine ⟨⟨?_, ?_, coming, grounds'⟩, fun i t there _ => ?_⟩
    · show d.Divides ((s.tenants ++ [(⟨x, [], []⟩ : Tenant σ)]).map Tenant.place)
      rw [List.map_append, List.map_singleton, place]
      exact divides
    · exact List.forall_mem_append.2 ⟨sound, List.forall_mem_singleton.2 sound'⟩
    · have inside : i < s.tenants.length := (List.getElem?_eq_some_iff.1 there).1
      exact ⟨(List.getElem?_append_left inside).trans there, left (List.mem_of_getElem? there)⟩

/-- One turn. -/
theorem after {turn : Turn σ} {turns : List (Turn σ)} (h : s.Sound known (homes process (turn :: turns)))
    (allowed : s.Allows known turn) :
    (s.after b process turn).Sound known (homes process turns) ∧ s.Leaves (s.after b process turn) turn := by
  cases turn with
  | arrive a => exact h.arrive
  | act i a => exact h.act allowed

/-- **The disk stays sound**, however many turns there are. -/
theorem run {turns front back : List (Turn σ)} (h : s.Sound known (homes process turns))
    (allowed : s.AllowsAll b process known turns) (split : turns = front ++ back) :
    (s.run b process front).Sound known (homes process back) ∧
      (s.run b process front).AllowsAll b process known back := by
  subst split
  induction front generalizing s with
  | nil => exact ⟨h, allowed⟩
  | cons turn front ih => exact ih (h.after allowed.1).1 allowed.2

end SharedDisk.Sound

end

/-! ## What holds -/

namespace SharedDisk

variable {σ : Type}

theorem run_concat (b : Backend σ) (process : Nat) (s : SharedDisk σ) (front : List (Turn σ)) (turn : Turn σ) :
    s.run b process (front ++ [turn]) = (s.run b process front).after b process turn := by
  induction front generalizing s with
  | nil => rfl
  | cons first front ih => exact ih _

/-- Executions keep to themselves, whatever they do. -/
structure KeepsApart (b : Backend σ) (process : Nat) (s : SharedDisk σ) (turns : List (Turn σ)) : Prop where
  /-- No folder is that of another one, or lies in it. -/
  apart : ((s.run b process turns).tenants.map Tenant.place).Pairwise Place.Apart
  /-- Each delivers and acknowledges records that it put, and the others are there for it. -/
  own : ∀ t ∈ (s.run b process turns).tenants,
    (t.party.on (s.run b process turns).disk).Own t.records t.ended
  /-- What one of them does is no matter to the others. -/
  leaves : ∀ {front back : List (Turn σ)} {turn : Turn σ}, turns = front ++ turn :: back →
    (s.run b process front).Leaves (s.run b process (front ++ [turn])) turn

/-- **Executions of one process keep apart** if their folders do. The folders of executions of one base folder
keep apart just if no two of one container begin at one time, where the names of containers are steps of a path. -/
theorem keepsApart (b : Backend σ) {d : Disk} {process : Nat} {turns : List (Turn σ)}
    (grounds : Grounds d (homes process turns))
    (allowed : (vacant d).AllowsAll b process (homes process turns) turns) :
    (vacant d).KeepsApart b process turns ∧
      ∀ {base : String} {c c' : Container}, '/' ∉ c.id.toList → '/' ∉ c'.id.toList → ∀ wall wall',
        (Place.Apart (executionPlace base c wall process) (executionPlace base c' wall' process) ↔
          ¬ (c = c' ∧ wall = wall')) := by
  refine ⟨?_, fun plain plain' wall wall' => apart_executionPlace_iff plain plain' wall wall' process⟩
  have begins : Sound (σ := σ) (vacant d) (homes process turns) (homes process turns) :=
    ⟨.nil d, List.forall_mem_nil _, fun _ => id, grounds⟩
  have sound := (begins.run allowed (List.append_nil turns).symm).1
  refine ⟨sound.divides.strangers.imp fun strangers => strangers.apart,
    fun t member => (sound.tenants t member).keeps.own, ?_⟩
  intro front back turn split
  obtain ⟨before, allowed'⟩ := begins.run allowed split
  rw [run_concat]
  exact (before.after allowed'.1).2

/-! ## Two executions -/

open Background (forget secondAttempt shortSettings)

/-- An operation that hands over no file may be enqueued if it can be stored. -/
theorem allows_forget {s : SharedDisk σ} {known : List Place} {versions : List Nat}
    (lastPuts : s.tenants.map (fun t => t.party.queue.lastPut) = versions) {i n : Nat} (here : versions[i]? = some n)
    {name : String} {wall : Nat} (durable : Record.Durable ⟨forget name, n + 1, wall⟩) (wait : Bool) :
    s.Allows known (.act i (.background (.put wall (forget name)))) ∧
      s.Allows known (.act i (.offline (.enqueue wall (forget name) wait))) := by
  have spares (folder : Place) : (forget name).Spares folder := fun _ _ upload => Mutation.noConfusion upload
  have lastPut {t : Tenant σ} (there : s.tenants[i]? = some t) : t.party.queue.lastPut = n := by
    rw [← lastPuts, List.getElem?_map, there] at here
    exact Option.some.inj here
  constructor <;> intro t there <;> have next := lastPut there <;> generalize t.party = x at next
  · cases x with
    | background p =>
      refine ⟨⟨⟨fun _ => ?_, spares _⟩, fun d => nofun⟩, fun r put home _ => ?_⟩
      · exact (show p.queue.lastPut = n from next) ▸ durable
      · have obj : r.obj = forget name := by
          simp only [Party.stored?, Party.on, Background.stored?] at put
          split at put <;> cases put
          rfl
        exact obj ▸ spares home
    | offline p => exact Party.allows_of_none trivial rfl
  · cases x with
    | background p => exact Party.allows_of_none trivial rfl
    | offline p =>
      refine ⟨fun _ => ?_, fun r put home _ => ?_⟩
      · exact (show p.queue.lastPut = n from next) ▸ durable
      · have obj : r.obj = forget name := by
          simp only [Party.stored?, Party.on, Offline.stored?] at put
          split at put <;> cases put
          rfl
        exact obj ▸ spares home

/-- A consumer may be started, and may go on. -/
theorem allows_start {s : SharedDisk σ} (known : List Place) (i now : Nat) :
    s.Allows known (.act i (.background (.start now))) ∧ s.Allows known (.act i (.background (.consumer now))) := by
  constructor <;> intro t _ <;> cases t.party with
  | background p => exact Party.allows_of_none ⟨trivial, fun d => nofun⟩ rfl
  | offline p => exact Party.allows_of_none trivial rfl

/-- Two executions of one container, of which the other begins one millisecond later. Both enqueue an operation,
and the first one delivers. -/
def oneAfterTheOther : List (Turn Nat) :=
  [.arrive (.background 1 ⟨"RUN-1", .run⟩ shortSettings 5 0), .arrive (.offline "data" ⟨"RUN-1", .run⟩ 0 6),
    .act 0 (.background (.put 5 (forget "a"))), .act 1 (.offline (.enqueue 6 (forget "b") true)),
    .act 0 (.background (.start 0))] ++
  [0, 0, 0, 0, 4000000, 4000000].map fun now => .act 0 (.background (.consumer now))

/-- The first execution delivers and acknowledges its record, and the other one keeps its own. -/
theorem keepsApart_oneAfterTheOther :
    (vacant Disk.empty).KeepsApart secondAttempt 1 oneAfterTheOther ∧
      ((vacant Disk.empty).run secondAttempt 1 oneAfterTheOther).tenants.map (fun t =>
        (t.place, t.records.map Record.obj, t.ended.map fun e => e.batch.bundle.others, t.party.queue.lastAck)) =
      [(["data", "run__RUN-1", "exec-5-1"], [forget "a"], [[forget "a"]], 1),
        (["data", "run__RUN-1", "exec-6-1"], [forget "b"], [], 0)] := by
  have places : homes 1 oneAfterTheOther =
      [["data", "run__RUN-1", "exec-5-1"], ["data", "run__RUN-1", "exec-6-1"]] := by decide +kernel
  have grounds : Grounds Disk.empty (homes 1 oneAfterTheOther) := by
    rw [places]
    exact ⟨by decide +kernel, fun _ _ => List.forall_mem_nil _, by decide +kernel, by decide +kernel⟩
  have before : ((vacant Disk.empty).run secondAttempt 1 (oneAfterTheOther.take 2)).tenants.map
      (fun t => t.party.queue.lastPut) = [0, 0] := by decide +kernel
  have between : ((vacant Disk.empty).run secondAttempt 1 (oneAfterTheOther.take 3)).tenants.map
      (fun t => t.party.queue.lastPut) = [1, 0] := by decide +kernel
  have first : Record.Durable ⟨forget "a", 0 + 1, 5⟩ := ⟨by decide +kernel, by decide +kernel⟩
  have second : Record.Durable ⟨forget "b", 0 + 1, 6⟩ := ⟨by decide +kernel, by decide +kernel⟩
  have goesOn {s : SharedDisk Nat} (now : Nat) := (allows_start (s := s) (homes 1 oneAfterTheOther) 0 now).2
  have allowed : (vacant Disk.empty).AllowsAll secondAttempt 1 (homes 1 oneAfterTheOther) oneAfterTheOther :=
    ⟨trivial, trivial, (allows_forget before rfl first false).1, (allows_forget between rfl second true).2,
      (allows_start _ 0 0).1, goesOn _, goesOn _, goesOn _, goesOn _, goesOn _, goesOn _, trivial⟩
  exact ⟨(keepsApart secondAttempt grounds allowed).1, by decide +kernel⟩

/-- Two executions of one container that begin at one time. The first one enqueues an operation, and the other one
delivers. -/
def sameTime : List (Turn Nat) :=
  [.arrive (.background 1 ⟨"RUN-1", .run⟩ shortSettings 5 0),
    .arrive (.background 1 ⟨"RUN-1", .run⟩ shortSettings 5 0),
    .act 0 (.background (.put 5 (forget "a"))), .act 0 (.background .flush), .act 1 (.background (.start 0))] ++
  [0, 0, 0, 0, 4000000, 4000000].map fun now => .act 1 (.background (.consumer now))

/-- **Executions that begin at one time share a queue.** The other one finds the record of the first one in the
folder, delivers it and acknowledges it, though it put none. -/
theorem mixed_sameTime :
    ((vacant Disk.empty).run secondAttempt 1 sameTime).tenants.map (fun t =>
        (t.place, t.records.map Record.obj, t.ended.map fun e => e.batch.bundle.others, t.party.queue.lastAck)) =
      [(["data", "run__RUN-1", "exec-5-1"], [forget "a"], [], 0),
        (["data", "run__RUN-1", "exec-5-1"], [], [[forget "a"]], 1)] := by
  decide +kernel

end SharedDisk

end Outbox
