import Outbox.Proofs.Batch.Coverage

/-!
# What a failing read loses

The records that a call has read are in no batch until the call ends. Where it ends because the service is not
reached, they are sent, or kept for the next call. Where it ends because a read fails, those before the failure
are dropped with the batch in the making, and the next call goes on behind the failure. So the version of a later
batch can stand for records that were never sent.

* `feed_tells` says of a list that it tells its items, the failures among them;
* `Spends` is what one call does with the items that are left, and which records it loses; `spends_collect` says
  that it does;
* `SpendsAll` is any number of calls, and `spendsAll_collectTimes` is the result: each record is in a batch, or
  left, or was read before a failing read of the same call;
* `collectTimes_losesRecord` is a record that is lost so, and a batch of a later version.
-/

namespace Outbox

variable {ρ σ : Type}

/-- A list tells its items. -/
theorem feed_tells : feed.Tells fun s items => s = items where
  drained := by
    rintro s rfl
    exact ⟨[], rfl, rfl⟩
  reads := by
    rintro s r items rfl
    exact ⟨items, rfl, rfl⟩
  fails := by
    rintro s e items rfl
    exact ⟨items, rfl, rfl⟩
  bounded := by
    rintro s items rfl
    exact Nat.le_refl _

/-! ## One call -/

/-- What one call answers when these items are left, which records it loses, and which items are left then. Only
a failing read loses records, those that were read before it. -/
inductive Spends (before : List (Except QueueError Queued)) :
    Except DeliveryError (Option Batch) → List Queued → List (Except QueueError Queued) → Prop
  | batch {run : List Queued} {rest : List (Except QueueError Queued)} {batch : Batch} :
      before = run.map .ok ++ rest → batch.Covers run → Spends before (.ok (some batch)) [] rest
  | drained : before = [] → Spends before (.ok none) [] []
  | unreached {e : BackendError} : e.isRetryable = true → Spends before (.error (.backend e)) [] before
  | broken {run : List Queued} {rest : List (Except QueueError Queued)} {e : QueueError} :
      before = run.map .ok ++ .error e :: rest → Spends before (.error (.queue e)) run rest

/-- A batch in the making that covers some records is given out, or there are none. -/
theorem spends_finish {c : Collecting} {run : List Queued} (covers : c.Covers run)
    {rest : List (Except QueueError Queued)} (ended : run = [] → rest = []) :
    Spends (run.map .ok ++ rest) (.ok c.finish) [] rest := by
  rcases covers.finish with ⟨unfinished, rfl⟩ | ⟨batch, finished, covers⟩
  · rw [unfinished, ended rfl]
    exact .drained rfl
  · rw [finished]
    exact .batch rfl covers

variable {src : Source ρ} {left : ρ → List (Except QueueError Queued) → Prop}

/-- **One call loses what it read before a failing read**, and nothing else. -/
theorem spends_collect (tells : src.Tells left) (b : Backend σ) (limits : Limits) (stash : Option Queued)
    {source : ρ} {items : List (Except QueueError Queued)} (hleft : left source items) {s : σ}
    {call : Collected ρ σ} (called : collect src b limits stash source s = call) :
    ∃ lost items', left call.source items' ∧
      Spends (ahead stash items) call.result lost (ahead call.stash items') := by
  obtain ⟨run, y, took, ends⟩ :=
    collectFrom_ended src b limits (src.bound source + 2) ⟨.empty, stash, source, s⟩
  obtain ⟨items', hleft', split⟩ := took.told tells hleft
  rw [show collectFrom src b limits (src.bound source + 2) _ _ _ _ = call from called] at ends
  rw [show ahead stash items = _ from split]
  have covers : y.batch.Covers run := took.covers Collecting.covers_empty
  have next {r : Queued} {source' : ρ} (read : nextRecord src y.stash y.source = (source', .ok (some r))) :
      ∃ items'', left source' items'' ∧ ahead y.stash items' = .ok r :: items'' := by
    obtain ⟨items'', hleft'', ⟨-, none_such, -⟩ | ⟨r', first, same⟩ | ⟨e, -, none_such⟩⟩ :=
      tells.next hleft' read
    · cases none_such
    · cases same
      exact ⟨items'', hleft'', first⟩
    · cases none_such
  rcases ends with ended | ⟨full, -⟩
  · cases ended with
    | drained read =>
      obtain ⟨items'', hleft'', ⟨nothing, -, rfl⟩ | ⟨r, -, none_such⟩ | ⟨e, -, none_such⟩⟩ :=
        tells.next hleft' read
      · rw [nothing]
        exact ⟨[], [], hleft'', spends_finish covers fun _ => rfl⟩
      · cases none_such
      · cases none_such
    | broken read =>
      obtain ⟨items'', hleft'', ⟨-, none_such, -⟩ | ⟨r, -, none_such⟩ | ⟨e, first, same⟩⟩ :=
        tells.next hleft' read
      · cases none_such
      · cases none_such
      · cases same
        rw [first]
        exact ⟨run, items'', hleft'', .broken rfl⟩
    | kept read deals =>
      obtain ⟨items'', hleft'', first⟩ := next read
      obtain ⟨covers', nonempty⟩ := covers.dealt deals
      rw [first]
      exact ⟨[], items'', hleft'', spends_finish covers' fun nothing => absurd nothing nonempty⟩
    | failed read deals => exact (covers.dealt deals).elim
    | shipped read deals finished =>
      obtain ⟨items'', hleft'', first⟩ := next read
      rw [first]
      rcases covers.finish with ⟨unfinished, -⟩ | ⟨batch, finished', covers'⟩
      · cases unfinished.symm.trans finished
      · cases finished'.symm.trans finished
        exact ⟨[], items'', hleft'', .batch rfl covers'⟩
    | unreached read deals unfinished =>
      obtain ⟨items'', hleft'', first⟩ := next read
      rw [first]
      rcases covers.finish with ⟨-, rfl⟩ | ⟨batch, finished, -⟩
      · exact ⟨[], items'', hleft'', .unreached (covers.dealt deals)⟩
      · cases unfinished.symm.trans finished
  · -- there are not so many items
    have bounded := tells.bounded hleft
    have length := congrArg List.length split
    have kept : stash.toList.length ≤ 1 := by cases stash <;> simp
    simp only [ahead, List.length_append, List.length_map] at length
    omega

/-! ## Any number of calls -/

/-- What calls in turn answer when these items are left, which records each of them loses, and which items are
left after the last call. -/
inductive SpendsAll : List (Except QueueError Queued) → List (Except DeliveryError (Option Batch)) →
    List (List Queued) → List (Except QueueError Queued) → Prop
  | nil {items : List (Except QueueError Queued)} : SpendsAll items [] [] items
  | cons {items between rest : List (Except QueueError Queued)}
      {answer : Except DeliveryError (Option Batch)} {answers : List (Except DeliveryError (Option Batch))}
      {lost : List Queued} {losses : List (List Queued)} : Spends items answer lost between →
      SpendsAll between answers losses rest → SpendsAll items (answer :: answers) (lost :: losses) rest

/-- The calls go on so from any state between two of them. -/
theorem spendsAll_from (tells : src.Tells left) (b : Backend σ) (limits : Limits) (states : List σ)
    (stash : Option Queued) {source : ρ} {items : List (Except QueueError Queued)} (hleft : left source items) :
    ∃ losses rest, left (collectTimes src b limits stash source states).2.2 rest ∧
      SpendsAll (ahead stash items) (collectTimes src b limits stash source states).1 losses
        (ahead (collectTimes src b limits stash source states).2.1 rest) := by
  induction states generalizing stash source items with
  | nil => exact ⟨[], items, hleft, .nil⟩
  | cons s states ih =>
    obtain ⟨lost, between, hbetween, first⟩ := spends_collect tells b limits stash hleft (s := s) rfl
    obtain ⟨losses, rest, hleft', later⟩ := ih (collect src b limits stash source s).stash hbetween
    exact ⟨lost :: losses, rest, hleft', .cons first later⟩

/-- **Only a failing read loses records.** Reads may fail anywhere. However often batches are collected, and
whatever the service does in between, each item of the source is accounted for in its turn: a record is covered
by a batch, or it is left, kept or not read yet, or it was read before a failing read of the same call. -/
theorem spendsAll_collectTimes (tells : src.Tells left) (b : Backend σ) (limits : Limits) (states : List σ)
    {source : ρ} {items : List (Except QueueError Queued)} (hleft : left source items) :
    ∃ losses rest, left (collectTimes src b limits none source states).2.2 rest ∧
      SpendsAll items (collectTimes src b limits none source states).1 losses
        (ahead (collectTimes src b limits none source states).2.1 rest) :=
  spendsAll_from tells b limits states none hleft

/-- Two assignments, and a read between them that fails. -/
def failureBetweenAssignments : List (Except QueueError Queued) :=
  [.ok ⟨1, .single "a", .assign (.bool true)⟩, .error .closed, .ok ⟨2, .single "b", .assign (.bool true)⟩]

theorem spendsAll_failureBetweenAssignments :
    ∃ losses rest, (collectTimes feed slowToStart .default none failureBetweenAssignments [0, 0]).2.2 = rest ∧
      SpendsAll failureBetweenAssignments
        (collectTimes feed slowToStart .default none failureBetweenAssignments [0, 0]).1 losses
        (ahead (collectTimes feed slowToStart .default none failureBetweenAssignments [0, 0]).2.1 rest) :=
  spendsAll_collectTimes feed_tells slowToStart .default [0, 0] rfl

/-- The first call has read the first record when it fails. The second one, after which nothing is left, answers
with a batch of the second record alone, whose version stands for both. -/
theorem collectTimes_losesRecord :
    ∃ batch, collectTimes feed slowToStart .default none failureBetweenAssignments [0, 0] =
        ([.error (.queue .closed), .ok (some batch)], none, []) ∧
      batch.version = 2 ∧ batch.size = 1 ∧
      batch.bundle.operations = [⟨.single "b", .assign (.bool true)⟩] :=
  ⟨_, rfl, rfl, rfl, by decide⟩

end Outbox
