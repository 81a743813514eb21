import Outbox.Proofs.Batch.Copies
import Outbox.Proofs.Merge.Bounds

/-!
# The limits of a batch

The limits are looked at before a record joins a batch, against what the batch counts. So they bound what is sent
up to two things: the first record that is consumed joins whatever it brings along, and what is replayed ahead of
a deletion is counted no more.

* `Limits.total` and `Limits.share` are the limits, given the first record that a batch consumed;
* `Collecting.Bounded` says that a batch in the making keeps them, and `Bounded.take` is the law of one record;
* `collect_bounded` is what a call that answers with a batch took, and what it kept for the next call;
* `Batch.Fits` and `Batch.KeepsOut` are about the operations that are sent: `fits_collect` is the result, the
  bounds and that no batch ends early;
* `points_collect` are the bounds of all that is sent, with what is replayed, and `points_deletionBetweenLogs`
  shows that the points of a batch may exceed both limits.
-/

namespace Outbox

variable {ρ σ : Type}

/-! ## A batch in the making -/

/-- The points that a batch may count, whose first consumed record is given. -/
def Limits.total (limits : Limits) (first : Option Queued) : Nat :=
  max limits.points (first.elim 0 fun r => r.op.points)

/-- The points that a batch may count on one attribute. -/
def Limits.share (limits : Limits) (first : Option Queued) (path : AttributePath) : Nat :=
  max limits.pointsPerAttribute (first.elim 0 fun r => if r.op.path = path then r.op.points else 0)

namespace Collecting

variable {b : Backend σ} {limits : Limits} {s₀ s s' : σ} {c c' : Collecting} {run : List Queued} {r : Queued}

/-- A batch in the making keeps the limits, given the first record behind the copies that were given up. -/
def Bounded (limits : Limits) (c : Collecting) (run : List Queued) : Prop :=
  c.merger.Within (max 1 limits.attributes) (limits.total run[c.dropped]?) (limits.share run[c.dropped]?)

/-- The first operation keeps the limits, whatever it brings along. -/
theorem Covers.bounded_first (covers : c.Covers run) (exact : c.merger.Exact) (first : c.merger.sourceCount = 0)
    {op : Operation} (here : op.path = r.op.path) (points : op.points ≤ r.op.points) {m : Merger}
    (merges : c.merger.process op = (m, .ok true)) :
    (⟨m, c.errors, c.dropped, some r.version⟩ : Collecting).Bounded limits (run ++ [r]) := by
  have counted := covers.counted
  have is_first : (run ++ [r])[c.dropped]? = some r := by
    rw [show c.dropped = run.length by omega, List.getElem?_concat_length]
  have grows := Merger.attributes_process exact.regular merges
  have nothing := covers.fresh first
  show m.Within _ (limits.total (run ++ [r])[c.dropped]?) (limits.share (run ++ [r])[c.dropped]?)
  rw [is_first]
  refine Merger.Within.process ?_ covers.sound exact merges ?_ fun _ => ⟨?_, ?_⟩
  · rw [nothing]
    exact Merger.within_empty _ _ _
  · rw [grows, nothing]
    exact Nat.le_max_left 1 _
  · rw [nothing, Merger.points_empty, Nat.zero_add]
    exact Nat.le_trans points (Nat.le_max_right _ _)
  · rw [nothing, Merger.pointsOf_empty, Nat.zero_add]
    refine Nat.le_trans points (Nat.le_trans ?_ (Nat.le_max_right _ _))
    exact Nat.le_of_eq (if_pos here.symm).symm

/-- What is admitted later keeps the limits. -/
theorem Bounded.admitted (h : c.Bounded limits run) (covers : c.Covers run) (exact : c.merger.Exact)
    (later : c.merger.sourceCount ≠ 0) {op : Operation} (admitted : limits.admit c.merger op = true) {m : Merger}
    (merges : c.merger.process op = (m, .ok true)) :
    (⟨m, c.errors, c.dropped, some r.version⟩ : Collecting).Bounded limits (run ++ [r]) := by
  have counted := covers.counted
  have same_first : (run ++ [r])[c.dropped]? = run[c.dropped]? := List.getElem?_append_left (by omega)
  have grows := Merger.attributes_process exact.regular merges
  have checked : (c.merger.has op.path = true ∨ c.merger.attributes + 1 ≤ limits.attributes) ∧
      (op.isLog = false ∨ c.merger.points + op.points ≤ limits.points ∧
        c.merger.pointsOf op.path + op.points ≤ limits.pointsPerAttribute) := by
    simpa [later, Limits.admit] using admitted
  show m.Within _ (limits.total (run ++ [r])[c.dropped]?) (limits.share (run ++ [r])[c.dropped]?)
  rw [same_first]
  refine Merger.Within.process h covers.sound exact merges ?_ fun log => ?_
  · rw [grows]
    split
    · exact h.attributes
    · next new => exact Nat.le_trans (checked.1.resolve_left new) (Nat.le_max_right _ _)
  · obtain ⟨total, share⟩ := checked.2.resolve_left (by simp [log])
    exact ⟨Nat.le_trans total (Nat.le_max_left _ _), Nat.le_trans share (Nat.le_max_left _ _)⟩

theorem Bounded.join (h : c.Bounded limits run) (covers : c.Covers run) (exact : c.merger.Exact)
    {op : Operation} (here : op.path = r.op.path) (points : op.points ≤ r.op.points)
    (joins : c.Joins limits r op (.covered c')) : c'.Bounded limits (run ++ [r]) := by
  cases joins with
  | merged admitted merges =>
    by_cases first : c.merger.sourceCount = 0
    · exact covers.bounded_first exact first here points merges
    · exact h.admitted covers exact first admitted merges

/-- **Every record that is taken keeps the limits.** -/
theorem Bounded.take (h : c.Bounded limits run) (made : c.MadeOf b s₀ s run)
    (taken : c.take b limits s r = (s', .covered c')) : c'.Bounded limits (run ++ [r]) := by
  have exact := made.exact
  have covers := made.1
  cases dealt covers.sound exact.regular taken with
  | plain _ joins => exact h.join covers exact rfl (Nat.le_refl _) joins
  | resolved _ resolves joins =>
    obtain ⟨-, here, -, -, none_carried⟩ := resolves.plain
    exact h.join covers exact here (none_carried ▸ Nat.zero_le _) joins
  | givenUp first =>
    -- nothing was merged, so there is nothing that a limit is about
    show c.merger.Within _ _ _
    rw [covers.fresh first]
    exact Merger.within_empty _ _ _

end Collecting

/-! ## One call -/

variable {src : Source ρ} {b : Backend σ} {limits : Limits} {stash : Option Queued} {source : ρ} {s₀ s : σ}
  {x y : Going ρ σ} {run : List Queued} {call : Collected ρ σ} {batch : Batch}

/-- What a call took keeps the limits. -/
theorem Took.bounded (took : Took src b limits x run y) (start : x.batch = .empty) :
    y.batch.Bounded limits run := by
  have begins : x.batch.MadeOf b x.service x.service [] ∧ x.batch.Bounded limits [] := by
    rw [start]
    exact ⟨Collecting.madeOf_empty b x.service, Merger.within_empty _ _ _⟩
  refine (took.keeps (P := fun s c run => c.MadeOf b x.service s run ∧ c.Bounded limits run) ?_ begins).2
  rintro s s' c c' run r ⟨made, bounded⟩ taken
  exact ⟨made.take taken, bounded.take made taken⟩

/-- A call that ends with a batch answers with the one in the making. A record that it keeps is the next one, and
unless it is a copy, the batch does not take it. -/
theorem CallEnds.answers (ended : CallEnds src b limits y call) (made : y.batch.MadeOf b s₀ y.service run)
    (answered : call.result = .ok (some batch)) :
    y.batch.finish = some batch ∧ ∀ r, call.stash = some r → upcoming src y.stash y.source 1 = [r] ∧
      (r.op.isCopy = false → y.batch.Joins limits r r.op (.kept y.batch)) := by
  have deal {r : Queued} {s' : σ} {taken : Taken} (deals : y.batch.take b limits y.service r = (s', taken)) :=
    Collecting.dealt made.1.sound made.exact.regular deals
  cases ended with
  | drained => exact ⟨Except.ok.inj answered, fun r kept => nomatch kept⟩
  | broken | failed | unreached => cases answered
  | kept read deals =>
    obtain ⟨rfl, rfl, something⟩ := (deal deals).kept made.1.fresh
    refine ⟨Except.ok.inj answered, fun r' kept => ?_⟩
    cases kept
    refine ⟨by simp only [upcoming, read], fun plain => ?_⟩
    cases deal deals with
    | plain _ joins => exact joins
    | late copy =>
      rw [copy] at plain
      cases plain
    | resolved first => exact absurd first something
  | shipped read deals finished =>
    refine ⟨finished.trans (Except.ok.inj answered), fun r' kept => ?_⟩
    cases kept
    refine ⟨by simp only [upcoming, read], fun plain => ?_⟩
    cases deal deals with
    | plain _ joins | resolved _ _ joins => cases joins
    | unreached _ notReached =>
      rw [notReached.isCopy] at plain
      cases plain

/-- **What a call took that answers with a batch**, and why it kept a record for the next call, if it kept one. -/
theorem collect_bounded (answered : (collect src b limits stash source s).result = .ok (some batch)) :
    ∃ (c : Collecting) (s' : σ), c.finish = some batch ∧
      batch.Covers (upcoming src stash source batch.size) ∧
      c.MadeOf b s s' (upcoming src stash source batch.size) ∧
      c.Bounded limits (upcoming src stash source batch.size) ∧
      ∀ r, (collect src b limits stash source s).stash = some r →
        upcoming src stash source (batch.size + 1) = upcoming src stash source batch.size ++ [r] ∧
          (r.op.isCopy = false → c.Joins limits r r.op (.kept c)) := by
  obtain ⟨run, y, took, ends⟩ :=
    collectFrom_ended src b limits (src.bound source + 2) ⟨.empty, stash, source, s⟩
  change (CallEnds src b limits y (collect src b limits stash source s) ∨
    run.length = src.bound source + 2 ∧ collect src b limits stash source s = _) at ends
  have made : y.batch.MadeOf b s y.service run := took.made rfl
  have bounded : y.batch.Bounded limits run := took.bounded rfl
  obtain ⟨finished, behind⟩ : y.batch.finish = some batch ∧
      ∀ r, (collect src b limits stash source s).stash = some r → upcoming src y.stash y.source 1 = [r] ∧
        (r.op.isCopy = false → y.batch.Joins limits r r.op (.kept y.batch)) := by
    rcases ends with ended | ⟨full, exhausted⟩
    · exact ended.answers made answered
    · rw [exhausted] at answered ⊢
      refine ⟨Except.ok.inj answered, fun r kept => ?_⟩
      rcases took.stash with none_kept | ⟨rfl, -⟩
      · cases none_kept.symm.trans kept
      · cases full
  rcases made.1.finish with ⟨unfinished, -⟩ | ⟨batch', finished', covers⟩
  · cases unfinished.symm.trans finished
  · cases finished'.symm.trans finished
    have size : batch.size = run.length := covers.counted
    have reads (n : Nat) : upcoming src stash source (batch.size + n) = run ++ upcoming src y.stash y.source n :=
      size ▸ took.upcoming n
    have these : upcoming src stash source batch.size = run := (reads 0).trans (List.append_nil run)
    refine ⟨y.batch, y.service, finished, ?_⟩
    rw [these]
    refine ⟨covers, made, bounded, fun r kept => ?_⟩
    rw [reads, (behind r kept).1]
    exact ⟨rfl, (behind r kept).2⟩

/-! ## What is sent -/

/-- The bounds of the operations of a batch, whose first consumed record is given. -/
structure Batch.Fits (batch : Batch) (limits : Limits) (first : Option Queued) : Prop where
  attributes : attributesOf batch.bundle.operations ≤ max 1 limits.attributes
  total : totalPoints (lasting batch.bundle.operations) ≤ limits.total first
  shares : ∀ path, totalPoints (onPath path (lasting batch.bundle.operations)) ≤ limits.share first path

/-- Why an operation does not join a batch: it would break a limit, or files have to wait for a deletion. -/
inductive Batch.KeepsOut (limits : Limits) (batch : Batch) (op : Operation) : Prop
  | attributes : (∀ op' ∈ batch.bundle.operations, op'.path ≠ op.path) →
      limits.attributes < attributesOf batch.bundle.operations + 1 → KeepsOut limits batch op
  | total : op.isLog = true →
      limits.points < totalPoints (lasting batch.bundle.operations) + op.points → KeepsOut limits batch op
  | share : op.isLog = true →
      limits.pointsPerAttribute < totalPoints (onPath op.path (lasting batch.bundle.operations)) + op.points →
      KeepsOut limits batch op
  | deletion : (op.isUpload || op.isTrack) = true →
      (∃ d ∈ batch.bundle.operations, d.path = op.path ∧ d.mutation = .delete) → KeepsOut limits batch op

/-- What is not admitted would break a limit. -/
theorem Limits.admit_eq_false {m : Merger} {op : Operation} (refused : limits.admit m op = false) :
    (m.has op.path = false ∧ limits.attributes < m.attributes + 1) ∨
      op.isLog = true ∧ (limits.points < m.points + op.points ∨
        limits.pointsPerAttribute < m.pointsOf op.path + op.points) := by
  simp only [Bool.or_eq_false_iff, Limits.admit, Bool.and_eq_false_iff, decide_eq_false_iff_not,
    Bool.not_eq_false', Nat.not_le] at refused
  rcases refused.2 with attributes | points
  · exact .inl attributes
  · exact .inr points

namespace Collecting

variable {c : Collecting}

/-- What a batch sends was merged by the batch in the making. -/
theorem MadeOf.sends (made : c.MadeOf b s₀ s run) (finished : c.finish = some batch) :
    batch.bundle = c.merger.finish c.errors ∧ ∃ ops, Merger.empty.processAll ops = (c.merger, .ok ops.length) := by
  obtain ⟨-, dropped, consumed, -, -, s₁, ops, -, -, all⟩ := made
  obtain ⟨version, -, rfl⟩ := Option.map_eq_some_iff.1 finished
  exact ⟨rfl, ops, all⟩

/-- What holds of the counters of the batch in the making holds of the operations that are sent. -/
theorem Bounded.fits (h : c.Bounded limits run) (made : c.MadeOf b s₀ s run) (finished : c.finish = some batch) :
    batch.Fits limits run[batch.dropped]? := by
  obtain ⟨bundle, ops, all⟩ := made.sends finished
  have same : batch.dropped = c.dropped := by
    obtain ⟨version, -, rfl⟩ := Option.map_eq_some_iff.1 finished
    rfl
  have exact := made.exact
  rw [same]
  constructor
  · rw [bundle, Merger.attributesOf_finish all]
    exact h.attributes
  · rw [bundle, Merger.totalPoints_lasting exact]
    exact h.points
  · intro path
    rw [bundle, Merger.totalPoints_onPath_lasting exact]
    exact h.shares path

/-- What a batch in the making does not take, the batch keeps out. -/
theorem Joins.keepsOut {r : Queued} {op : Operation} (kept : c.Joins limits r op (.kept c))
    (made : c.MadeOf b s₀ s run) (finished : c.finish = some batch) : batch.KeepsOut limits op := by
  obtain ⟨bundle, ops, all⟩ := made.sends finished
  have exact := made.exact
  have attributes := Merger.attributesOf_finish all c.errors
  have total := Merger.totalPoints_lasting exact c.errors
  have share := Merger.totalPoints_onPath_lasting exact c.errors op.path
  rw [← bundle] at attributes total share
  cases kept with
  | full refused =>
    rcases Limits.admit_eq_false refused with ⟨new, many⟩ | ⟨log, many | many⟩
    · refine .attributes (fun op' sent here => ?_) (attributes ▸ many)
      rw [bundle] at sent
      rw [(Merger.mem_paths_iff all c.errors).1 ⟨op', sent, here⟩] at new
      cases new
    · exact .total log (total ▸ many)
    · exact .share log (share ▸ many)
  | waits file pending =>
    refine .deletion file ?_
    rw [bundle]
    exact Merger.sends_deletion exact.fresh c.errors pending

end Collecting

/-- **The bounds of a batch hold at every cut, and no cut is early.** For any source and any service: what a batch
sends is made of the records that a call took, and is within the limits up to the first record that was consumed.
A record that is kept for the next call is the one behind them, and unless it is a copy, the batch keeps it out. -/
theorem fits_collect (answered : (collect src b limits stash source s).result = .ok (some batch)) :
    (∃ dropped consumed s', upcoming src stash source batch.size = dropped ++ consumed ∧
        batch.Made b s dropped consumed s' ∧ batch.Fits limits consumed.head?) ∧
      ∀ r, (collect src b limits stash source s).stash = some r →
        upcoming src stash source (batch.size + 1) = upcoming src stash source batch.size ++ [r] ∧
          (r.op.isCopy = false → batch.KeepsOut limits r.op) := by
  obtain ⟨c, s', finished, covers, made, bounded, behind⟩ := collect_bounded answered
  refine ⟨?_, fun r kept => ?_⟩
  · have fits := bounded.fits made finished
    obtain ⟨-, dropped, consumed, split, made⟩ := made
    rw [split] at covers fits
    have made := made.finish finished covers
    rw [made.count, List.getElem?_append_right (Nat.le_refl _), Nat.sub_self, ← List.head?_eq_getElem?] at fits
    exact ⟨dropped, consumed, s', split, made, fits⟩
  · obtain ⟨next, why⟩ := behind r kept
    exact ⟨next, fun plain => (why plain).keepsOut made finished⟩

/-- Two points of a series. -/
def twoPoints : Points :=
  .strings (List.replicate 2 ⟨"x", none, .finite (.zero false)⟩)

/-- Two logs on one attribute. -/
def twoLogs : List Queued :=
  [⟨1, .single "a", .log twoPoints⟩, ⟨2, .single "a", .log twoPoints⟩]

/-- The second log would make four points. -/
theorem fits_collect_twoLogs :
    ∃ batch, (collect feed slowToStart ⟨3, 10, 3⟩ none (twoLogs.map .ok) 0).result = .ok (some batch) ∧
      (∃ dropped consumed s', upcoming feed none (twoLogs.map .ok) batch.size = dropped ++ consumed ∧
        batch.Made slowToStart 0 dropped consumed s' ∧ batch.Fits ⟨3, 10, 3⟩ consumed.head?) ∧
      ∀ r, (collect feed slowToStart ⟨3, 10, 3⟩ none (twoLogs.map .ok) 0).stash = some r →
        upcoming feed none (twoLogs.map .ok) (batch.size + 1) =
            upcoming feed none (twoLogs.map .ok) batch.size ++ [r] ∧
          (r.op.isCopy = false → batch.KeepsOut ⟨3, 10, 3⟩ r.op) := by
  have answered : (collect feed slowToStart ⟨3, 10, 3⟩ none (twoLogs.map .ok) 0).result = .ok (some _) := rfl
  exact ⟨_, answered, fits_collect answered⟩

/-! ## All that is sent -/

/-- Without a record that exceeds the limit alone the limit is kept. -/
theorem Limits.total_le (each : ∀ r ∈ run, r.op.points ≤ limits.points) (i : Nat) :
    limits.total run[i]? ≤ limits.points := by
  refine Nat.max_le.2 ⟨Nat.le_refl _, ?_⟩
  cases first : run[i]? with
  | none => exact Nat.zero_le _
  | some r => exact each r (List.mem_of_getElem? first)

theorem Limits.share_le (each : ∀ r ∈ run, r.op.points ≤ limits.pointsPerAttribute) (i : Nat)
    (path : AttributePath) : limits.share run[i]? path ≤ limits.pointsPerAttribute := by
  refine Nat.max_le.2 ⟨Nat.le_refl _, ?_⟩
  cases first : run[i]? with
  | none => exact Nat.zero_le _
  | some r =>
    rw [Option.elim_some]
    split
    · exact each r (List.mem_of_getElem? first)
    · exact Nat.zero_le _

/-- **The limits bound what is sent, but for what is replayed.** If no record of a batch exceeds a limit alone,
the operations that no deletion follows keep the limit together. The others, at most one on an attribute, are
counted no more, and each of them keeps it alone. -/
theorem points_collect (answered : (collect src b limits stash source s).result = .ok (some batch)) :
    batch.Covers (upcoming src stash source batch.size) ∧
      ((∀ r ∈ upcoming src stash source batch.size, r.op.points ≤ limits.points) →
        totalPoints (lasting batch.bundle.operations) ≤ limits.points ∧
          ∀ op ∈ replayed batch.bundle.operations, op.points ≤ limits.points) ∧
      ((∀ r ∈ upcoming src stash source batch.size, r.op.points ≤ limits.pointsPerAttribute) → ∀ path,
        totalPoints (onPath path (lasting batch.bundle.operations)) ≤ limits.pointsPerAttribute ∧
          ∀ op ∈ onPath path (replayed batch.bundle.operations), op.points ≤ limits.pointsPerAttribute) ∧
      ∀ path, (onPath path (replayed batch.bundle.operations)).length ≤ 1 := by
  obtain ⟨c, s', finished, covers, made, bounded, -⟩ := collect_bounded answered
  have fits := bounded.fits made finished
  obtain ⟨bundle, -⟩ := made.sends finished
  have exact := made.exact
  -- what is replayed on an attribute stands before its deletion
  have replays (path : AttributePath) : onPath path (replayed batch.bundle.operations) =
      (c.merger.pending path).deletes.dropLast := by
    rw [bundle]
    exact Merger.onPath_replayed exact c.errors path
  have bounds {path : AttributePath} {op : Operation}
      (member : op ∈ onPath path (replayed batch.bundle.operations)) :=
    bounded.replays path op (List.dropLast_subset _ (replays path ▸ member))
  refine ⟨covers, fun each => ⟨?_, fun op member => ?_⟩, fun each path => ⟨?_, fun op member => ?_⟩,
    fun path => ?_⟩
  · exact Nat.le_trans fits.total (Limits.total_le each _)
  · have here : op ∈ onPath op.path (replayed batch.bundle.operations) :=
      List.mem_filter.2 ⟨member, decide_eq_true rfl⟩
    exact Nat.le_trans (bounds here).1 (Limits.total_le each _)
  · exact Nat.le_trans (fits.shares path) (Limits.share_le each _ path)
  · exact Nat.le_trans (bounds member).2 (Limits.share_le each _ path)
  · rw [replays]
    exact (made.1.sound path).deletion.length_dropLast

/-- A deletion between two logs of the same attribute. -/
def deletionBetweenLogs : List Queued :=
  [⟨1, .single "a", .log twoPoints⟩, ⟨2, .single "a", .delete⟩, ⟨3, .single "a", .log twoPoints⟩]

theorem points_collect_deletionBetweenLogs :
    ∃ batch, (collect feed slowToStart ⟨3, 10, 3⟩ none (deletionBetweenLogs.map .ok) 0).result =
        .ok (some batch) ∧
      batch.Covers (upcoming feed none (deletionBetweenLogs.map .ok) batch.size) ∧
      ((∀ r ∈ upcoming feed none (deletionBetweenLogs.map .ok) batch.size, r.op.points ≤ 3) →
        totalPoints (lasting batch.bundle.operations) ≤ 3 ∧
          ∀ op ∈ replayed batch.bundle.operations, op.points ≤ 3) ∧
      ((∀ r ∈ upcoming feed none (deletionBetweenLogs.map .ok) batch.size, r.op.points ≤ 3) → ∀ path,
        totalPoints (onPath path (lasting batch.bundle.operations)) ≤ 3 ∧
          ∀ op ∈ onPath path (replayed batch.bundle.operations), op.points ≤ 3) ∧
      ∀ path, (onPath path (replayed batch.bundle.operations)).length ≤ 1 := by
  have answered : (collect feed slowToStart ⟨3, 10, 3⟩ none (deletionBetweenLogs.map .ok) 0).result =
    .ok (some _) := rfl
  exact ⟨_, answered, points_collect answered⟩

/-- The batch sends four points, though each record has two and three are the limit. -/
theorem points_deletionBetweenLogs :
    ∃ batch, (collect feed slowToStart ⟨3, 10, 3⟩ none (deletionBetweenLogs.map .ok) 0).result =
        .ok (some batch) ∧ 1 < batch.bundle.sourceCount ∧ (∀ r ∈ deletionBetweenLogs, r.op.points ≤ 3) ∧
      3 < totalPoints batch.bundle.operations ∧
      3 < totalPoints (onPath (.single "a") batch.bundle.operations) :=
  ⟨_, rfl, by decide, by decide, by decide, by decide⟩

end Outbox
