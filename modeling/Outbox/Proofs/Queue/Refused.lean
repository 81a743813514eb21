import Outbox.Proofs.Queue.AckFile
import Outbox.Proofs.Queue.Showing

/-!
# A put that fails

A put fails in one of three ways. The queue was closed: then nothing happens at all. Or the next segment
cannot be opened: then what was held back is on the disk, and that is not to be seen. Or the record is too
large for a frame: then the next segment may have been begun all the same, so that the records are spread over
the segments in another way. This is not to be seen either, unless versions are acknowledged that the reader
did not come to: with them a segment goes away that would still be there without the failed put.

* `Queue.Puts` is all that a put can do, and `Queue.puts` says that it does one of these things;
* `StoredQueue.HidesFailure` and `StoredQueue.HidesRefusal` say that a put that fails is not to be seen, in the
  first two ways and in the third one;
* `StoredQueue.put_failed_unseen` is the result, and `StoredQueue.seen_acknowledged` what is seen all the same.
-/

namespace Outbox

variable {α : Type} [Storable α]

namespace Queue

/-! ## What a put leaves behind -/

/-- All that a put can do. -/
inductive Puts (d : Disk) (q : Queue) : Outcome Nat → Prop
  | closed : q.writer = none → Puts d q ⟨d, q, .error .closed⟩
  /-- The next segment cannot be opened. -/
  | unopened : q.writer.isSome →
      Puts d q ⟨(q.flush d).1, (q.flush d).2, .error (.openSegment (segmentName (q.lastPut + 1)))⟩
  /-- The record is too large for a frame. -/
  | refused {d' : Disk} {segments : SegmentTable} {w : SegmentWriter} (length : Nat) :
      Puts d q ⟨d', { q with segments := segments, writer := some w },
        .error (.badFrame (segmentName w.id) w.size (.tooLarge length))⟩
  | done {d' : Disk} {segments : SegmentTable} {w : SegmentWriter} :
      Puts d q ⟨d', { q with segments := segments, writer := some w, lastPut := q.lastPut + 1 }, .ok (q.lastPut + 1)⟩

variable {d : Disk} {q : Queue}

/-- A new segment is begun, or not, or cannot be. -/
theorem rollFor_cases {w : SegmentWriter} (hw : q.writer = some w) (id bytes : Nat) :
    q.rollFor d w id bytes = ⟨(q.flush d).1, (q.flush d).2, .error (.openSegment (segmentName id))⟩ ∨
      ∃ d' segments w', q.rollFor d w id bytes =
        ⟨d', { q with segments := segments, writer := some w' }, .ok ()⟩ := by
  unfold rollFor
  split
  · obtain ⟨writer, same, -⟩ := flush_eq d q
    unfold roll
    generalize q.flush d = o at same ⊢
    obtain ⟨d₁, q₁⟩ := o
    obtain rfl : q₁ = _ := same
    cases created : d₁.create? (q.folder ++ [segmentName id]) with
    | none => exact .inl (by simp only [SegmentWriter.openAt, created])
    | some o =>
      simp only [SegmentWriter.openAt, created]
      exact .inr ⟨_, _, _, rfl⟩
  · exact .inr ⟨d, q.segments, w, by rw [← hw]⟩

/-- **A put does one of these things.** -/
theorem puts (d : Disk) (q : Queue) (now : Int) (obj : α) : Puts d q (q.put d now obj) := by
  cases hw : q.writer with
  | none =>
    simp only [put, hw]
    exact .closed hw
  | some w =>
    have rolled := rollFor_cases (d := d) hw (q.lastPut + 1)
      (Frame.size (Record.payload ⟨obj, q.lastPut + 1, now⟩))
    rcases rolled with failed | ⟨d₁, segments, w₁, rolled⟩
    · simp only [put, hw, failed]
      exact .unopened (hw ▸ rfl)
    · by_cases fits : (Record.payload ⟨obj, q.lastPut + 1, now⟩).length < UInt32.size
      · simp only [put, hw, rolled, append, SegmentWriter.put, if_pos fits]
        exact .done
      · simp only [put, hw, rolled, append, SegmentWriter.put, if_neg fits]
        exact .refused _

theorem Puts.lastAck {o : Outcome Nat} (h : Puts d q o) : o.queue.lastAck = q.lastAck := by
  cases h with
  | unopened => exact lastAck_flush d q
  | _ => rfl

/-- A put counts one version on if it succeeds. -/
theorem Puts.version {o : Outcome Nat} (h : Puts d q o) {v : Nat} (done : o.result = .ok v) :
    v = q.lastPut + 1 := by
  cases h with
  | done => exact (Except.ok.inj done).symm
  | _ => cases done

theorem Puts.lastPut_of_error {o : Outcome Nat} (h : Puts d q o) {e : QueueError} (failed : o.result = .error e) :
    o.queue.lastPut = q.lastPut := by
  cases h with
  | unopened => exact lastPut_flush d q
  | done => cases failed
  | _ => rfl

end Queue

namespace StoredQueue

variable {s : StoredQueue} {l : ListQueue α}

/-! ## A put that fails -/

/-- After a put that failed, the versions are as they were, and the next one that is given is the one that
the failed put would have got. -/
structure Uncounted (α : Type) [Storable α] (s s' : StoredQueue) : Prop where
  lastPut : s'.queue.lastPut = s.queue.lastPut
  lastAck : s'.queue.lastAck = s.queue.lastAck
  next : ∀ (now : Int) (obj : α) (v : Nat), (s'.call (.put now obj)).2 = .version v → v = s.queue.lastPut + 1

theorem call_put_eq_version_iff {now : Int} {obj : α} {v : Nat} :
    (s.call (.put now obj)).2 = .version v ↔ (s.queue.put s.disk now obj).result = .ok v := by
  simp only [call, after]
  cases (s.queue.put s.disk now obj).result <;> simp [Answer.of]

theorem call_put_eq_failed_iff {now : Int} {obj : α} {e : QueueError} :
    (s.call (.put now obj)).2 = .failed e ↔ (s.queue.put s.disk now obj).result = .error e := by
  simp only [call, after]
  cases (s.queue.put s.disk now obj).result <;> simp [Answer.of]

theorem uncounted_of_failed {now : Int} {obj : α} {e : QueueError}
    (failed : (s.call (.put now obj)).2 = .failed e) : Uncounted α s (s.call (.put now obj)).1 := by
  have puts := Queue.puts s.disk s.queue now obj
  have lastPut := puts.lastPut_of_error (call_put_eq_failed_iff.1 failed)
  refine ⟨lastPut, puts.lastAck, fun now' obj' v done => ?_⟩
  have next := (Queue.puts _ _ now' obj').version (call_put_eq_version_iff.1 done)
  rw [next]
  exact congrArg (· + 1) lastPut

/-- A put that fails because the queue is closed, or because the next segment cannot be opened, is not to be
seen, whatever is asked and whatever becomes of the names on the disk. -/
def HidesFailure (α : Type) [Storable α] (s : StoredQueue) : Prop :=
  ∀ (now : Int) (obj : α) (e : QueueError), (s.call (.put now obj)).2 = .failed e →
    (∀ file offset reason, e ≠ .badFrame file offset reason) →
      Uncounted α s (s.call (.put now obj)).1 ∧
        ∀ later : List (Move α), (s.call (.put now obj)).1.replies later = s.replies later

/-- No put that fails is to be seen, as long as no more is acknowledged than was read. -/
def HidesRefusal (α : Type) [Storable α] (s : StoredQueue) : Prop :=
  ∀ (now : Int) (obj : α) (e : QueueError), (s.call (.put now obj)).2 = .failed e →
    s.queue.lastPut + 1 < UInt64.size →
      Uncounted α s (s.call (.put now obj)).1 ∧ ∀ later : List (Call α), s.ServesAll Queue.reached later →
        ((s.call (.put now obj)).1.answers later).map Answer.told? = (s.answers later).map Answer.told?

theorem hidesFailure_of_sits (h : s.Sits) : s.HidesFailure α := by
  intro now obj e failed other
  refine ⟨uncounted_of_failed failed, fun later => Alike.replies_eq ?_ later⟩
  have puts := Queue.puts s.disk s.queue now obj
  have failed := call_put_eq_failed_iff.1 failed
  simp only [call, after]
  generalize s.queue.put s.disk now obj = o at puts failed ⊢
  cases puts with
  | closed => exact .inl rfl
  | unopened => exact .inr ⟨flushed_flushed s, (Queue.apart_flush s.disk s.queue).2 h.apart⟩
  | refused length => exact absurd (Except.error.inj failed).symm (other _ _ _)
  | done => cases failed

theorem hidesRefusal_of_shows (h : s.Shows l) : s.HidesRefusal α := by
  intro now obj e failed small
  refine ⟨uncounted_of_failed failed, fun later serves => ?_⟩
  have shows := h.put_failed (h.lastPut ▸ small) failed
  exact (Even.answers_eq ⟨l, h, shows⟩ serves).symm

/-- **A put that fails is not to be seen.** A queue is opened in a new folder, and anything happens to it that
leaves the folder in order. Then a put fails because the queue is closed or the next segment cannot be opened,
and whatever happens from then on, every call is answered as without it. If it fails because the record is too
large for a frame, the same is so for records that can be read, as long as no version is acknowledged that the
reader did not come to: the versions, the records and which calls fail are the same. -/
theorem put_failed_unseen {d : Disk} {folder : Place} (free : d.Free folder) (maxSize : Nat) :
    ∃ d' q, Queue.openIn d folder maxSize = (d', .ok q) ∧
      (∀ before : List (Move α), SparesAll ⟨d', q⟩ before → HidesFailure α (reach ⟨d', q⟩ before)) ∧
      ∀ before : List (Call α), ServesAll Queue.lastPut ⟨d', q⟩ before → HidesRefusal α (run ⟨d', q⟩ before) := by
  obtain ⟨d₁, made, blank⟩ := free.make
  obtain ⟨d', q, ids, opened, intact, place, -, isOpen, acked, read⟩ :=
    Queue.intact_create (α := α) made blank maxSize
  refine ⟨d', q, opened, fun before spares => ?_, fun before serves => ?_⟩
  · have sits : Sits ⟨d', q⟩ := intact.sits
    exact hidesFailure_of_sits (sits.reach spares)
  · obtain ⟨first, head, -⟩ := intact.head
    have shows : Shows ⟨d', q⟩ (⟨[], max q.lastRead (first - 1), q.lastAck, q.writer.isSome⟩ : ListQueue α) :=
      ⟨⟨ids, first, intact, head, rfl⟩, rfl, rfl, by simp⟩
    obtain ⟨l, shows⟩ := shows.run serves
    exact hidesRefusal_of_shows shows

end StoredQueue

/-! ## The length of a record -/

section length

open Json

/-- A list whose items have one part at least is no longer than its parts are. -/
theorem length_le_flatMap {β γ : Type} (f : β → List γ) (xs : List β) (some_each : ∀ x ∈ xs, 1 ≤ (f x).length) :
    xs.length ≤ (xs.flatMap f).length := by
  induction xs with
  | nil => exact Nat.le_refl _
  | cons x xs ih =>
    have first := some_each x List.mem_cons_self
    have others := ih fun y member => some_each y (List.mem_cons_of_mem _ member)
    rw [List.flatMap_cons, List.length_append, List.length_cons]
    omega

/-- A character that is written has one character at least. -/
theorem Json.Piece.one_le_length_text_ofChar (c : Char) : 1 ≤ (Piece.ofChar c).text.length := by
  unfold Piece.ofChar
  split
  · simp [Piece.text, unitText]
  · simp only [Piece.text]
    split <;> simp

/-- A record is as long as its text at least. -/
theorem Record.length_le_payload (r : Record String) : r.obj.toList.length ≤ r.payload.length := by
  have written : (Token.string (piecesOf r.obj)) ∈ (Value.object r.members).tree.tokens := by
    simp [Record.members, Value.tree, memberTrees, Tree.tokens, Tree.memberTokens, Storable.json]
  obtain ⟨before, after, split⟩ := List.append_of_mem written
  have pieces := length_le_flatMap Piece.text (piecesOf r.obj) (by
    simp only [piecesOf, List.forall_mem_map]
    exact fun c _ => Piece.one_le_length_text_ofChar c)
  have bytes := length_le_flatMap String.utf8EncodeChar (Value.object r.members).render
    fun c _ => by rw [String.length_utf8EncodeChar]; exact c.utf8Size_pos
  have same : r.payload = (Value.object r.members).render.flatMap String.utf8EncodeChar := rfl
  rw [same]
  refine Nat.le_trans ?_ bytes
  rw [Value.render, split]
  simp only [piecesOf, List.length_map] at pieces
  simp only [List.flatMap_append, List.flatMap_cons, List.length_append, Token.text, List.length_cons, piecesOf]
  omega

end length

namespace StoredQueue

variable {s : StoredQueue}

/-! ### A record that is too large -/

/-- A record that is too large leaves the next segment begun, if the last one is full. -/
theorem call_put_rolled {w : SegmentWriter} (hw : s.queue.writer = some w) {now : Int} {obj : α}
    (full : 0 < w.size ∧
      s.queue.maxSize < w.size + Frame.size (Record.payload ⟨obj, s.queue.lastPut + 1, now⟩))
    (large : UInt32.size ≤ (Record.payload ⟨obj, s.queue.lastPut + 1, now⟩).length) {d : Disk} {q : Queue}
    (rolled : s.queue.roll s.disk (s.queue.lastPut + 1) = ⟨d, q, .ok ()⟩) :
    ∃ e, s.call (.put now obj) = (⟨d, q⟩, .failed e) := by
  have refuses := Nat.not_lt_of_le large
  simp only [call, after, Queue.put, hw, Queue.rollFor, if_pos full, rolled, Queue.append]
  cases hq : q.writer with
  | none => exact ⟨_, rfl⟩
  | some w' =>
    simp only [SegmentWriter.put, if_neg refuses]
    rw [← hq]
    exact ⟨_, rfl⟩

/-- A text of so many characters. -/
def fill (n : Nat) : String :=
  String.ofList (List.replicate n 'a')

theorem le_length_payload_fill (n version : Nat) (now : Int) :
    n ≤ (Record.payload ⟨fill n, version, now⟩).length := by
  have length : (fill n).toList.length = n := by rw [fill, String.toList_ofList, List.length_replicate]
  have := Record.length_le_payload ⟨fill n, version, now⟩
  rwa [length] at this

/-- A record of one letter is put, and then one that is too large. -/
theorem call_fill {d : Disk} {q : Queue} (opened : Queue.openIn Disk.empty ["queue"] 60 = (d, .ok q)) :
    let t := run ⟨d, q⟩ [Call.put 5 "a"]
    ∃ e d' q', t.queue.roll t.disk 2 = ⟨d', q', .ok ()⟩ ∧
      t.call (.put 5 (fill UInt32.size)) = (⟨d', q'⟩, .failed e) := by
  have facts : (Queue.openIn Disk.empty ["queue"] 60).2.toOption.map (fun q =>
      let t := run ⟨(Queue.openIn Disk.empty ["queue"] 60).1, q⟩ [Call.put 5 "a"]
      (t.queue.lastPut, t.queue.maxSize, t.queue.writer.map SegmentWriter.size,
        (t.queue.roll t.disk 2).result.isOk)) = some (1, 60, some 39, true) := by decide +kernel
  simp only [opened, Except.toOption, Option.map_some, Option.some.injEq, Prod.mk.injEq] at facts
  intro t
  obtain ⟨lastPut, maxSize, size, rolls⟩ := facts
  change t.queue.lastPut = 1 at lastPut
  change t.queue.maxSize = 60 at maxSize
  change t.queue.writer.map SegmentWriter.size = some 39 at size
  change (t.queue.roll t.disk 2).result.isOk = true at rolls
  obtain ⟨w, hw, size⟩ := Option.map_eq_some_iff.1 size
  have large := le_length_payload_fill UInt32.size (t.queue.lastPut + 1) 5
  rcases rolled : t.queue.roll t.disk 2 with ⟨d', q', e | ⟨⟩⟩
  · rw [rolled] at rolls
    cases rolls
  · have full : 0 < w.size ∧ t.queue.maxSize <
        w.size + Frame.size (Record.payload ⟨fill UInt32.size, t.queue.lastPut + 1, 5⟩) := by
      rw [maxSize, size, Frame.size]
      have : 60 < UInt32.size := by decide
      omega
    have begun : t.queue.roll t.disk (t.queue.lastPut + 1) = ⟨d', q', .ok ()⟩ := by rw [lastPut, rolled]
    obtain ⟨e, refused⟩ := call_put_rolled hw full large begun
    exact ⟨e, d', q', rfl, refused⟩

/-! ### A segment that cannot be opened -/

/-- Somebody gives the name of the next segment to a folder. -/
def obstructed : List (Move String) :=
  [.call (.put 5 "a"), .names [(["queue"], .folder), (["queue", ackName], .file 0),
    (["queue", segmentName 1], .file 1), (["queue", segmentName 2], .folder)]]

/-- A put fails since the next segment cannot be opened, and another one since its record is too large. -/
theorem put_failed_unseen_obstructed : ∃ d q, Queue.openIn Disk.empty ["queue"] 60 = (d, .ok q) ∧
    ((reach ⟨d, q⟩ obstructed).call (.put 5 "b")).2 = .failed (.openSegment (segmentName 2)) ∧
    HidesFailure String (reach ⟨d, q⟩ obstructed) ∧
    (∃ e, ((run ⟨d, q⟩ [.put 5 "a"]).call (.put 5 (fill UInt32.size))).2 = .failed e) ∧
    HidesRefusal String (run ⟨d, q⟩ [.put 5 "a"]) := by
  have facts : (Queue.openIn Disk.empty ["queue"] 60).2.toOption.map (fun q =>
      let s : StoredQueue := ⟨(Queue.openIn Disk.empty ["queue"] 60).1, q⟩
      (decide (s.SparesAll obstructed), ((s.reach obstructed).call (.put 5 "b")).2, s.queue.lastPut)) =
      some (true, .failed (.openSegment (segmentName 2)), 0) := by decide +kernel
  have durable : Record.Durable (⟨"a", 1, 5⟩ : Record String) := ⟨by decide +kernel, by decide +kernel⟩
  obtain ⟨d, q, opened, failure, refusal⟩ := put_failed_unseen (α := String) free_empty 60
  obtain ⟨e, d', q', -, refused⟩ := call_fill opened
  simp only [opened, Except.toOption, Option.map_some, Option.some.injEq, Prod.mk.injEq,
    decide_eq_true_eq] at facts
  obtain ⟨spares, failed, none_put⟩ := facts
  have serves : ServesAll Queue.lastPut ⟨d, q⟩ [.put 5 "a"] := by
    refine ⟨fun _ => ?_, trivial⟩
    show q.lastPut + 1 < UInt64.size ∧ (_ ∨ Record.Durable ⟨"a", q.lastPut + 1, 5⟩)
    rw [none_put]
    exact ⟨by decide, .inr durable⟩
  exact ⟨d, q, opened, failed, failure _ spares, ⟨e, congrArg Prod.snd refused⟩, refusal _ serves⟩

/-! ### What is not hidden -/

/-- **With the failed put, an acknowledged record is not given any more.** It was in a segment that is full, and
the failed put has begun the next one; so it goes away with the segment when it is acknowledged. Without the
failed put the segment stays, and the record is given. -/
theorem seen_acknowledged : ∃ d q e, Queue.openIn Disk.empty ["queue"] 60 = (d, .ok q) ∧
    answers ⟨d, q⟩ [.put 5 "a", .put 5 (fill UInt32.size), .ack 1, .get] =
      [.version 1, .failed e, .done, .element none] ∧
    answers ⟨d, q⟩ [.put 5 "a", .ack 1, .get] =
      [.version 1, .done, .element (some (ListQueue.element ⟨"a", 1, 5⟩))] := by
  have without : (Queue.openIn Disk.empty ["queue"] 60).2.toOption.map (fun q =>
      answers ⟨(Queue.openIn Disk.empty ["queue"] 60).1, q⟩ [.put 5 "a", .ack 1, .get]) =
      some [.version 1, .done, .element (some (ListQueue.element ⟨"a", 1, 5⟩))] := by decide +kernel
  have behind : (Queue.openIn Disk.empty ["queue"] 60).2.toOption.map (fun q =>
      let t := run ⟨(Queue.openIn Disk.empty ["queue"] 60).1, q⟩ [Call.put 5 "a"]
      answers ⟨(t.queue.roll t.disk 2).disk, (t.queue.roll t.disk 2).queue⟩ [.ack 1, (.get : Call String)]) =
      some [.done, .element none] := by decide +kernel
  rcases opens : Queue.openIn Disk.empty ["queue"] 60 with ⟨d, e | q⟩
  · rw [opens] at without
    cases without
  · obtain ⟨e, d', q', rolled, refused⟩ := call_fill opens
    simp only [opens, Except.toOption, Option.map_some, Option.some.injEq, rolled] at without behind
    refine ⟨d, q, e, rfl, ?_, without⟩
    have first : (call ⟨d, q⟩ (.put 5 "a")).2 = .version 1 := (List.cons.inj without).1
    show (call ⟨d, q⟩ (.put 5 "a")).2 :: (call (run ⟨d, q⟩ [.put 5 "a"]) (.put 5 (fill UInt32.size))).2 ::
      answers (call (run ⟨d, q⟩ [.put 5 "a"]) (.put 5 (fill UInt32.size))).1 [.ack 1, .get] = _
    rw [first, refused, behind]

end StoredQueue

end Outbox
