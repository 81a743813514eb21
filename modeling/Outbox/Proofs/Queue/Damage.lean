import Outbox.Proofs.Queue.Recovery

/-!
# Damage in the newest segment

Opening a queue keeps of the newest segment what is in front of the first frame that cannot be read. An
incomplete record at the end is cut off in this way, but a frame that was damaged between others takes those
behind it along, complete as they are.

* `Frame.InPlace` are the bytes of a frame that may be damaged, and `Frame.isGood` tells whether they can still
  be read;
* `goodFrames_blocks` are the good frames of such bytes in turn;
* `Queue.openIn_damaged` is what is left of a segment, and `Queue.openIn_cuts_undamaged` a segment that loses a
  record in good order.
-/

namespace Outbox

/-! ## One frame -/

namespace Frame

/-- These bytes were the frame of a payload. They may have been damaged, but for the length in front. -/
structure InPlace (payload block : List UInt8) : Prop where
  length : block.length = size payload
  head : block.take 4 = wordBytes payload.length

/-- Bytes are a frame that the scan goes over. -/
def isGood (block : List UInt8) : Bool :=
  match next block with
  | (.payload payload, _) => (Record.version? payload).isSome
  | _ => false

/-- What is read from a damaged frame is the same in front of other bytes, and uses up the frame. -/
theorem InPlace.next_append {payload block : List UInt8} (h : InPlace payload block)
    (fits : payload.length < UInt32.size) (rest : List UInt8) :
    next (block ++ rest) = ((next block).1, rest) := by
  have length := h.length
  rw [size, overhead] at length
  have whole : block = wordBytes payload.length ++ block.drop 4 := by
    rw [← h.head, List.take_append_drop]
  have first : word? block = some (payload.length, block.drop 4) := by
    rw [whole, word?_wordBytes fits, ← whole]
  obtain ⟨⟨expected, body⟩, second⟩ : ∃ found, word? (block.drop 4) = some found := by
    cases found : word? (block.drop 4) with
    | some parts => exact ⟨parts, rfl⟩
    | none =>
      have := length_of_word?_eq_none found
      rw [List.length_drop] at this
      omega
  obtain ⟨last, ended⟩ : ∃ last, body.drop payload.length = [last] := by
    have := length_of_word? second
    rw [List.length_drop] at this
    exact List.length_eq_one_iff.1 (by rw [List.length_drop]; omega)
  have inside : payload.length ≤ body.length := by
    have := congrArg List.length ended
    rw [List.length_drop, List.length_singleton] at this
    omega
  have ended' : (body ++ rest).drop payload.length = last :: rest := by
    rw [List.drop_append_of_le_length inside, ended, List.singleton_append]
  have begun : (body ++ rest).take payload.length = body.take payload.length :=
    List.take_append_of_le_length inside
  simp only [next, first, second, ended, word?_append first rest, word?_append second rest, ended', begun]
  split
  · rfl
  · split <;> rfl

end Frame

/-- The good frames of damaged ones, one behind the other, are those in front of the first that cannot be
read. -/
theorem goodFrames_blocks {blocks : List (List UInt8)} {tail : List UInt8}
    (inPlace : ∀ block ∈ blocks, ∃ payload, payload.length < UInt32.size ∧ Frame.InPlace payload block)
    (torn : Frame.Torn tail) :
    ∃ payloads, GoodFrames (blocks.flatten ++ tail) payloads ∧
      frames payloads = (blocks.takeWhile Frame.isGood).flatten := by
  induction blocks with
  | nil =>
    exact ⟨[], .nothing fun payload _ found => absurd (congrArg Prod.fst found) (torn payload), rfl⟩
  | cons block blocks ih =>
    obtain ⟨payloads, good, same⟩ := ih fun b member => inPlace b (List.mem_cons_of_mem _ member)
    obtain ⟨payload, fits, here⟩ := inPlace block List.mem_cons_self
    have read := here.next_append fits (blocks.flatten ++ tail)
    rw [List.flatten_cons, List.append_assoc]
    cases isGood : Frame.isGood block with
    | false =>
      refine ⟨[], .nothing fun payload' rest found => ?_, by simp [isGood]⟩
      have first : (Frame.next block).1 = .payload payload' := by
        rw [read, Prod.mk.injEq] at found
        exact found.1
      have is : Frame.next block = (.payload payload', (Frame.next block).2) := Prod.ext first rfl
      rw [Frame.isGood, is] at isGood
      simpa using isGood
    | true =>
      obtain ⟨payload', hasVersion, first⟩ : ∃ payload', (Record.version? payload').isSome ∧
          (Frame.next block).1 = .payload payload' := by
        unfold Frame.isGood at isGood
        split at isGood
        · next payload' _ found => exact ⟨payload', isGood, by rw [found]⟩
        · cases isGood
      rw [first] at read
      obtain ⟨fits', together⟩ := Frame.next_eq_payload_iff.1 read
      have alone := List.append_cancel_right together
      refine ⟨payload' :: payloads, ?_, ?_⟩
      · rw [alone]
        exact good.cons ⟨fits', hasVersion⟩
      · rw [List.takeWhile_cons, if_pos isGood, List.flatten_cons, ← same, frames_cons, alone]

/-- Of pieces one behind the other, those up to the first that fails a test contain a piece at its place if
the piece and those in front of it pass the test, and else they do not. -/
theorem prefix_takeWhile_iff {test : List UInt8 → Bool} {front behind : List (List UInt8)} {piece : List UInt8}
    (some_bytes : 0 < piece.length) (passes : test piece = true) :
    (front ++ [piece]).flatten <+: ((front ++ piece :: behind).takeWhile test).flatten ↔
      ∀ p ∈ front, test p = true := by
  constructor
  · intro inside
    refine Classical.byContradiction fun fails => ?_
    have none_behind : (front ++ piece :: behind).takeWhile test = front.takeWhile test := by
      rw [List.takeWhile_append, if_neg fun whole => fails ?_]
      intro p member
      rw [← (List.takeWhile_prefix test).eq_of_length whole] at member
      exact List.all_eq_true.1 List.all_takeWhile p member
    have longer := inside.length_le
    obtain ⟨rest, parts⟩ := List.takeWhile_prefix (p := test) (l := front)
    have lengths := congrArg (fun l => l.flatten.length) parts
    rw [none_behind] at longer
    simp only [List.flatten_append, List.length_append, List.flatten_singleton] at longer lengths
    omega
  · intro pass
    have all : ∀ p ∈ front ++ [piece], test p = true := by
      simpa [or_imp, forall_and, passes] using pass
    rw [List.append_cons front piece behind, List.takeWhile_append_of_pos all]
    refine ⟨(behind.takeWhile test).flatten, ?_⟩
    rw [← List.flatten_append]

theorem Frame.isGood_write {payload : List UInt8} (counts : Frame.Counts payload) :
    Frame.isGood (Frame.write payload) = true := by
  have read := Frame.next_write counts.fits []
  rw [List.append_nil] at read
  rw [Frame.isGood, read]
  exact counts.hasVersion

namespace Queue

variable {α : Type} [Storable α] {d : Disk} {folder : Place}

/-- **What is left of the newest segment** that records were written to, when any of their frames were damaged
behind the length and the last record is incomplete: what is in front of the first frame that cannot be read.
A frame in good order is left exactly if all those in front of it can be read. -/
theorem openIn_damaged {id : Nat} {blocks : List (List UInt8)} {tail : List UInt8}
    (recoverable : Recoverable d folder)
    (newest : HasSegment d folder id ∧ ∀ id', HasSegment d folder id' → id' ≤ id)
    (content : d.content? (folder ++ [segmentName id]) = some (blocks.flatten ++ tail))
    (written : ∀ block ∈ blocks, ∃ r : Record α, r.Sized ∧ Frame.InPlace r.payload block)
    (incomplete : tail = [] ∨
      ∃ r : Record α, r.Sized ∧ tail <+: Frame.write r.payload ∧ tail ≠ Frame.write r.payload)
    (maxSize : Nat) :
    ∃ d' q left, openIn d folder maxSize = (d', .ok q) ∧
      d'.content? (folder ++ [segmentName id]) = some left ∧
      left = (blocks.takeWhile Frame.isGood).flatten ∧
      ∀ front block behind, blocks = front ++ block :: behind →
        (∃ r : Record α, r.Sized ∧ block = Frame.write r.payload) →
        ((front ++ [block]).flatten <+: left ↔ ∀ b ∈ front, Frame.isGood b = true) := by
  have torn : Frame.Torn tail := by
    rcases incomplete with rfl | ⟨r, sized, begun, other⟩
    · exact Frame.torn_nil
    · refine Frame.torn_of_prefix sized.fits begun (Nat.lt_of_le_of_ne ?_ fun whole => other ?_)
      · rw [← Frame.length_write]
        exact begun.length_le
      · exact begun.eq_of_length (whole.trans (Frame.length_write _).symm)
  have inPlace (block : List UInt8) (member : block ∈ blocks) :
      ∃ payload, payload.length < UInt32.size ∧ Frame.InPlace payload block :=
    let ⟨r, sized, here⟩ := written block member
    ⟨r.payload, sized.fits, here⟩
  obtain ⟨payloads, good, same⟩ := goodFrames_blocks inPlace torn
  obtain ⟨d', q, w, payloads', opened, -, -, goes_on, good', left, -⟩ := openIn_recovers recoverable maxSize
  obtain rfl : w.id = id := goes_on.eq newest
  rw [content, Option.getD_some] at good'
  obtain rfl := good'.unique good
  refine ⟨d', q, _, opened, left, same, ?_⟩
  rintro front block behind rfl ⟨r, sized, rfl⟩
  rw [same]
  exact prefix_takeWhile_iff (Frame.length_write_pos _) (Frame.isGood_write sized.counts)

/-- The frames of three records in one segment. The second of them ends with another byte. -/
def damagedFrames : List (List UInt8) :=
  [framed [(⟨"a", 1, 5⟩ : Record String)], (framed [(⟨"b", 2, 5⟩ : Record String)]).dropLast ++ [11],
    framed [(⟨"c", 3, 5⟩ : Record String)]]

/-- A queue with these frames, that nobody has open. -/
def damagedSegment : Disk where
  entries := [(["queue"], .folder), (["queue", ackName], .file 0), (["queue", segmentName 1], .file 1)]
  contents := [[], damagedFrames.flatten]

/-- When it is opened, the third frame is not left at its place, because the second cannot be read. -/
theorem openIn_damaged_third : ∃ d q left, openIn damagedSegment ["queue"] 100 = (d, .ok q) ∧
    d.content? ["queue", segmentName 1] = some left ∧ ¬ damagedFrames.flatten <+: left := by
  obtain ⟨recoverable, has⟩ := recoverable_of_children (d := damagedSegment) ["queue"] 0 [(1, 1)] rfl
    (by decide) rfl (by decide) (by decide) (by decide) (by decide) (by decide)
  have newest : HasSegment damagedSegment ["queue"] 1 ∧
      ∀ id, HasSegment damagedSegment ["queue"] id → id ≤ 1 := by
    exact ⟨(has 1).2 (by decide), fun id there => Nat.le_of_eq (List.mem_singleton.1 ((has id).1 there))⟩
  have written : ∀ block ∈ damagedFrames, ∃ r : Record String, r.Sized ∧ Frame.InPlace r.payload block := by
    simp only [damagedFrames, List.mem_cons, List.not_mem_nil, or_false]
    rintro block (rfl | rfl | rfl)
    · exact ⟨⟨"a", 1, 5⟩, ⟨by decide +kernel, by decide⟩, by decide +kernel, by decide +kernel⟩
    · exact ⟨⟨"b", 2, 5⟩, ⟨by decide +kernel, by decide⟩, by decide +kernel, by decide +kernel⟩
    · exact ⟨⟨"c", 3, 5⟩, ⟨by decide +kernel, by decide⟩, by decide +kernel, by decide +kernel⟩
  obtain ⟨d, q, left, opened, content, -, keeps⟩ := openIn_damaged recoverable newest
    (by rw [List.append_nil]; rfl) written (.inl rfl) 100
  refine ⟨d, q, left, opened, content, fun whole => ?_⟩
  have third := keeps (damagedFrames.take 2) (framed [(⟨"c", 3, 5⟩ : Record String)]) [] rfl
    ⟨⟨"c", 3, 5⟩, ⟨by decide +kernel, by decide⟩, by simp⟩
  have second := third.1 whole _ (List.mem_cons_of_mem _ List.mem_cons_self)
  exact absurd second (by decide +kernel)

/-- A frame in good order is lost. What was the last record of three is found nowhere in the segment, and the
first is the last one now. -/
theorem openIn_cuts_undamaged : ∃ d q, openIn damagedSegment ["queue"] 100 = (d, .ok q) ∧
    damagedSegment.content? ["queue", segmentName 1] = some damagedFrames.flatten ∧
    framed [(⟨"c", 3, 5⟩ : Record String)] ∈ damagedFrames ∧
    d.content? ["queue", segmentName 1] = some (framed [(⟨"a", 1, 5⟩ : Record String)]) ∧
    ¬ framed [(⟨"c", 3, 5⟩ : Record String)] <:+: framed [(⟨"a", 1, 5⟩ : Record String)] ∧ q.lastPut = 1 := by
  have facts : (openIn damagedSegment ["queue"] 100).2.toOption.map (fun q => (q.lastPut,
      (openIn damagedSegment ["queue"] 100).1.content? ["queue", segmentName 1])) =
      some (1, some (framed [(⟨"a", 1, 5⟩ : Record String)])) := by decide +kernel
  rcases opens : openIn damagedSegment ["queue"] 100 with ⟨d, e | q⟩
  · rw [opens] at facts
    cases facts
  · simp only [opens, Except.toOption, Option.map_some, Option.some.injEq, Prod.mk.injEq] at facts
    refine ⟨d, q, rfl, rfl, by simp [damagedFrames], facts.2, fun inside => ?_, facts.1⟩
    have same := inside.eq_of_length (by decide +kernel)
    exact absurd same (by decide +kernel)

end Queue

end Outbox
