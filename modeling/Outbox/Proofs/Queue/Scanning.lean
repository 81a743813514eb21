import Outbox.Proofs.Queue.Frames

/-!
# Scanning any bytes

What the scan of a segment goes over is described without the scan: it is the longest sequence of frames at
the head of the bytes whose payloads have a version. So the scan of what it went over finds the same, whatever
came behind.

* `Frame.next_eq_payload_iff` says when a payload is read, and `Frame.next_eq_finished_iff` when bytes are taken
  for the end;
* `frames` are the frames of payloads, and `Frame.Counts` the payloads that the scan goes over;
* `GoodFrames` are those at the head of some bytes, which are unique (`GoodFrames.unique`);
* `exists_goodFrames` says that there always are such, and `scanSegment_good` is the scan of any bytes.
-/

namespace Outbox

/-! ## Reading a frame -/

/-- Four bytes are those of the number that they hold. -/
theorem eq_of_word? {bytes rest : List UInt8} {n : Nat} (h : word? bytes = some (n, rest)) :
    n < UInt32.size ∧ bytes = wordBytes n ++ rest := by
  unfold word? at h
  split at h
  · next a b c e rest' =>
    simp only [Option.some.injEq, Prod.mk.injEq] at h
    obtain ⟨rfl, rfl⟩ := h
    have ha := a.toNat_lt
    have hb := b.toNat_lt
    have hc := c.toNat_lt
    have he := e.toNat_lt
    refine ⟨by simp only [UInt32.size]; omega, ?_⟩
    simp only [wordBytes, List.cons_append, List.nil_append, List.cons.injEq, and_true]
    refine ⟨?_, ?_, ?_, ?_⟩ <;> apply UInt8.toNat_inj.1 <;> simp only [UInt8.toNat_ofNat'] <;> omega
  · cases h

namespace Frame

/-- A payload is read exactly from the frame that is written for it. -/
theorem next_eq_payload_iff {bytes rest payload : List UInt8} :
    next bytes = (.payload payload, rest) ↔
      payload.length < UInt32.size ∧ bytes = write payload ++ rest := by
  constructor
  · intro found
    unfold next at found
    split at found
    · cases found
    next length afterLength first =>
    split at found
    · cases found
    next expected body second =>
    split at found
    · cases found
    next last rest' ended =>
    dsimp only at found
    split at found
    · cases found
    next terminated =>
    split at found
    · cases found
    next summed =>
    cases found
    obtain ⟨small, parts⟩ := eq_of_word? first
    obtain ⟨-, parts'⟩ := eq_of_word? second
    have inside : length < body.length := by
      have := congrArg List.length ended
      rw [List.length_drop, List.length_cons] at this
      omega
    have size : (body.take length).length = length := by
      rw [List.length_take]
      omega
    refine ⟨by rwa [size], ?_⟩
    rw [Decidable.not_not] at terminated summed
    have whole : body = body.take length ++ terminator :: rest := by
      rw [← terminated, ← ended, List.take_append_drop]
    rw [parts, parts', whole]
    simp [write, Frame.parts, size, summed]
  · rintro ⟨fits, rfl⟩
    exact next_write fits rest

/-- **Bytes are taken for the end of a segment** if they are too few for the length of a frame. -/
theorem next_eq_finished_iff {bytes : List UInt8} : (next bytes).1 = .finished ↔ bytes.length < 4 := by
  cases first : word? bytes with
  | none => simp only [next, first, length_of_word?_eq_none first]
  | some parts =>
    have := length_of_word? first
    refine ⟨fun found => ?_, fun short => by omega⟩
    unfold next at found
    simp only [first] at found
    split at found
    · cases found
    split at found
    · cases found
    split at found
    · cases found
    split at found <;> cases found

end Frame

/-! ## Frames of payloads -/

/-- Payloads, a frame for each. -/
def frames (payloads : List (List UInt8)) : List UInt8 :=
  payloads.flatMap Frame.write

@[simp] theorem frames_nil : frames [] = [] :=
  rfl

@[simp] theorem frames_cons (payload : List UInt8) (payloads : List (List UInt8)) :
    frames (payload :: payloads) = Frame.write payload ++ frames payloads :=
  rfl

/-- The scan goes over a payload: it fits into a frame, and has a version. -/
structure Frame.Counts (payload : List UInt8) : Prop where
  fits : payload.length < UInt32.size
  hasVersion : (Record.version? payload).isSome

/-- These are the good frames at the head of some bytes: there are no more of them. -/
structure GoodFrames (bytes : List UInt8) (payloads : List (List UInt8)) : Prop where
  counts : ∀ payload ∈ payloads, Frame.Counts payload
  head : frames payloads <+: bytes
  longest : ∀ payloads', (∀ payload ∈ payloads', Frame.Counts payload) → frames payloads' <+: bytes →
    payloads' <+: payloads

namespace GoodFrames

variable {bytes rest payload : List UInt8} {payloads payloads' : List (List UInt8)}

theorem unique (h : GoodFrames bytes payloads) (h' : GoodFrames bytes payloads') : payloads = payloads' :=
  (h'.longest payloads h.counts h.head).eq_of_length_le
    (h.longest payloads' h'.counts h'.head).length_le

/-- What the good frames take up is their frames. -/
theorem take_length (h : GoodFrames bytes payloads) : bytes.take (frames payloads).length = frames payloads :=
  (List.prefix_iff_eq_take.1 h.head).symm

/-- There are none where the head of the bytes is no frame whose payload has a version. -/
theorem nothing (stops : ∀ payload rest, Frame.next bytes = (.payload payload, rest) →
    Record.version? payload = none) : GoodFrames bytes [] := by
  refine ⟨by simp, List.nil_prefix, fun payloads' counts head => ?_⟩
  cases payloads' with
  | nil => exact List.prefix_refl _
  | cons payload payloads' =>
    obtain ⟨more, rfl⟩ := head
    have first := counts payload List.mem_cons_self
    rw [frames_cons, List.append_assoc] at stops
    have none_there := stops payload _ (Frame.next_write first.fits _)
    have := first.hasVersion
    rw [none_there] at this
    cases this

/-- A frame goes in front of the good ones. -/
theorem cons (h : GoodFrames rest payloads) (counts : Frame.Counts payload) :
    GoodFrames (Frame.write payload ++ rest) (payload :: payloads) where
  counts payload' member := by
    rcases List.mem_cons.1 member with rfl | member
    · exact counts
    · exact h.counts payload' member
  head := by
    rw [frames_cons, List.prefix_append_right_inj]
    exact h.head
  longest payloads' counts' head := by
    cases payloads' with
    | nil => exact List.nil_prefix
    | cons payload' payloads' =>
      -- the first frame is the only one that can be read there
      obtain ⟨more, same⟩ := head
      rw [frames_cons, List.append_assoc] at same
      have first := Frame.next_write (counts' payload' List.mem_cons_self).fits (frames payloads' ++ more)
      rw [same, Frame.next_write counts.fits, Prod.mk.injEq, Frame.Reading.payload.injEq] at first
      obtain ⟨rfl, rfl⟩ := first
      rw [List.cons_prefix_cons]
      exact ⟨rfl, h.longest payloads' (fun p member => counts' p (List.mem_cons_of_mem _ member))
        (List.prefix_append _ _)⟩

end GoodFrames

theorem goodFrames_nil : GoodFrames [] [] :=
  .nothing fun payload rest found => by cases found

/-- Frames whose payloads all have a version are good up to the last. -/
theorem goodFrames_frames {payloads : List (List UInt8)}
    (counts : ∀ payload ∈ payloads, Frame.Counts payload) : GoodFrames (frames payloads) payloads := by
  induction payloads with
  | nil => exact goodFrames_nil
  | cons payload payloads ih =>
    exact (ih fun p member => counts p (List.mem_cons_of_mem _ member)).cons (counts payload List.mem_cons_self)

variable {α : Type} [Storable α]

theorem Record.Sized.counts {r : Record α} (h : r.Sized) : Frame.Counts r.payload :=
  ⟨h.fits, by rw [Record.version?_payload h.version_lt]; rfl⟩

theorem frames_map_payload (rs : List (Record α)) : frames (rs.map Record.payload) = framed rs := by
  rw [frames, List.flatMap_map, framed]

/-- Records in front of a torn end are the good frames. -/
theorem goodFrames_framed {rs : List (Record α)} (sized : ∀ r ∈ rs, r.Sized) {torn : List UInt8}
    (isTorn : Frame.Torn torn) : GoodFrames (framed rs ++ torn) (rs.map Record.payload) := by
  induction rs with
  | nil => exact .nothing fun payload _ found => absurd (congrArg Prod.fst found) (isTorn payload)
  | cons r rs ih =>
    rw [framed_cons, List.append_assoc]
    exact (ih fun r' member => sized r' (List.mem_cons_of_mem r member)).cons
      (sized r List.mem_cons_self).counts

/-! ## The scan -/

/-- The scan goes over good frames until there are no more. -/
theorem Scan.exists_goodFrames (s : Scan) (bytes : List UInt8) :
    ∃ payloads, GoodFrames bytes payloads ∧ s.over bytes =
      ⟨s.length + (frames payloads).length, (payloads.getLast?.bind Record.version?).or s.lastVersion⟩ := by
  fun_induction Scan.over s bytes with
  | case1 s bytes payload rest found version hasVersion ih =>
    obtain ⟨fits, rfl⟩ := Frame.next_eq_payload_iff.1 found
    obtain ⟨payloads, good, scanned⟩ := ih
    refine ⟨payload :: payloads, good.cons ⟨fits, by rw [hasVersion]; rfl⟩, ?_⟩
    rw [scanned, frames_cons, List.length_append, Frame.length_write, Nat.add_assoc, List.getLast?_cons]
    cases last : payloads.getLast? with
    | none => simp [hasVersion]
    | some payload' =>
      obtain ⟨version', hasVersion'⟩ := Option.isSome_iff_exists.1
        (good.counts payload' (List.mem_of_getLast? last)).hasVersion
      simp [hasVersion']
  | case2 s bytes payload rest found none_there =>
    refine ⟨[], .nothing fun payload' rest' found' => ?_, by simp⟩
    rw [found] at found'
    cases found'
    exact none_there
  | case3 s bytes other =>
    exact ⟨[], .nothing fun payload rest found => absurd found (other payload rest), by simp⟩

theorem exists_goodFrames (bytes : List UInt8) : ∃ payloads, GoodFrames bytes payloads :=
  let ⟨payloads, good, _⟩ := Scan.exists_goodFrames ⟨0, none⟩ bytes
  ⟨payloads, good⟩

/-- **The scan of a segment** goes over its good frames, and tells the version of the last. -/
theorem scanSegment_good {bytes : List UInt8} {payloads : List (List UInt8)} (good : GoodFrames bytes payloads) :
    scanSegment bytes = ⟨(frames payloads).length, payloads.getLast?.bind Record.version?⟩ := by
  obtain ⟨payloads', good', scanned⟩ := Scan.exists_goodFrames ⟨0, none⟩ bytes
  obtain rfl := good.unique good'
  rw [scanSegment, scanned, Nat.zero_add, Option.or_none]

end Outbox
