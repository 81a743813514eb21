import Outbox.Proofs.Queue.Payload
import Outbox.Queue.Basic

/-!
# Frames read back

What is written to a segment is found there again: frame by frame by the reader, and all of it by the
scan that looks for the end of the good frames.

* `Record.Sized` is a record that fits into a frame, and `Record.Durable` one that reads back as well;
* `framed` are the bytes of records, one frame behind the other;
* `next_framed` and `scanSegment_framed` are the two ways of reading them;
* `framed_cut` says what is left of them if only some of the bytes were written: some of the records
  and a torn end, in which the scan finds nothing;
* `versionIn_versionBytes` is the same for the acknowledged version.
-/

namespace Outbox

/-! ## Numbers in bytes -/

theorem word?_wordBytes {n : Nat} (h : n < UInt32.size) (rest : List UInt8) :
    word? (wordBytes n ++ rest) = some (n, rest) := by
  simp only [UInt32.size] at h
  simp only [wordBytes, List.cons_append, List.nil_append, word?, UInt8.toNat_ofNat']
  congr 2
  omega

/-- Of a larger number, four bytes hold the end. -/
theorem wordBytes_mod (n : Nat) : wordBytes n = wordBytes (n % UInt32.size) := by
  simp only [wordBytes, UInt32.size, List.cons.injEq, and_true]
  refine ⟨?_, ?_, ?_, ?_⟩ <;> apply UInt8.toNat_inj.1 <;> simp only [UInt8.toNat_ofNat'] <;> omega

/-- The acknowledged version is read as it was written, whatever bytes are behind it. -/
theorem versionIn_versionBytes {v : Nat} (h : v < UInt64.size) (rest : List UInt8) :
    versionIn (versionBytes v ++ rest) = v := by
  have high : v / UInt32.size < UInt32.size := Nat.div_lt_of_lt_mul h
  have low : v % UInt32.size < UInt32.size := Nat.mod_lt v (by decide)
  simp only [versionBytes, wordBytes_mod v, List.append_assoc, versionIn, word?_wordBytes high,
    word?_wordBytes low]
  exact Nat.div_add_mod' v UInt32.size

@[simp] theorem versionIn_nil : versionIn [] = 0 :=
  rfl

/-! ## One frame -/

namespace Frame

@[simp] theorem next_nil : next [] = (.finished, []) :=
  rfl

theorem write_eq (payload : List UInt8) : write payload =
    wordBytes payload.length ++ wordBytes (Checksum.ofBytes payload).toNat ++ payload ++ [terminator] := by
  simp [write, parts]

/-- What is read where a payload stands between its length and a last byte, with any checksum. -/
theorem next_assembled {payload : List UInt8} {expected : Nat} (fits : payload.length < UInt32.size)
    (small : expected < UInt32.size) (last : UInt8) (rest : List UInt8) :
    next (wordBytes payload.length ++ wordBytes expected ++ payload ++ [last] ++ rest) =
      (if last ≠ terminator then .broken .noTerminator
        else if expected ≠ (Checksum.ofBytes payload).toNat then
          .broken (.badChecksum expected (Checksum.ofBytes payload).toNat)
        else .payload payload, rest) := by
  have ended : (payload ++ (last :: rest)).drop payload.length = last :: rest := by simp
  have begun : (payload ++ (last :: rest)).take payload.length = payload := by simp
  simp only [next, List.append_assoc, word?_wordBytes fits, word?_wordBytes small, List.cons_append,
    List.nil_append, ended, begun]
  split
  · rfl
  · split <;> rfl

/-- A frame is read as the payload it was made for. -/
theorem next_write {payload : List UInt8} (h : payload.length < UInt32.size) (rest : List UInt8) :
    next (write payload ++ rest) = (.payload payload, rest) := by
  rw [write_eq, next_assembled h (Checksum.ofBytes payload).isLt]
  simp

theorem length_write_pos (payload : List UInt8) : 0 < (write payload).length := by
  rw [length_write, size, overhead]
  omega

/-! ## A frame that is cut -/

/-- There is no whole frame at the head of some bytes. -/
def Torn (bytes : List UInt8) : Prop :=
  ∀ payload, (next bytes).1 ≠ .payload payload

theorem torn_nil : Torn [] :=
  fun _ found => Reading.noConfusion found

/-- The number in front is the same if more bytes follow. -/
theorem word?_append {bytes rest : List UInt8} {n : Nat} (h : word? bytes = some (n, rest))
    (more : List UInt8) : word? (bytes ++ more) = some (n, rest ++ more) := by
  unfold word? at h
  split at h
  · cases h
    rfl
  · cases h

/-- **A frame that is cut** announces more bytes than there are. It is used up, and taken for the end if there
is not even the whole length. -/
theorem next_cut {bytes payload : List UInt8} (fits : payload.length < UInt32.size)
    (head : bytes <+: write payload) (short : bytes.length < size payload) :
    next bytes = (if bytes.length < 4 then .finished else .broken .truncated, []) := by
  obtain ⟨more, whole⟩ := head
  cases first : word? bytes with
  | none => simp only [next, first, if_pos (length_of_word?_eq_none first)]
  | some parts =>
    obtain ⟨length, afterLength⟩ := parts
    have lengths := length_of_word? first
    -- the length is the one that was written
    have written : word? (write payload) = some (length, afterLength ++ more) :=
      whole ▸ word?_append first more
    simp only [write, parts, List.flatten_cons] at written
    rw [word?_wordBytes fits, Option.some.injEq, Prod.mk.injEq] at written
    obtain rfl := written.1
    rw [if_neg (by omega)]
    cases second : word? afterLength with
    | none => simp only [next, first, second]
    | some parts =>
      obtain ⟨expected, body⟩ := parts
      have lengths' := length_of_word? second
      rw [size, overhead] at short
      have ended : body.drop payload.length = [] := List.drop_eq_nil_of_le (by omega)
      simp only [next, first, second, ended]

theorem torn_of_prefix {bytes payload : List UInt8} (fits : payload.length < UInt32.size)
    (head : bytes <+: write payload) (short : bytes.length < size payload) : Torn bytes := by
  intro payload' found
  rw [next_cut fits head short] at found
  split at found <;> cases found

end Frame

/-! ## Records in frames -/

variable {α : Type} [Storable α]

/-- A record that can be written: it fits into a frame, and its version into 64 bits. Whether it reads back
is another matter. -/
structure Record.Sized (r : Record α) : Prop where
  fits : r.payload.length < UInt32.size
  version_lt : r.version < UInt64.size

/-- A record that can be stored: what is written for it reads back, and fits into a frame. -/
structure Record.Durable (r : Record α) : Prop where
  reads : Record.parse? r.payload = some r
  fits : r.payload.length < UInt32.size

theorem Record.Durable.sized {r : Record α} (h : r.Durable) : r.Sized :=
  ⟨h.fits, (Record.bounds_of_parse? h.reads).1⟩

/-- Records, a frame for each. -/
def framed (rs : List (Record α)) : List UInt8 :=
  rs.flatMap fun r => Frame.write r.payload

@[simp] theorem framed_nil : framed ([] : List (Record α)) = [] :=
  rfl

@[simp] theorem framed_cons (r : Record α) (rs : List (Record α)) :
    framed (r :: rs) = Frame.write r.payload ++ framed rs :=
  rfl

@[simp] theorem framed_append (rs rs' : List (Record α)) :
    framed (rs ++ rs') = framed rs ++ framed rs' :=
  List.flatMap_append

/-- Every record takes some bytes. -/
theorem length_le_length_framed (rs : List (Record α)) : rs.length ≤ (framed rs).length := by
  induction rs with
  | nil => simp
  | cons r rs ih =>
    have pos := Frame.length_write_pos r.payload
    simp only [framed_cons, List.length_append, List.length_cons]
    omega

/-- The reader finds the first record. -/
theorem next_framed {r : Record α} (fits : r.payload.length < UInt32.size) (rs : List (Record α))
    (rest : List UInt8) :
    Frame.next (framed (r :: rs) ++ rest) = (.payload r.payload, framed rs ++ rest) := by
  rw [framed_cons, List.append_assoc, Frame.next_write fits]

/-- **Of records that were written in part**, some are whole, at least those that are known to be, and
the rest is torn. -/
theorem framed_cut {rs : List (Record α)} (sized : ∀ r ∈ rs, r.Sized) {bytes : List UInt8}
    {n : Nat} (known : framed (rs.take n) <+: bytes) (written : bytes <+: framed rs) :
    ∃ k torn, min n rs.length ≤ k ∧ k ≤ rs.length ∧ Frame.Torn torn ∧
      bytes = framed (rs.take k) ++ torn := by
  induction rs generalizing bytes n with
  | nil =>
    rw [framed_nil, List.prefix_nil] at written
    exact ⟨0, [], Nat.min_le_right _ _, Nat.le_refl _, Frame.torn_nil, by simp [written]⟩
  | cons r rs ih =>
    rw [framed_cons] at written
    by_cases short : bytes.length < (Frame.write r.payload).length
    · -- the first frame is cut, so nothing is known to be written
      have none_known : n = 0 := by
        cases n with
        | zero => rfl
        | succ n =>
          rw [List.take_succ_cons, framed_cons] at known
          have := known.length_le
          rw [List.length_append] at this
          omega
      have head : bytes <+: Frame.write r.payload :=
        List.prefix_of_prefix_length_le written (List.prefix_append _ _) (Nat.le_of_lt short)
      have torn : Frame.Torn bytes := Frame.torn_of_prefix
        (sized r List.mem_cons_self).fits head (by rwa [Frame.length_write] at short)
      exact ⟨0, bytes, by simp [none_known], Nat.zero_le _, torn, by simp⟩
    · obtain ⟨rest, rfl⟩ : Frame.write r.payload <+: bytes :=
        List.prefix_of_prefix_length_le (List.prefix_append _ _) written (Nat.le_of_not_lt short)
      rw [List.prefix_append_right_inj] at written
      have known' : framed (rs.take (n - 1)) <+: rest := by
        cases n with
        | zero => simp
        | succ n =>
          rw [List.take_succ_cons, framed_cons, List.prefix_append_right_inj] at known
          exact known
      obtain ⟨k, torn, least, most, isTorn, rfl⟩ :=
        ih (fun r' member => sized r' (List.mem_cons_of_mem _ member)) known' written
      refine ⟨k + 1, torn, ?_, ?_, isTorn, ?_⟩
      · rw [List.length_cons]
        omega
      · rw [List.length_cons]
        omega
      · rw [List.take_succ_cons, framed_cons, List.append_assoc]

/-! ## Scanning -/

/-- The scan goes over all records and tells where they end and what the last version is. It stops at
a torn end. -/
theorem Scan.over_framed {rs : List (Record α)} (h : ∀ r ∈ rs, r.Sized) {torn : List UInt8}
    (isTorn : Frame.Torn torn) (s : Scan) :
    s.over (framed rs ++ torn) =
      ⟨s.length + (framed rs).length, (rs.getLast?.map Record.version).or s.lastVersion⟩ := by
  induction rs generalizing s with
  | nil =>
    rw [framed_nil, List.nil_append, Scan.over]
    split
    · next payload _ found => exact absurd (congrArg Prod.fst found) (isTorn payload)
    · simp
  | cons r rs ih =>
    have head := h r List.mem_cons_self
    have frame := next_framed head.fits rs torn
    rw [Scan.over]
    split
    · next payload rest found =>
      rw [frame] at found
      cases found
      rw [Record.version?_payload head.version_lt]
      simp only
      rw [ih fun r' hr' => h r' (List.mem_cons_of_mem r hr')]
      rw [framed_cons, List.length_append, Frame.length_write, List.getLast?_cons]
      congr 1
      · exact Nat.add_assoc ..
      · cases rs.getLast? <;> simp
    · next other => exact absurd frame (other _ _)

/-- **The scan of a segment finds all its records**, and cuts off a torn end. -/
theorem scanSegment_framed {rs : List (Record α)} (h : ∀ r ∈ rs, r.Sized) {torn : List UInt8}
    (isTorn : Frame.Torn torn) :
    scanSegment (framed rs ++ torn) = ⟨(framed rs).length, rs.getLast?.map Record.version⟩ := by
  simp [scanSegment, Scan.over_framed h isTorn]

end Outbox
