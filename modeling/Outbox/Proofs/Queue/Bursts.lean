import Outbox.Proofs.Queue.Scanning

/-!
# Small changes are noticed

The checksum of a frame takes in the payload bit by bit. Which bit has left the register can be seen in what
is left, so nothing is forgotten on the way, and four bytes fill the register just once. So two payloads that
differ in no more than four bytes in a row have different checksums, however long they are.

* `Checksum.step_injective` says that no bit is forgotten, and `Checksum.step_xor` that a step adds nothing of
  its own;
* `Checksum.run_eq_steps` takes up to four bytes into the register at once;
* `Checksum.ofBytes_ne` is about payloads that differ in such bytes;
* `Altered` are bytes that were changed in some places only, and `Frame.next_altered` is the result: a change
  of up to four bytes in a row of the payload, of the checksum or of the terminator is reported.
-/

namespace Outbox

/-! ## The register -/

namespace Checksum

variable {r r' : BitVec 32}

/-- A bit of the register after a step. -/
theorem getLsbD_step (r : BitVec 32) (i : Nat) :
    (step r).getLsbD i = (r.getLsbD (i + 1) ^^ (r.getLsbD 0 && polynomial.getLsbD i)) := by
  unfold step
  cases r.getLsbD 0 with
  | true => rw [if_pos rfl, BitVec.getLsbD_xor, BitVec.getLsbD_ushiftRight, Nat.add_comm, Bool.true_and]
  | false =>
    rw [if_neg Bool.false_ne_true, BitVec.getLsbD_ushiftRight, Nat.add_comm, Bool.false_and, Bool.xor_false]

/-- Registers may be put on top of each other before a step, or after it. -/
theorem step_xor (r r' : BitVec 32) : step (r ^^^ r') = step r ^^^ step r' := by
  refine BitVec.eq_of_getLsbD_eq fun i _ => ?_
  simp only [BitVec.getLsbD_xor, getLsbD_step, Bool.and_xor_distrib_right, Bool.xor_assoc]
  rw [Bool.xor_left_comm (r'.getLsbD (i + 1))]

/-- **No bit is forgotten in a step.** -/
theorem step_injective (same : step r = step r') : r = r' := by
  have bit (i : Nat) := congrArg (BitVec.getLsbD · i) same
  simp only [getLsbD_step] at bit
  -- the bit that left is the highest one now, where nothing but the polynomial can set it
  have low : r.getLsbD 0 = r'.getLsbD 0 := by
    have last := bit 31
    rwa [show polynomial.getLsbD 31 = true from rfl, BitVec.getLsbD_of_ge r _ (Nat.le_refl _),
      BitVec.getLsbD_of_ge r' _ (Nat.le_refl _), Bool.and_true, Bool.and_true, Bool.false_xor,
      Bool.false_xor] at last
  refine BitVec.eq_of_getLsbD_eq fun i _ => ?_
  cases i with
  | zero => exact low
  | succ i =>
    have next := bit i
    rwa [low, Bool.xor_left_inj] at next

theorem steps_xor (n : Nat) (r r' : BitVec 32) : steps n (r ^^^ r') = steps n r ^^^ steps n r' := by
  induction n generalizing r r' with
  | zero => rfl
  | succ n ih => rw [steps, step_xor, ih, steps, steps]

theorem steps_injective {n : Nat} (same : steps n r = steps n r') : r = r' := by
  induction n generalizing r r' with
  | zero => exact same
  | succ n ih => exact step_injective (ih same)

theorem steps_add (m n : Nat) (r : BitVec 32) : steps (m + n) r = steps n (steps m r) := by
  induction m generalizing r with
  | zero => rw [Nat.zero_add, steps]
  | succ m ih => rw [Nat.succ_add, steps, ih, steps]

theorem enter_injective {byte : UInt8} (same : enter r byte = enter r' byte) : r = r' :=
  (BitVec.xor_left_inj _).1 (steps_injective same)

theorem run_injective {bytes : List UInt8} (same : run r bytes = run r' bytes) : r = r' := by
  induction bytes generalizing r r' with
  | nil => exact same
  | cons byte bytes ih => exact enter_injective (ih same)

/-! ### Four bytes -/

/-- Bytes in a register, the first one in the lowest places. -/
def loaded : List UInt8 → BitVec 32
  | [] => 0
  | byte :: bytes => byte.toBitVec.setWidth 32 ^^^ (loaded bytes <<< 8)

theorem getLsbD_loaded (bytes : List UInt8) {i : Nat} (above : 8 * bytes.length ≤ i) :
    (loaded bytes).getLsbD i = false := by
  induction bytes generalizing i with
  | nil => exact BitVec.getLsbD_zero
  | cons byte bytes ih =>
    rw [List.length_cons] at above
    rw [loaded, BitVec.getLsbD_xor, BitVec.getLsbD_setWidth, BitVec.getLsbD_of_ge _ i (by omega),
      BitVec.getLsbD_shiftLeft, ih (by omega), Bool.and_false, Bool.and_false, Bool.xor_false]

/-- Up to four bytes can be told from the register that they fill. -/
theorem loaded_injective {bytes bytes' : List UInt8} (few : bytes.length ≤ 4)
    (lengths : bytes'.length = bytes.length) (same : loaded bytes = loaded bytes') : bytes = bytes' := by
  induction bytes generalizing bytes' with
  | nil => exact (List.length_eq_zero_iff.1 lengths).symm
  | cons byte bytes ih =>
    cases bytes' with
    | nil => cases lengths
    | cons byte' bytes' =>
      rw [List.length_cons] at few
      rw [List.length_cons, List.length_cons, Nat.add_right_cancel_iff] at lengths
      have bit (i : Nat) := congrArg (BitVec.getLsbD · i) same
      simp only [loaded, BitVec.getLsbD_xor, BitVec.getLsbD_setWidth, BitVec.getLsbD_shiftLeft] at bit
      have first : byte = byte' := by
        apply UInt8.toBitVec_inj.1
        refine BitVec.eq_of_getLsbD_eq fun i inside => ?_
        have low := bit i
        simpa [inside, show i < 32 by omega] using low
      have others : loaded bytes = loaded bytes' := by
        refine BitVec.eq_of_getLsbD_eq fun i inside => ?_
        by_cases held : i < 24
        · have high := bit (i + 8)
          simpa [first, show i + 8 < 32 by omega, show ¬ i + 8 < 8 by omega] using high
        · rw [getLsbD_loaded bytes (by omega), getLsbD_loaded bytes' (by omega)]
      rw [first, ih (by omega) lengths others]

/-- Bits that were moved up come down again, one in each step. -/
theorem steps_shiftLeft (n : Nat) {r : BitVec 32} (fits : ∀ i, 32 - n ≤ i → r.getLsbD i = false) :
    steps n (r <<< n) = r := by
  induction n with
  | zero => exact BitVec.shiftLeft_zero r
  | succ n ih =>
    have moves : step (r <<< (n + 1)) = r <<< n := by
      refine BitVec.eq_of_getLsbD_eq fun i inside => ?_
      have top : i = 31 → r.getLsbD (i - n) = false := fun last => fits _ (by omega)
      rw [getLsbD_step]
      simp only [BitVec.getLsbD_shiftLeft]
      rw [show i + 1 - (n + 1) = i - n by omega]
      by_cases last : i = 31
      · rw [top last]
        simp
      · have inside' : i + 1 < 32 := by omega
        simp [inside, inside']
    rw [steps, moves, ih fun i above => fits i (by omega)]

/-- **Up to four bytes may enter at once**, before any bit leaves. -/
theorem run_eq_steps {bytes : List UInt8} (few : bytes.length ≤ 4) (r : BitVec 32) :
    run r bytes = steps (8 * bytes.length) (r ^^^ loaded bytes) := by
  induction bytes generalizing r with
  | nil => exact (BitVec.xor_zero).symm
  | cons byte bytes ih =>
    rw [List.length_cons] at few
    have waits : steps 8 (loaded bytes <<< 8) = loaded bytes :=
      steps_shiftLeft 8 fun i above => getLsbD_loaded bytes (by omega)
    calc run r (byte :: bytes) = run (enter r byte) bytes := rfl
      _ = steps (8 * bytes.length) (enter r byte ^^^ steps 8 (loaded bytes <<< 8)) := by
        rw [ih (by omega), waits]
      _ = steps (8 * bytes.length)
          (steps 8 (r ^^^ (byte.toBitVec.setWidth 32 ^^^ (loaded bytes <<< 8)))) := by
        rw [enter, ← steps_xor, BitVec.xor_assoc]
      _ = steps (8 * (byte :: bytes).length) (r ^^^ loaded (byte :: bytes)) := by
        rw [← steps_add, List.length_cons, loaded, Nat.mul_succ, Nat.add_comm]

/-- **Payloads that differ in up to four bytes in a row have different checksums.** -/
theorem ofBytes_ne {bytes bytes' : List UInt8} (few : bytes.length ≤ 4)
    (lengths : bytes'.length = bytes.length) (differ : bytes' ≠ bytes) (front back : List UInt8) :
    ofBytes (front ++ bytes' ++ back) ≠ ofBytes (front ++ bytes ++ back) := by
  intro same
  have registers := BitVec.not_inj.1 same
  simp only [run_append] at registers
  have middle := run_injective registers
  rw [run_eq_steps few, run_eq_steps (lengths ▸ few), lengths] at middle
  exact differ (loaded_injective (lengths ▸ few) lengths.symm
    ((BitVec.xor_right_inj _).1 (steps_injective middle)))

end Checksum

/-! ## Bytes that were changed -/

/-- Bytes were changed, but only at places from `start` on and before `stop`. -/
structure Altered (start stop : Nat) (bytes bytes' : List UInt8) : Prop where
  length : bytes'.length = bytes.length
  elsewhere : ∀ i, i < start ∨ stop ≤ i → bytes'[i]? = bytes[i]?
  differs : bytes' ≠ bytes

theorem altered_iff {start stop : Nat} {bytes bytes' : List UInt8} :
    Altered start stop bytes bytes' ↔ bytes'.length = bytes.length ∧
      bytes'.take start = bytes.take start ∧ bytes'.drop stop = bytes.drop stop ∧ bytes' ≠ bytes := by
  constructor
  · intro h
    refine ⟨h.length, List.ext_getElem? fun i => ?_, List.ext_getElem? fun i => ?_, h.differs⟩
    · by_cases before : i < start
      · rw [List.getElem?_take_of_lt before, List.getElem?_take_of_lt before, h.elsewhere i (.inl before)]
      · rw [List.getElem?_take_eq_none (by omega), List.getElem?_take_eq_none (by omega)]
    · rw [List.getElem?_drop, List.getElem?_drop, h.elsewhere _ (.inr (Nat.le_add_right stop i))]
  · rintro ⟨length, front, back, differs⟩
    refine ⟨length, fun i outside => ?_, differs⟩
    rcases outside with before | behind
    · rw [← List.getElem?_take_of_lt before, front, List.getElem?_take_of_lt before]
    · rw [← Nat.add_sub_cancel' behind, ← List.getElem?_drop, back, List.getElem?_drop]

instance (start stop : Nat) (bytes bytes' : List UInt8) : Decidable (Altered start stop bytes bytes') :=
  decidable_of_iff' _ altered_iff

/-- Between what was not changed, there are as many other bytes. -/
theorem Altered.exists_middle {start stop : Nat} {front middle back bytes' : List UInt8}
    (h : Altered start stop (front ++ middle ++ back) bytes') (first : front.length ≤ start)
    (last : stop ≤ front.length + middle.length) :
    ∃ middle', bytes' = front ++ middle' ++ back ∧ middle'.length = middle.length ∧ middle' ≠ middle := by
  have length := h.length
  rw [List.length_append, List.length_append] at length
  have whole : Altered front.length (front.length + middle.length) (front ++ middle ++ back) bytes' :=
    ⟨h.length, fun i outside => h.elsewhere i (by omega), h.differs⟩
  obtain ⟨-, begun, ended, -⟩ := altered_iff.1 whole
  rw [List.append_assoc, List.take_left] at begun
  rw [← List.length_append, List.drop_left, List.length_append] at ended
  have parts : bytes' = front ++ (bytes'.drop front.length).take middle.length ++ back := by
    conv => lhs; rw [← List.take_append_drop front.length bytes', begun,
      ← List.take_append_drop middle.length (bytes'.drop front.length), List.drop_drop, ended]
    rw [List.append_assoc]
  refine ⟨_, parts, ?_, fun same => h.differs ?_⟩
  · rw [List.length_take, List.length_drop]
    omega
  · rw [parts, same]

/-- Four bytes hold a number. -/
theorem exists_wordBytes {bytes : List UInt8} (four : bytes.length = 4) :
    ∃ n, n < UInt32.size ∧ bytes = wordBytes n := by
  cases found : word? bytes with
  | none =>
    have := Frame.length_of_word?_eq_none found
    omega
  | some parts =>
    obtain ⟨n, rest⟩ := parts
    obtain ⟨small, same⟩ := eq_of_word? found
    have := Frame.length_of_word? found
    rw [List.length_eq_zero_iff.1 (show rest.length = 0 by omega), List.append_nil] at same
    exact ⟨n, small, same⟩

/-! ## Frames -/

namespace Frame

variable {payload bytes : List UInt8}

/-- A change of the payload. -/
theorem next_altered_payload (fits : payload.length < UInt32.size) {start stop : Nat} (first : 8 ≤ start)
    (last : stop ≤ 8 + payload.length) (few : stop ≤ start + 4)
    (altered : Altered start stop (write payload) bytes) (rest : List UInt8) :
    ∃ actual, actual ≠ (Checksum.ofBytes payload).toNat ∧
      next (bytes ++ rest) = (.broken (.badChecksum (Checksum.ofBytes payload).toNat actual), rest) := by
  -- the changed bytes stand between two parts of the payload
  obtain ⟨front, middle, back, parts, before, behind, four⟩ : ∃ front middle back,
      payload = front ++ middle ++ back ∧ 8 + front.length ≤ start ∧
        stop ≤ 8 + front.length + middle.length ∧ middle.length ≤ 4 := by
    refine ⟨payload.take (start - 8), (payload.drop (start - 8)).take (stop - start),
      payload.drop (start - 8 + (stop - start)), ?_, ?_, ?_, ?_⟩
    · rw [← List.drop_drop, List.append_assoc, List.take_append_drop, List.take_append_drop]
    · rw [List.length_take]
      omega
    · rw [List.length_take, List.length_take, List.length_drop]
      omega
    · rw [List.length_take]
      omega
  have whole : write payload =
      wordBytes payload.length ++ wordBytes (Checksum.ofBytes payload).toNat ++ front ++ middle ++
        (back ++ [terminator]) := by
    conv => lhs; rw [write_eq]; arg 1; arg 2; rw [parts]
    simp only [List.append_assoc]
  have head : (wordBytes payload.length ++ wordBytes (Checksum.ofBytes payload).toNat ++ front).length =
      8 + front.length := by
    rw [List.length_append]
    rfl
  rw [whole] at altered
  obtain ⟨middle', rfl, length, differs⟩ := altered.exists_middle (by omega) (by omega)
  have other : (Checksum.ofBytes (front ++ middle' ++ back)).toNat ≠ (Checksum.ofBytes payload).toNat := by
    rw [parts]
    exact fun same => Checksum.ofBytes_ne four length differs front back (BitVec.toNat_inj.1 same)
  have length' : (front ++ middle' ++ back).length = payload.length := by
    rw [parts]
    simp only [List.length_append, length]
  have fits' : (front ++ middle' ++ back).length < UInt32.size := by
    rw [length']
    exact fits
  have read := next_assembled fits' (Checksum.ofBytes payload).isLt terminator rest
  rw [if_neg (by simp), if_pos other.symm, length'] at read
  refine ⟨_, other, ?_⟩
  simpa only [List.append_assoc] using read

/-- A change of the checksum. -/
theorem next_altered_checksum (fits : payload.length < UInt32.size)
    (altered : Altered 4 8 (write payload) bytes) (rest : List UInt8) :
    ∃ expected, expected ≠ (Checksum.ofBytes payload).toNat ∧
      next (bytes ++ rest) = (.broken (.badChecksum expected (Checksum.ofBytes payload).toNat), rest) := by
  rw [write_eq, List.append_assoc] at altered
  obtain ⟨sum, rfl, length, differs⟩ := altered.exists_middle (Nat.le_refl 4) (Nat.le_refl 8)
  obtain ⟨expected, less, rfl⟩ := exists_wordBytes length
  have other : expected ≠ (Checksum.ofBytes payload).toNat := fun same => differs (by rw [same])
  have read := next_assembled fits less terminator rest
  rw [if_neg (by simp), if_pos other] at read
  refine ⟨expected, other, ?_⟩
  simpa only [List.append_assoc] using read

/-- A change of the terminator. -/
theorem next_altered_terminator (fits : payload.length < UInt32.size)
    (altered : Altered (8 + payload.length) (9 + payload.length) (write payload) bytes) (rest : List UInt8) :
    next (bytes ++ rest) = (.broken .noTerminator, rest) := by
  rw [write_eq, ← List.append_nil (_ ++ [terminator])] at altered
  have head : (wordBytes payload.length ++ wordBytes (Checksum.ofBytes payload).toNat ++ payload).length =
      8 + payload.length := by
    rw [List.length_append]
    rfl
  obtain ⟨last, rfl, length, differs⟩ := altered.exists_middle (by omega)
    (by rw [head, List.length_singleton]; omega)
  obtain ⟨byte, rfl⟩ := List.length_eq_one_iff.1 length
  have other : byte ≠ terminator := fun same => differs (by rw [same])
  have read := next_assembled fits (Checksum.ofBytes payload).isLt byte rest
  rw [if_pos other] at read
  rwa [List.append_nil]

/-- **A small change of a frame is noticed**, whatever is behind the frame. Other bytes in the payload, up to
four in a row, and another checksum are reported as a wrong checksum, and another byte at the end as a missing
terminator. -/
theorem next_altered (fits : payload.length < UInt32.size) (rest : List UInt8) :
    (∀ start stop, 8 ≤ start → stop ≤ 8 + payload.length → stop ≤ start + 4 →
      Altered start stop (write payload) bytes → ∃ actual, actual ≠ (Checksum.ofBytes payload).toNat ∧
        next (bytes ++ rest) = (.broken (.badChecksum (Checksum.ofBytes payload).toNat actual), rest)) ∧
    (Altered 4 8 (write payload) bytes → ∃ expected, expected ≠ (Checksum.ofBytes payload).toNat ∧
      next (bytes ++ rest) = (.broken (.badChecksum expected (Checksum.ofBytes payload).toNat), rest)) ∧
    (Altered (8 + payload.length) (9 + payload.length) (write payload) bytes →
      next (bytes ++ rest) = (.broken .noTerminator, rest)) :=
  ⟨fun _ _ first last few altered => next_altered_payload fits first last few altered rest,
    fun altered => next_altered_checksum fits altered rest,
    fun altered => next_altered_terminator fits altered rest⟩

/-- A payload of six bytes. -/
def sixBytes : List UInt8 :=
  [10, 0, 255, 10, 44, 1]

/-- Its second and its fifth byte are exchanged, or the second byte of its checksum is cleared, or the
terminator is another one. -/
theorem next_altered_sixBytes :
    (∃ actual, actual ≠ (Checksum.ofBytes sixBytes).toNat ∧
      next (((write sixBytes).set 9 44).set 12 0 ++ [3]) =
        (.broken (.badChecksum (Checksum.ofBytes sixBytes).toNat actual), [3])) ∧
    (∃ expected, expected ≠ (Checksum.ofBytes sixBytes).toNat ∧
      next ((write sixBytes).set 5 0 ++ [3]) =
        (.broken (.badChecksum expected (Checksum.ofBytes sixBytes).toNat), [3])) ∧
    next ((write sixBytes).set 14 13 ++ [3]) = (.broken .noTerminator, [3]) := by
  have fits : sixBytes.length < UInt32.size := by decide
  exact ⟨(next_altered fits [3]).1 9 13 (by decide) (by decide) (by decide) (by decide +kernel),
    (next_altered fits [3]).2.1 (by decide +kernel), (next_altered fits [3]).2.2 (by decide +kernel)⟩

end Frame

end Outbox
