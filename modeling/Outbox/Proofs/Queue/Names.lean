import Outbox.Queue.Basic

/-!
# Names of files

A segment is found again by its name: the name tells the version that it was made for. The file of
the acknowledged version is not taken for a segment.
-/

namespace Outbox

namespace Decimal

/-- What is written has no plus sign, so one may be looked for. -/
theorem readSigned?_write (n : Nat) : readSigned? (write n) = some n := by
  unfold readSigned?
  split
  · next cs text =>
    have digit : '+'.isDigit = true := isDigit_of_mem_write (n := n) (by simp [text])
    exact absurd digit (by decide)
  · exact read?_write n

/-- A number of 64 bits takes at most 20 digits. -/
theorem length_write_le {n : Nat} (h : n < UInt64.size) : (write n).length ≤ 20 :=
  (Nat.length_toDigits_le_iff (by decide) (by decide)).2 (Nat.lt_trans h (by decide))

end Decimal

theorem segmentId?_segmentName {id : Nat} (h : id < UInt64.size) :
    segmentId? (segmentName id) = some id := by
  have text : (segmentName id).toList =
      'd' :: 'a' :: 't' :: 'a' :: '-' :: (Decimal.write id ++ ['.', 'l', 'o', 'g']) := by
    simp [segmentName]
  have digits : (Decimal.write id ++ ['.', 'l', 'o', 'g']).reverse =
      'g' :: 'o' :: 'l' :: '.' :: (Decimal.write id).reverse := by
    simp
  simp only [segmentId?, text, digits, List.reverse_reverse, Decimal.readBelow?,
    Decimal.readSigned?_write]
  exact if_pos (decide_eq_true h)

theorem segmentId?_ackName : segmentId? ackName = none := by
  decide

theorem segmentName_inj {id id' : Nat} (h : segmentName id = segmentName id') : id = id' := by
  have text := congrArg String.toList h
  simp only [segmentName, String.toList_append, String.toList_ofList, List.append_cancel_left_eq,
    List.append_cancel_right_eq] at text
  rw [← Decimal.ofDigits_write id, text, Decimal.ofDigits_write]

theorem segmentName_ne_ackName (id : Nat) : segmentName id ≠ ackName := by
  intro h
  have text := congrArg String.toList h
  simp [segmentName, ackName] at text

theorem isName_ackName : isName ackName = true := by
  decide

/-- A character takes at most four bytes. -/
theorem utf8ByteSize_ofList_le (cs : List Char) : (String.ofList cs).utf8ByteSize ≤ 4 * cs.length := by
  induction cs with
  | nil => simp
  | cons c cs ih =>
    have size := c.utf8Size_le_four
    rw [String.ofList_cons, String.utf8ByteSize_append, String.utf8ByteSize_singleton,
      List.length_cons]
    omega

theorem isName_segmentName {id : Nat} (h : id < UInt64.size) : isName (segmentName id) = true := by
  have short : (segmentName id).utf8ByteSize ≤ 255 := by
    have digits := utf8ByteSize_ofList_le (Decimal.write id)
    have few := Decimal.length_write_le h
    have ends : "data-".utf8ByteSize + ".log".utf8ByteSize = 9 := by decide
    rw [segmentName, String.utf8ByteSize_append, String.utf8ByteSize_append]
    omega
  have plain : '\x00' ∉ (segmentName id).toList := by
    have digits : '\x00' ∉ Decimal.write id := fun h =>
      absurd (Decimal.isDigit_of_mem_write h) (by decide)
    simpa [segmentName] using digits
  have some : segmentName id ≠ "" := fun h => by
    have text := congrArg String.toList h
    simp [segmentName] at text
  simp [isName, some, short, plain]

end Outbox
