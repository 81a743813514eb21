import Mathlib.Data.List.Induction
import Outbox.Proofs.Decimal.Notation
import Outbox.Proofs.Queue.Recovery

/-!
# Names that are read as those of segments

More names are read as that of a segment than the one that is written for it: there may be a plus sign and
zeros in front of the digits. A file with such a name is listed as the segment, while readers and writers look
for it under the proper name. So a folder can list a segment that is not there, and the newest one that is
listed decides whether a queue can be opened in the folder.

* `Decimal.readSigned?_eq_some_iff` says which texts are read as a number, and `segmentId?_eq_some_iff` which
  names are read as that of a segment;
* `segmentsIn_spec` says what is listed, in any folder in order;
* `pruneAlong_listed` removes what is listed, under the names that are listed;
* `GoesByNames` is what a queue makes of the names in a folder, `goesByNames` the result, and
  `inexact_plusSign` a name that is not exact.
-/

namespace Outbox

/-! ## Numbers -/

namespace Decimal

/-- A digit is the one that is written for its value. -/
theorem digitChar_value {c : Char} (h : c.isDigit) :
    c.toNat - '0'.toNat < 10 ∧ Nat.digitChar (c.toNat - '0'.toNat) = c := by
  have range : 48 ≤ c.toNat ∧ c.toNat ≤ 57 := by
    simpa [Char.isDigit, UInt32.le_iff_toNat_le] using h
  have zero : '0'.toNat = 48 := rfl
  have less : c.toNat - '0'.toNat < 10 := by omega
  refine ⟨less, Char.toNat_inj.1 ?_⟩
  rw [Nat.toNat_digitChar_of_lt_ten less]
  omega

/-- Digits without a zero in front are what is written for their number. -/
theorem write_ofDigits {ds : List Char} (some_digit : ds ≠ []) (digits : ∀ c ∈ ds, c.isDigit)
    (leading : ds.head? = some '0' → ds = ['0']) : write (ofDigits ds) = ds := by
  induction ds using List.reverseRecOn with
  | nil => exact absurd rfl some_digit
  | append_singleton front d ih =>
    obtain ⟨less, same⟩ := digitChar_value (digits d (by simp))
    have value : ofDigits (front ++ [d]) = 10 * ofDigits front + (d.toNat - '0'.toNat) := by
      simp [ofDigits, Nat.ofDigitChars_append, Nat.ofDigitChars_cons, Nat.ofDigitChars_nil]
    rw [value]
    by_cases single : front = []
    · subst single
      rw [show ofDigits [] = 0 from rfl, Nat.mul_zero, Nat.zero_add, write, Nat.toDigits_of_lt_base less, same]
      rfl
    · have no_zero : front.head? ≠ some '0' := fun zero => by
        obtain ⟨c, cs, rfl⟩ := List.exists_cons_of_ne_nil single
        simpa using leading zero
      have shorter := ih single (fun c member => digits c (List.mem_append_left _ member))
        fun zero => absurd zero no_zero
      have positive : ofDigits front ≠ 0 := fun zero => by
        rw [zero] at shorter
        exact no_zero (shorter ▸ rfl)
      rw [write, Nat.toDigits_of_base_le (by decide) (by omega)]
      have quotient : (10 * ofDigits front + (d.toNat - '0'.toNat)) / 10 = ofDigits front := by omega
      have remainder : (10 * ofDigits front + (d.toNat - '0'.toNat)) % 10 = d.toNat - '0'.toNat := by omega
      rw [quotient, remainder, same, ← write, shorter]

/-- Digits are what is written for their number, with zeros in front. -/
theorem exists_zeros_write {ds : List Char} (some_digit : ds ≠ []) (digits : ∀ c ∈ ds, c.isDigit) :
    ∃ k, ds = zeros k ++ write (ofDigits ds) := by
  induction ds with
  | nil => exact absurd rfl some_digit
  | cons d ds ih =>
    by_cases zero : d = '0' ∧ ds ≠ []
    · obtain ⟨rfl, more⟩ := zero
      obtain ⟨k, same⟩ := ih more fun c member => digits c (List.mem_cons_of_mem _ member)
      refine ⟨k + 1, ?_⟩
      rw [show ofDigits ('0' :: ds) = ofDigits ds from ofDigits_zeros_append 1 ds]
      exact congrArg ('0' :: ·) same
    · refine ⟨0, (write_ofDigits some_digit digits fun head => ?_).symm⟩
      obtain rfl : d = '0' := by simpa using head
      rw [not_and_not_right.1 zero rfl]

/-- A text is read as a number just if it is written for the number, but for a plus sign and zeros in front. -/
theorem readSigned?_eq_some_iff {cs : List Char} {n : Nat} :
    readSigned? cs = some n ↔ ∃ (plus : Bool) (k : Nat),
      cs = (if plus then ['+'] else []) ++ zeros k ++ write n := by
  have read_iff {ds : List Char} : read? ds = some n ↔ ∃ k, ds = zeros k ++ write n := by
    constructor
    · intro found
      unfold read? at found
      split at found
      · next ok =>
        cases found
        exact exists_zeros_write ok.1 (List.all_eq_true.1 ok.2)
      · cases found
    · rintro ⟨k, rfl⟩
      have digits : ∀ c ∈ zeros k ++ write n, c.isDigit := fun c member =>
        (List.mem_append.1 member).elim isDigit_of_mem_zeros isDigit_of_mem_write
      rw [read?, if_pos ⟨by simp [write_ne_nil], List.all_eq_true.2 digits⟩, ofDigits_zeros_append,
        ofDigits_write]
  unfold readSigned?
  split
  · next ds =>
    rw [read_iff]
    constructor
    · rintro ⟨k, rfl⟩
      exact ⟨true, k, rfl⟩
    · rintro ⟨plus, k, same⟩
      cases plus with
      | true => exact ⟨k, List.cons.inj same |>.2⟩
      | false =>
        have digits : '+' :: ds = zeros k ++ write n := same
        have member : '+' ∈ zeros k ++ write n := digits ▸ List.mem_cons_self
        exact absurd ((List.mem_append.1 member).elim isDigit_of_mem_zeros isDigit_of_mem_write) (by decide)
  · next unsigned =>
    rw [read_iff]
    constructor
    · rintro ⟨k, same⟩
      exact ⟨false, k, same⟩
    · rintro ⟨plus, k, same⟩
      cases plus with
      | true => exact absurd same (unsigned _)
      | false => exact ⟨k, same⟩

end Decimal

/-! ## Names -/

/-- The name of a segment with a plus sign and zeros in front of the digits. -/
def segmentAlias (plus : Bool) (k id : Nat) : String :=
  "data-" ++ String.ofList ((if plus then ['+'] else []) ++ Decimal.zeros k ++ Decimal.write id) ++ ".log"

theorem segmentAlias_proper (id : Nat) : segmentAlias false 0 id = segmentName id :=
  rfl

theorem toList_segmentAlias (plus : Bool) (k id : Nat) : (segmentAlias plus k id).toList =
    'd' :: 'a' :: 't' :: 'a' :: '-' ::
      ((if plus then ['+'] else []) ++ Decimal.zeros k ++ Decimal.write id ++ ['.', 'l', 'o', 'g']) := by
  simp [segmentAlias]

/-- **A name is read as that of a segment** just if it is the name of the segment, but for a plus sign and zeros
in front of the digits. -/
theorem segmentId?_eq_some_iff {name : String} {id : Nat} :
    segmentId? name = some id ↔ id < UInt64.size ∧ ∃ (plus : Bool) (k : Nat), name = segmentAlias plus k id := by
  constructor
  · intro h
    refine ⟨lt_of_segmentId? h, ?_⟩
    unfold segmentId? Decimal.readBelow? at h
    split at h
    · next rest text =>
      split at h
      · next digits reversed =>
        obtain ⟨plus, k, same⟩ := Decimal.readSigned?_eq_some_iff.1 (Option.filter_eq_some_iff.1 h).1
        refine ⟨plus, k, String.toList_inj.1 ?_⟩
        have whole : rest = digits.reverse ++ ['.', 'l', 'o', 'g'] := by
          rw [← List.reverse_reverse rest, reversed]
          simp
        rw [text, toList_segmentAlias, whole, same]
      · cases h
    · cases h
  · rintro ⟨small, plus, k, rfl⟩
    have read := (Decimal.readSigned?_eq_some_iff (n := id)).2 ⟨plus, k, rfl⟩
    generalize written : (if plus then ['+'] else []) ++ Decimal.zeros k ++ Decimal.write id = digits at read
    have text : (segmentAlias plus k id).toList =
        'd' :: 'a' :: 't' :: 'a' :: '-' :: (digits ++ ['.', 'l', 'o', 'g']) := by
      rw [toList_segmentAlias, written]
    have reversed : (digits ++ ['.', 'l', 'o', 'g']).reverse = 'g' :: 'o' :: 'l' :: '.' :: digits.reverse := by
      simp
    simp only [segmentId?, text, reversed, List.reverse_reverse, Decimal.readBelow?, read]
    exact if_pos (decide_eq_true small)

/-- The name that is written for a segment is the one without a plus sign and zeros. -/
theorem segmentAlias_eq_segmentName_iff {plus : Bool} {k id : Nat} :
    segmentAlias plus k id = segmentName id ↔ plus = false ∧ k = 0 := by
  constructor
  · intro same
    have text := congrArg String.toList same
    rw [← segmentAlias_proper, toList_segmentAlias, toList_segmentAlias] at text
    have length := congrArg List.length text
    simp only [List.length_cons, List.length_append, Decimal.zeros, List.length_replicate] at length
    cases plus with
    | true => simp at length
    | false => exact ⟨rfl, by simpa using length⟩
  · rintro ⟨rfl, rfl⟩
    rfl

/-! ## What is listed -/

/-- A file of a folder is taken for the segment that begins with a version. -/
structure TakenFor (d : Disk) (folder : Place) (name : String) (id : Nat) : Prop where
  reads : segmentId? name = some id
  isFile : ∃ file, d.lookup? (folder ++ [name]) = some (.file file)

/-- A file is taken for the newest segment, or there are several of them. -/
structure NewestTaken (d : Disk) (folder : Place) (id : Nat) : Prop where
  taken : ∃ name, TakenFor d folder name id
  le : ∀ {name : String} {id' : Nat}, TakenFor d folder name id' → id' ≤ id

section Listing

variable {d d' : Disk} {folder : Place}

theorem hasSegment_iff_takenFor {id : Nat} (small : id < UInt64.size) :
    HasSegment d folder id ↔ TakenFor d folder (segmentName id) id :=
  ⟨fun h => ⟨segmentId?_segmentName small, h.2⟩, fun h => ⟨small, h.isFile⟩⟩

/-- Of the files that are taken for one segment, one is listed. -/
theorem foldl_noteSegment_spec (children : List (String × Entry)) {table : SegmentTable}
    (sorted : table.Sorted) :
    SegmentTable.Sorted (children.foldl noteSegment table) ∧
      (∀ s ∈ children.foldl noteSegment table, s ∈ table ∨ ∃ child ∈ children, IsSegment child s) ∧
      ∀ id, ((∃ name, (id, name) ∈ table) ∨ ∃ child ∈ children, IsSegment child (id, child.1)) →
        ∃ name, (id, name) ∈ children.foldl noteSegment table := by
  induction children generalizing table with
  | nil => exact ⟨sorted, fun s member => .inl member, fun id h => by simpa using h⟩
  | cons child children ih =>
    rw [List.foldl_cons]
    by_cases is : ∃ s, IsSegment child s
    · obtain ⟨⟨id, name⟩, ⟨file, isFile⟩, found, rfl⟩ := is
      have noted : noteSegment table child = table.set id child.1 := by
        simp only [noteSegment, isFile, found]
      obtain ⟨sorted', only, all⟩ := ih (sorted.set id child.1)
      rw [noted]
      refine ⟨sorted', fun s member => ?_, fun id' h => all id' ?_⟩
      · rcases only s member with old | ⟨c, member, is⟩
        · rcases (SegmentTable.mem_set sorted _ _ _).1 old with rfl | ⟨old, -⟩
          · exact .inr ⟨child, List.mem_cons_self, ⟨file, isFile⟩, found, rfl⟩
          · exact .inl old
        · exact .inr ⟨c, List.mem_cons_of_mem _ member, is⟩
      · by_cases same : id' = id
        · subst same
          exact .inl ⟨child.1, (SegmentTable.mem_set sorted _ _ _).2 (.inl rfl)⟩
        rcases h with ⟨name, old⟩ | ⟨c, member, is⟩
        · exact .inl ⟨name, (SegmentTable.mem_set sorted _ _ _).2 (.inr ⟨old, same⟩)⟩
        · rcases List.mem_cons.1 member with rfl | member
          · exact absurd (Option.some.inj (is.id.symm.trans found)) same
          · exact .inr ⟨c, member, is⟩
    · have noted : noteSegment table child = table := by
        unfold noteSegment
        split
        · next file id isFile found => exact absurd ⟨(id, child.1), ⟨file, isFile⟩, found, rfl⟩ is
        · rfl
      obtain ⟨sorted', only, all⟩ := ih sorted
      rw [noted]
      refine ⟨sorted', fun s member => ?_, fun id h => all id (h.imp_right ?_)⟩
      · exact (only s member).imp_right fun ⟨c, member, is⟩ => ⟨c, List.mem_cons_of_mem _ member, is⟩
      · rintro ⟨c, member, is'⟩
        rcases List.mem_cons.1 member with rfl | member
        · exact absurd ⟨_, is'⟩ is
        · exact ⟨c, member, is'⟩

/-- **What is listed.** The segments are in order, each under the name of a file that is taken for it, and none
is missing. -/
theorem segmentsIn_spec (tidy : d.Tidy folder) :
    (segmentsIn d folder).Sorted ∧ (∀ s ∈ segmentsIn d folder, TakenFor d folder s.2 s.1) ∧
      ∀ name id, TakenFor d folder name id → ∃ name', (id, name') ∈ segmentsIn d folder := by
  obtain ⟨sorted, only, all⟩ :=
    foldl_noteSegment_spec (d.children folder) (show SegmentTable.Sorted [] from List.Pairwise.nil)
  rw [← segmentsIn_eq_foldl] at sorted only all
  refine ⟨sorted, fun s member => ?_, fun name id taken => all id (.inr ?_)⟩
  · rcases only s member with none_yet | ⟨⟨name, e⟩, member, ⟨file, rfl⟩, found, named⟩
    · cases none_yet
    · exact ⟨named ▸ found, file, named ▸ tidy.mem_children.1 member⟩
  · obtain ⟨found, file, there⟩ := taken
    exact ⟨(name, .file file), tidy.mem_children.2 there, ⟨file, rfl⟩, found, rfl⟩

/-- The last segment that is listed is the newest one that a file is taken for. -/
theorem newestTaken_iff (tidy : d.Tidy folder) {id : Nat} :
    NewestTaken d folder id ↔ ∃ name, (segmentsIn d folder).getLast? = some (id, name) := by
  obtain ⟨sorted, only, all⟩ := segmentsIn_spec tidy
  have last_le {s : Nat × String} (last : (segmentsIn d folder).getLast? = some s) {s' : Nat × String}
      (member : s' ∈ segmentsIn d folder) : s'.1 ≤ s.1 := by
    have lastId : ((segmentsIn d folder).map Prod.fst).getLast? = some s.1 := by
      rw [List.getLast?_map, last, Option.map_some]
    exact Queue.le_getLast (List.pairwise_map.2 sorted) lastId _ (List.mem_map_of_mem member)
  constructor
  · rintro ⟨⟨name, taken⟩, le⟩
    obtain ⟨name', member⟩ := all name id taken
    obtain ⟨⟨id', name''⟩, last⟩ : ∃ s, (segmentsIn d folder).getLast? = some s :=
      ⟨_, List.getLast?_eq_some_getLast (List.ne_nil_of_mem member)⟩
    have less := last_le last member
    have more := le (only _ (List.mem_of_getLast? last))
    obtain rfl : id' = id := Nat.le_antisymm more less
    exact ⟨name'', last⟩
  · rintro ⟨name, last⟩
    refine ⟨⟨name, only _ (List.mem_of_getLast? last)⟩, fun {name' id'} taken => ?_⟩
    obtain ⟨name'', member⟩ := all name' id' taken
    exact last_le last member

/-- Nothing is listed where no file is taken for a segment. -/
theorem segmentsIn_eq_nil_iff (tidy : d.Tidy folder) :
    segmentsIn d folder = [] ↔ ∀ name id, ¬ TakenFor d folder name id := by
  obtain ⟨-, only, all⟩ := segmentsIn_spec tidy
  constructor
  · intro nothing name id taken
    obtain ⟨name', member⟩ := all name id taken
    rw [nothing] at member
    cases member
  · intro none_taken
    refine List.eq_nil_iff_forall_not_mem.2 fun s member => none_taken _ _ (only s member)

/-- The files that are taken for segments stay so if the names of segments lead where they led. -/
theorem TakenFor.kept (same : ∀ name, name ≠ ackName → d'.lookup? (folder ++ [name]) = d.lookup? (folder ++ [name]))
    {name : String} {id : Nat} : TakenFor d' folder name id ↔ TakenFor d folder name id := by
  have other (found : segmentId? name = some id) : name ≠ ackName := by
    rintro rfl
    rw [segmentId?_ackName] at found
    cases found
  constructor
  · rintro ⟨found, isFile⟩
    exact ⟨found, same name (other found) ▸ isFile⟩
  · rintro ⟨found, isFile⟩
    exact ⟨found, (same name (other found)).symm ▸ isFile⟩

end Listing

/-! ## What is opened -/

/-- What a queue that is opened in a folder asks of the names in it: a version that follows the acknowledged one
can begin a segment, and the newest segment is there under its proper name. -/
structure CanOpen (d : Disk) (folder : Place) : Prop where
  ackFile : d.lookup? (folder ++ [ackName]) ≠ some .folder
  first : (∀ name id, ¬ TakenFor d folder name id) →
    d.lookup? (folder ++ [segmentName (acknowledgedIn d folder + 1)]) ≠ some .folder
  newest : ∀ id, NewestTaken d folder id → HasSegment d folder id

/-- What a queue makes of the names in a folder. -/
structure GoesByNames (d : Disk) (folder : Place) (maxSize : Nat) : Prop where
  /-- A plus sign and zeros in front of the digits make no difference. -/
  reads : ∀ (name : String) (id : Nat),
    segmentId? name = some id ↔ id < UInt64.size ∧ ∃ (plus : Bool) (k : Nat), name = segmentAlias plus k id
  /-- The name that is written for a segment has neither. -/
  writes : ∀ (plus : Bool) (k id : Nat), segmentAlias plus k id = segmentName id ↔ plus = false ∧ k = 0
  /-- Of all the files that are taken for a segment, one is listed. -/
  lists : (segmentsIn d folder).Sorted ∧ (∀ s ∈ segmentsIn d folder, TakenFor d folder s.2 s.1) ∧
    ∀ name id, TakenFor d folder name id → ∃ name', (id, name') ∈ segmentsIn d folder
  /-- The file that is listed is the one that is read just if it has the proper name. -/
  agrees : ∀ (name : String) (id file : Nat), (id, name) ∈ segmentsIn d folder →
    d.lookup? (folder ++ [name]) = some (.file file) →
    (SegmentReader.openAt d folder id = .ok ⟨id, some file, 0, [], 0⟩ ↔ name = segmentName id)
  /-- There is nothing to be read where nothing has the proper name. -/
  misses : ∀ id, SegmentReader.openAt d folder id = .error (.openSegment (segmentName id)) ↔
    d.lookup? (folder ++ [segmentName id]) = none
  opens : (∃ d' q, Queue.openIn d folder maxSize = (d', .ok q)) ↔ CanOpen d folder
  /-- A name that is not exact is in the way if it is read as that of the newest segment. -/
  fails : ∀ id, NewestTaken d folder id → ¬ HasSegment d folder id →
    d.lookup? (folder ++ [ackName]) ≠ some .folder →
    (Queue.openIn d folder maxSize).2 = .error (.openSegment (segmentName id))
  /-- Nothing is removed but files that are taken for segments, whatever their names are. -/
  removes : ∀ d' q, Queue.openIn d folder maxSize = (d', .ok q) →
    ∀ name e, d.lookup? (folder ++ [name]) = some e →
      d'.lookup? (folder ++ [name]) = some e ∨ ∃ id, TakenFor d folder name id
  /-- Where all names are exact, exactly the segments that are there are listed. -/
  proper : ProperNames d folder → ∀ id name, (id, name) ∈ segmentsIn d folder ↔
    HasSegment d folder id ∧ name = segmentName id

namespace Queue

variable {d : Disk} {folder : Place} {acked : Nat}

/-- What is listed is removed under the names that are listed. -/
theorem pruneAlong_listed {q : Queue} {table : SegmentTable} (tidy : d.Tidy q.folder) (sorted : table.Sorted)
    (taken : ∀ s ∈ table, TakenFor d q.folder s.2 s.1) :
    ∃ d' q', q.pruneAlong d table = ⟨d', q', .ok ()⟩ ∧ ∀ name, (∀ s ∈ table, s.2 ≠ name) →
      d'.lookup? (q.folder ++ [name]) = d.lookup? (q.folder ++ [name]) := by
  induction table generalizing d q with
  | nil => exact ⟨d, q, rfl, fun _ _ => rfl⟩
  | cons s rest ih =>
    obtain ⟨id, file⟩ := s
    cases rest with
    | nil => exact ⟨d, q, rfl, fun _ _ => rfl⟩
    | cons s' rest =>
      obtain ⟨next, nextFile⟩ := s'
      by_cases stop : q.lastAck + 1 < next
      · exact ⟨d, q, if_pos stop, fun _ _ => rfl⟩
      obtain ⟨found, number, there⟩ := taken _ List.mem_cons_self
      obtain ⟨d₁, removed, tidy₁, -, lookups⟩ := tidy.unlink there
      obtain ⟨less, sorted'⟩ := List.pairwise_cons.1 sorted
      obtain ⟨q₁, first⟩ : ∃ q₁, q.removeSegment d id next file = ⟨d₁, q₁, .ok ()⟩ := by
        simp only [removeSegment, removed]
        exact ⟨_, rfl⟩
      have kept := kept_removeSegment d q id next file
      rw [first] at kept
      have place : q₁.folder = q.folder := kept.folder
      have other {s : Nat × String} (member : s ∈ (next, nextFile) :: rest) : s.2 ≠ file := fun same => by
        have reads := (taken s (List.mem_cons_of_mem _ member)).reads
        rw [same, found] at reads
        exact Nat.lt_irrefl _ (Option.some.inj reads ▸ less s member)
      obtain ⟨d', q', pruned, lookups'⟩ := ih (d := d₁) (q := q₁) (place ▸ tidy₁) sorted' fun s member => by
        obtain ⟨reads, isFile⟩ := taken s (List.mem_cons_of_mem _ member)
        exact ⟨reads, by rwa [place, lookups, if_neg (other member)]⟩
      refine ⟨d', q', ?_, fun name listed => ?_⟩
      · rw [pruneAlong, if_neg stop, first]
        exact pruned
      · have := lookups' name fun s member => listed s (List.mem_cons_of_mem _ member)
        rw [place, lookups, if_neg (listed _ List.mem_cons_self).symm] at this
        exact this

/-- **The newest segment is opened** if its file has the proper name; where none is listed, the first one is
created. What was in the folder stays. -/
theorem openNewest_listed (tidy : d.Tidy folder) (small : acked + 1 < UInt64.size)
    (first : (∀ name id, ¬ TakenFor d folder name id) →
      d.lookup? (folder ++ [segmentName (acked + 1)]) ≠ some .folder)
    (newest : ∀ id, NewestTaken d folder id → HasSegment d folder id) :
    ∃ d' table w lastPut, openNewest d folder (segmentsIn d folder) acked = (d', .ok (table, w, lastPut)) ∧
      d'.Tidy folder ∧ table.Sorted ∧ (∀ s ∈ table, TakenFor d' folder s.2 s.1) ∧
      (∀ s ∈ table, s ∈ segmentsIn d folder ∨ d.lookup? (folder ++ [s.2]) = none) ∧
      ∀ name e, d.lookup? (folder ++ [name]) = some e → d'.lookup? (folder ++ [name]) = some e := by
  obtain ⟨sorted, only, -⟩ := segmentsIn_spec tidy
  cases last : (segmentsIn d folder).getLast? with
  | none =>
    have nothing := List.getLast?_eq_none_iff.1 last
    have none_taken := (segmentsIn_eq_nil_iff tidy).1 nothing
    have free : d.lookup? (folder ++ [segmentName (acked + 1)]) = none := by
      cases found : d.lookup? (folder ++ [segmentName (acked + 1)]) with
      | none => rfl
      | some e =>
        cases e with
        | folder => exact absurd found (first none_taken)
        | file file => exact absurd ⟨segmentId?_segmentName small, file, found⟩ (none_taken _ (acked + 1))
    obtain ⟨d', -, opened, tidy', -, lookups⟩ := openAt_new tidy small free
    refine ⟨d', [(acked + 1, segmentName (acked + 1))], ⟨acked + 1, d.contents.length, [], 0⟩, acked, ?_, tidy', 
      List.pairwise_singleton .., ?_, ?_, fun name e found => ?_⟩
    · simp only [openNewest, nothing, List.getLast?_nil, opened, SegmentTable.set]
    · rintro s member
      rw [List.mem_singleton.1 member]
      exact ⟨segmentId?_segmentName small, _, (lookups _).trans (if_pos rfl)⟩
    · rintro s member
      rw [List.mem_singleton.1 member]
      exact .inr free
    · rw [lookups, if_neg fun same => by simp [same, free] at found, found]
  | some s =>
    obtain ⟨id, name⟩ := s
    obtain ⟨-, file, place⟩ := newest id ((newestTaken_iff tidy).2 ⟨name, last⟩)
    have content : d.content? (folder ++ [segmentName id]) = some (d.read file) :=
      Disk.content?_eq_some_iff.2 ⟨file, place, rfl⟩
    have opened (n : Nat) : SegmentWriter.openAt d folder id n =
        (d.update file ((d.read file).take n), .ok ⟨id, file, [], n⟩) := by
      simp only [SegmentWriter.openAt, Disk.Tidy.create?_file place]
    refine ⟨d.update file ((d.read file).take (scanSegment (d.read file)).length), segmentsIn d folder,
      ⟨id, file, [], (scanSegment (d.read file)).length⟩,
      max ((scanSegment (d.read file)).lastVersion.getD (id - 1)) acked, ?_, tidy.update file _, sorted,
      fun s member => ⟨(only s member).reads, (only s member).isFile⟩, fun s member => .inl member,
      fun _ _ found => found⟩
    simp only [openNewest, last, content, opened]

/-- Where the newest segment that is listed has no file of its proper name, or a folder is in the place of the
first one, there is nothing to be opened. -/
theorem openNewest_missing (tidy : d.Tidy folder) (acked : Nat) :
    (∀ id, NewestTaken d folder id → ¬ HasSegment d folder id →
      openNewest d folder (segmentsIn d folder) acked = (d, .error (.openSegment (segmentName id)))) ∧
    ((∀ name id, ¬ TakenFor d folder name id) →
      d.lookup? (folder ++ [segmentName (acked + 1)]) = some .folder →
      openNewest d folder (segmentsIn d folder) acked = (d, .error (.openSegment (segmentName (acked + 1))))) := by
  constructor
  · intro id newest missing
    obtain ⟨name, last⟩ := (newestTaken_iff tidy).1 newest
    obtain ⟨name', taken⟩ := newest.taken
    have nothing : d.content? (folder ++ [segmentName id]) = none := by
      cases found : d.content? (folder ++ [segmentName id]) with
      | none => rfl
      | some bytes =>
        obtain ⟨file, place, -⟩ := Disk.content?_eq_some_iff.1 found
        exact absurd ⟨lt_of_segmentId? taken.reads, file, place⟩ missing
    simp only [openNewest, last, nothing]
  · intro none_taken obstructed
    have nothing := (segmentsIn_eq_nil_iff tidy).2 none_taken
    have refused : d.create? (folder ++ [segmentName (acked + 1)]) = none := by
      rw [Disk.create?, obstructed]
    simp only [openNewest, nothing, List.getLast?_nil, SegmentWriter.openAt, refused]

/-- **A queue is opened** wherever it can be, whatever else lies in the folder. Nothing is removed but files that
are taken for segments. -/
theorem openIn_of_canOpen (tidy : d.Tidy folder) (bounded : acknowledgedIn d folder + 1 < UInt64.size)
    (can : CanOpen d folder) (maxSize : Nat) :
    ∃ d' q, openIn d folder maxSize = (d', .ok q) ∧ ∀ name e, d.lookup? (folder ++ [name]) = some e →
      d'.lookup? (folder ++ [name]) = some e ∨ ∃ id, TakenFor d folder name id := by
  have made : d.makeFolders? folder = some d := if_pos tidy.isFolder
  obtain ⟨d₁, ackFile, created, tidy₁, found₁, acked, -, lookups₁⟩ := create_ackFile tidy can.ackFile
  have taken {name : String} {id : Nat} : TakenFor d₁ folder name id ↔ TakenFor d folder name id :=
    TakenFor.kept lookups₁
  have segment (id : Nat) : d₁.lookup? (folder ++ [segmentName id]) = d.lookup? (folder ++ [segmentName id]) :=
    lookups₁ _ (segmentName_ne_ackName id)
  obtain ⟨d₂, table, w, lastPut, opened, tidy₂, sorted, taken₂, listed, kept⟩ :=
    openNewest_listed tidy₁ bounded
      (fun none_taken => segment _ ▸ can.first fun name id h => none_taken name id (taken.2 h))
      fun id newest => by
        rw [HasSegment, segment]
        obtain ⟨name, there⟩ := newest.taken
        exact can.newest id ⟨⟨name, taken.1 there⟩, fun h => newest.le (taken.2 h)⟩
  obtain ⟨d', q', pruned, lookups⟩ := pruneAlong_listed
    (q := ⟨folder, maxSize, table, some w, readIdFor table (acknowledgedIn d folder) w.id, none, ackFile, lastPut,
      acknowledgedIn d folder, acknowledgedIn d folder⟩) tidy₂ sorted taken₂
  refine ⟨d', q', ?_, fun name e found => ?_⟩
  · simp only [openIn, made, created, acked, opened, prune, pruned]
  · have there₁ : d₁.lookup? (folder ++ [name]) = some e := by
      by_cases ours : name = ackName
      · subst ours
        cases e with
        | folder => exact absurd found can.ackFile
        | file file =>
          cases created.symm.trans (Disk.Tidy.create?_file found)
          exact found
      · rw [lookups₁ name ours, found]
    by_cases member : ∃ s ∈ table, s.2 = name
    · obtain ⟨s, member, rfl⟩ := member
      rcases listed s member with old | new
      · exact .inr ⟨s.1, taken.1 ((segmentsIn_spec tidy₁).2.1 s old)⟩
      · rw [there₁] at new
        cases new
    · have unlisted : ∀ s ∈ table, s.2 ≠ name := fun s listed same => member ⟨s, listed, same⟩
      exact .inl ((lookups name unlisted).trans (kept name e there₁))

/-- The newest segment that is listed has no file of its proper name. -/
theorem openIn_missing (tidy : d.Tidy folder) (free : d.lookup? (folder ++ [ackName]) ≠ some .folder)
    (maxSize : Nat) :
    (∀ id, NewestTaken d folder id → ¬ HasSegment d folder id →
      (openIn d folder maxSize).2 = .error (.openSegment (segmentName id))) ∧
    ((∀ name id, ¬ TakenFor d folder name id) →
      d.lookup? (folder ++ [segmentName (acknowledgedIn d folder + 1)]) = some .folder →
      (openIn d folder maxSize).2 = .error (.openSegment (segmentName (acknowledgedIn d folder + 1)))) := by
  have made : d.makeFolders? folder = some d := if_pos tidy.isFolder
  obtain ⟨d₁, ackFile, created, tidy₁, -, acked, -, lookups₁⟩ := create_ackFile tidy free
  have taken {name : String} {id : Nat} : TakenFor d₁ folder name id ↔ TakenFor d folder name id :=
    TakenFor.kept lookups₁
  have segment (id : Nat) : d₁.lookup? (folder ++ [segmentName id]) = d.lookup? (folder ++ [segmentName id]) :=
    lookups₁ _ (segmentName_ne_ackName id)
  obtain ⟨missing, obstructed⟩ := openNewest_missing tidy₁ (acknowledgedIn d folder)
  constructor
  · intro id newest none_there
    obtain ⟨name, there⟩ := newest.taken
    have failed := missing id ⟨⟨name, taken.2 there⟩, fun h => newest.le (taken.1 h)⟩ (by rwa [HasSegment, segment])
    simp only [openIn, made, created, acked, failed]
  · intro none_taken isFolder
    have failed := obstructed (fun name id h => none_taken name id (taken.1 h)) (by rwa [segment])
    simp only [openIn, made, created, acked, failed]

/-- **A queue is opened just where it can be.** -/
theorem openIn_iff_canOpen (tidy : d.Tidy folder) (bounded : acknowledgedIn d folder + 1 < UInt64.size)
    (maxSize : Nat) : (∃ d' q, openIn d folder maxSize = (d', .ok q)) ↔ CanOpen d folder := by
  constructor
  · rintro ⟨d', q, opened⟩
    have refuted {e : QueueError} (failed : (openIn d folder maxSize).2 = .error e) : False := by
      rw [opened] at failed
      cases failed
    have free : d.lookup? (folder ++ [ackName]) ≠ some .folder := fun isFolder => by
      have made : d.makeFolders? folder = some d := if_pos tidy.isFolder
      have refused : d.create? (folder ++ [ackName]) = none := by rw [Disk.create?, isFolder]
      have failed : (openIn d folder maxSize).2 = .error .ackFile := by simp only [openIn, made, refused]
      exact refuted failed
    obtain ⟨missing, obstructed⟩ := openIn_missing tidy free maxSize
    exact ⟨free, fun none_taken isFolder => refuted (obstructed none_taken isFolder),
      fun id newest => Classical.byContradiction fun none_there => refuted (missing id newest none_there)⟩
  · intro can
    obtain ⟨d', q, opened, -⟩ := openIn_of_canOpen tidy bounded can maxSize
    exact ⟨d', q, opened⟩

end Queue

/-- **What a queue makes of the names in a folder.** -/
theorem goesByNames {d : Disk} {folder : Place} (tidy : d.Tidy folder)
    (bounded : acknowledgedIn d folder + 1 < UInt64.size) (maxSize : Nat) : GoesByNames d folder maxSize where
  reads _ _ := segmentId?_eq_some_iff
  writes _ _ _ := segmentAlias_eq_segmentName_iff
  lists := segmentsIn_spec tidy
  agrees name id file listed found := by
    constructor
    · intro opened
      unfold SegmentReader.openAt at opened
      split at opened
      · next file' found' =>
        cases opened
        exact tidy.single found found'
      · cases opened
      · cases opened
    · rintro rfl
      rw [SegmentReader.openAt, found]
  misses id := by
    unfold SegmentReader.openAt
    split <;> simp [*]
  opens := Queue.openIn_iff_canOpen tidy bounded maxSize
  fails id newest missing free := (Queue.openIn_missing tidy free maxSize).1 id newest missing
  removes d' q opened name e found := by
    obtain ⟨d'', q', opened', kept⟩ := Queue.openIn_of_canOpen tidy bounded
      ((Queue.openIn_iff_canOpen tidy bounded maxSize).1 ⟨d', q, opened⟩) maxSize
    cases opened.symm.trans opened'
    exact kept name e found
  proper names id name := by
    obtain ⟨-, only, all⟩ := segmentsIn_spec tidy
    constructor
    · intro listed
      obtain ⟨reads, file, found⟩ := only _ listed
      have named := names name file id found reads
      exact ⟨⟨lt_of_segmentId? reads, file, named ▸ found⟩, named⟩
    · rintro ⟨there, rfl⟩
      obtain ⟨name, listed⟩ := all _ id ((hasSegment_iff_takenFor there.1).1 there)
      obtain ⟨reads, file, found⟩ := only _ listed
      rwa [← names name file id found reads]

/-- A folder with two files that are taken for one segment, and one that is the newest. -/
def zeroInFront : Disk where
  entries := [(["queue"], .folder), (["queue", "data-1.log"], .file 0), (["queue", "data-01.log"], .file 1),
    (["queue", "data-5.log"], .file 2)]
  contents := [[], [7], []]

/-- The queue is opened, though only one of the two files is listed. -/
theorem goesByNames_zeroInFront :
    zeroInFront.Tidy ["queue"] ∧ acknowledgedIn zeroInFront ["queue"] + 1 < UInt64.size ∧
      GoesByNames zeroInFront ["queue"] 60 ∧
      segmentsIn zeroInFront ["queue"] = [(1, "data-01.log"), (5, "data-5.log")] ∧
      (Queue.openIn zeroInFront ["queue"] 60).2.toOption.isSome :=
  have tidy : zeroInFront.Tidy ["queue"] :=
    (tidy_of_files [("data-1.log", 0), ("data-01.log", 1), ("data-5.log", 2)] rfl (by decide) (by decide)
      (by decide) (by decide) (by decide)).1
  have bounded : acknowledgedIn zeroInFront ["queue"] + 1 < UInt64.size := by decide
  ⟨tidy, bounded, goesByNames tidy bounded 60, by decide +kernel, by decide +kernel⟩

/-- A folder with one file, which is not one that a queue has written. -/
def plusSign : Disk where
  entries := [(["queue"], .folder), (["queue", "data-+7.log"], .file 0)]
  contents := [[7]]

/-- **A stray file is in the way.** It is taken for the segment that begins with version 7, which is not there
when it is looked for. -/
theorem inexact_plusSign :
    segmentId? "data-+7.log" = some 7 ∧ segmentName 7 = "data-7.log" ∧
      segmentsIn plusSign ["queue"] = [(7, "data-+7.log")] ∧
      SegmentReader.openAt plusSign ["queue"] 7 = .error (.openSegment "data-7.log") ∧
      (Queue.openIn plusSign ["queue"] 60).2 = .error (.openSegment "data-7.log") ∧
      segmentId? "data-01.log" = some 1 ∧ segmentId? "data-1.log" = some 1 :=
  ⟨by decide +kernel, by decide +kernel, by decide +kernel, by decide +kernel, by decide +kernel,
    by decide +kernel, by decide +kernel⟩

end Outbox
