import Outbox.Operation.Codec
import Outbox.Proofs.Json.Values

/-!
# Parts of operations that read back

Every part of an operation is read from the value that it is written as, so that reading an operation
back is a matter of finding its fields. There are two exceptions. The time of a point that is not finite
is written as null, which is no time. A moment is written in whole milliseconds: it is read back without
what is finer, a leap second as the one that follows it, and not at all if there is none.

* `Moment.cut` is what is read back of a moment, if there is something (`Moment.Reaches`), and
  `Moment.IsWhole` says that this is all of it;
* `Point.Dated` says that the time of a point is finite;
* `Mutation.Dated` says that all times of a mutation are read back, `Mutation.cut` what is read back then,
  and `Mutation.Exact` that this is all of it;
* the lemmas `ofJson?_json` read parts back, and are tagged for the simplifier;
* the lemmas `fits_json` say how deep the parts nest.
-/

namespace Outbox

open Json (Value)

/-! ## Moments -/

namespace Moment

variable {t : Moment}

/-- The whole milliseconds of the moment are a moment. This fails for the leap second of the last second of
all. -/
def Reaches (t : Moment) : Prop :=
  InRange (t.millis / 1000)

/-- The moment in whole milliseconds. -/
def cut (t : Moment) : Moment :=
  (ofMillis? t.millis).getD t

/-- The moment is one of whole milliseconds, and not in a leap second. -/
def IsWhole (t : Moment) : Prop :=
  t.nanos < 1000000000 ∧ 1000000 ∣ t.nanos

/-- Without a leap second, the milliseconds are in the same second. -/
theorem millis_div (early : t.nanos < 1000000000) : t.millis / 1000 = t.seconds := by
  unfold millis
  omega

theorem reaches_of_nanos_lt (early : t.nanos < 1000000000) : t.Reaches := by
  rw [Reaches, millis_div early]
  exact t.inRange

theorem IsWhole.reaches (h : t.IsWhole) : t.Reaches :=
  reaches_of_nanos_lt h.1

theorem ofMillis?_eq_cut (h : t.Reaches) : ofMillis? t.millis = some t.cut := by
  obtain ⟨t', found⟩ : ∃ t', ofMillis? t.millis = some t' := ⟨_, dif_pos h⟩
  rw [cut, found, Option.getD_some]

theorem ofMillis?_eq_none (h : ¬ t.Reaches) : ofMillis? t.millis = none :=
  dif_neg h

/-- The milliseconds of a moment are those from which it was made. -/
theorem millis_of_ofMillis? {millis : Int} (h : ofMillis? millis = some t) : t.millis = millis := by
  unfold ofMillis? at h
  split at h
  · cases h
    simp only [Moment.millis]
    omega
  · cases h

/-- What is made from milliseconds is whole. -/
theorem isWhole_of_ofMillis? {millis : Int} (h : ofMillis? millis = some t) : t.IsWhole := by
  unfold ofMillis? at h
  split at h
  · cases h
    refine ⟨?_, Nat.dvd_mul_left ..⟩
    show (millis % 1000).toNat * 1000000 < 1000000000
    omega
  · cases h

theorem cut_spec (h : t.Reaches) :
    t.cut.seconds = t.millis / 1000 ∧ t.cut.nanos = (t.millis % 1000).toNat * 1000000 := by
  have made : ofMillis? t.millis = some ⟨t.millis / 1000, (t.millis % 1000).toNat * 1000000, h, by omega⟩ :=
    dif_pos h
  rw [cut, made]
  exact ⟨rfl, rfl⟩

/-- A leap second is counted to the second behind it. -/
example : (Moment.cut ⟨0, 1000500000, by decide, by decide⟩).seconds = 1 := by decide

/-- Outside of leap seconds, the second stays and the nanoseconds are rounded down. -/
theorem cut_of_nanos_lt (early : t.nanos < 1000000000) :
    t.cut.seconds = t.seconds ∧ t.cut.nanos = t.nanos / 1000000 * 1000000 := by
  obtain ⟨seconds, nanos⟩ := cut_spec (reaches_of_nanos_lt early)
  refine ⟨seconds.trans (millis_div early), nanos.trans ?_⟩
  unfold millis
  omega

/-- Nothing of a whole moment is lost. -/
theorem IsWhole.cut (h : t.IsWhole) : t.cut = t := by
  obtain ⟨seconds, nanos⟩ := cut_of_nanos_lt h.1
  rw [Nat.div_mul_cancel h.2] at nanos
  exact Moment.ext seconds nanos

/-- A moment that is not whole is another one when it is cut. -/
theorem cut_eq_self_iff (h : t.Reaches) : t.cut = t ↔ t.IsWhole := by
  refine ⟨fun same => ?_, IsWhole.cut⟩
  have made := ofMillis?_eq_cut h
  rw [same] at made
  exact isWhole_of_ofMillis? made

/-- A cut does not change the milliseconds. -/
@[simp] theorem millis_cut (t : Moment) : t.cut.millis = t.millis := by
  by_cases h : t.Reaches
  · exact millis_of_ofMillis? (ofMillis?_eq_cut h)
  · rw [cut, ofMillis?_eq_none h, Option.getD_none]

@[simp] theorem reaches_cut (t : Moment) : t.cut.Reaches ↔ t.Reaches := by
  rw [Reaches, Reaches, millis_cut]

@[simp] theorem cut_cut (t : Moment) : t.cut.cut = t.cut := by
  by_cases h : t.Reaches
  · exact (isWhole_of_ofMillis? (ofMillis?_eq_cut h)).cut
  · have same : t.cut = t := by rw [cut, ofMillis?_eq_none h, Option.getD_none]
    rw [same, same]

end Moment

/-! ## Times of points -/

/-- A time that can be written. -/
def Binary64.IsFinite (t : Binary64) : Prop :=
  ∃ x, t = .finite x

/-- The time of the point is finite. -/
def Point.Dated {α : Type} (p : Point α) : Prop :=
  p.time.IsFinite

/-- The times of all points are finite. -/
def Points.Dated : Points → Prop
  | .floats ps => ∀ p ∈ ps, p.Dated
  | .strings ps => ∀ p ∈ ps, p.Dated
  | .images ps => ∀ p ∈ ps, p.Dated

/-- The times of all points of a log are finite, and a moment is read back, be it in whole milliseconds. -/
def Mutation.Dated : Mutation → Prop
  | .log ps => ps.Dated
  | .assign (.datetime t) => t.Reaches
  | _ => True

/-- The mutation with its moment in whole milliseconds. -/
def Mutation.cut : Mutation → Mutation
  | .assign (.datetime t) => .assign (.datetime t.cut)
  | m => m

/-- The times of all points of a log are finite, and a moment is one of whole milliseconds. -/
def Mutation.Exact : Mutation → Prop
  | .log ps => ps.Dated
  | .assign (.datetime t) => t.IsWhole
  | _ => True

section Mutation

variable {m : Mutation}

/-- A mutation is changed by its moment or not at all. -/
theorem Mutation.cut_cases (m : Mutation) :
    (∃ t, m = .assign (.datetime t)) ∨ (m.cut = m ∧ (m.Dated ↔ m.Exact)) := by
  cases m with
  | assign v =>
    cases v with
    | datetime t => exact .inl ⟨t, rfl⟩
    | _ => exact .inr ⟨rfl, .rfl⟩
  | _ => exact .inr ⟨rfl, .rfl⟩

theorem Mutation.Exact.dated (h : m.Exact) : m.Dated := by
  obtain ⟨t, rfl⟩ | ⟨-, same⟩ := m.cut_cases
  · exact Moment.IsWhole.reaches h
  · exact same.2 h

/-- Nothing of an exact mutation is lost. -/
theorem Mutation.Exact.cut (h : m.Exact) : m.cut = m := by
  obtain ⟨t, rfl⟩ | ⟨same, -⟩ := m.cut_cases
  · exact congrArg (fun t => Mutation.assign (.datetime t)) (Moment.IsWhole.cut h)
  · exact same

/-- A mutation that is not exact is another one when it is cut. -/
theorem Mutation.cut_eq_self_iff (h : m.Dated) : m.cut = m ↔ m.Exact := by
  refine ⟨fun same => ?_, Exact.cut⟩
  obtain ⟨t, rfl⟩ | ⟨-, exact_iff⟩ := m.cut_cases
  · refine (Moment.cut_eq_self_iff h).1 ?_
    injection same with same
    injection same
  · exact exact_iff.1 h

theorem Mutation.dated_cut : m.cut.Dated ↔ m.Dated := by
  obtain ⟨t, rfl⟩ | ⟨same, -⟩ := m.cut_cases
  · exact t.reaches_cut
  · rw [same]

@[simp] theorem Mutation.cut_cut (m : Mutation) : m.cut.cut = m.cut := by
  obtain ⟨t, rfl⟩ | ⟨same, -⟩ := m.cut_cases
  · exact congrArg (fun t => Mutation.assign (.datetime t)) t.cut_cut
  · rw [same, same]

end Mutation

theorem timeOf?_timeJson {t : Binary64} (h : t.IsFinite) : timeOf? (timeJson t) = some t := by
  obtain ⟨x, rfl⟩ := h
  rfl

/-- What is read as a time is finite. -/
theorem isFinite_of_timeOf? {v : Value} {t : Binary64} (h : timeOf? v = some t) : t.IsFinite := by
  obtain ⟨x, -, rfl⟩ := Option.map_eq_some_iff.1 h
  exact ⟨x, rfl⟩

/-! ## Lists and options -/

section General

variable {α : Type} {json : α → Value} {read? : Value → Option α}

theorem mapM_map {as : List α} (h : ∀ a ∈ as, read? (json a) = some a) :
    (as.map json).mapM read? = some as := by
  induction as with
  | nil => rfl
  | cons a as ih =>
    have behind := ih fun a' member => h a' (List.mem_cons_of_mem _ member)
    simp [List.mapM_cons, h a List.mem_cons_self, behind]

theorem list?_map {as : List α} (h : ∀ a ∈ as, read? (json a) = some a) :
    Value.list? read? (.array (as.map json)) = some as :=
  mapM_map h

/-- Every item of a list that is read was read. -/
theorem mem_of_list? {v : Value} {as : List α} (h : v.list? read? = some as) :
    ∀ a ∈ as, ∃ item, read? item = some a := by
  cases v with
  | array items =>
    simp only [Value.list?] at h
    induction items generalizing as with
    | nil =>
      cases h
      exact fun a member => absurd member List.not_mem_nil
    | cons item items ih =>
      simp only [List.mapM_cons, Option.bind_eq_bind, Option.bind_eq_some_iff, Option.pure_def] at h
      obtain ⟨b, first, bs, rest, same⟩ := h
      cases same
      intro a member
      rcases List.mem_cons.1 member with rfl | later
      · exact ⟨item, first⟩
      · exact ih rest a later
  | _ => cases h

theorem option?_optionJson (o : Option α) (h : ∀ a, read? (json a) = some a)
    (present : ∀ a, json a ≠ .null) : (optionJson json o).option? read? = some o := by
  cases o with
  | none => rfl
  | some a =>
    have step : (json a).option? read? = (read? (json a)).map some := by
      unfold Value.option?
      split
      · next null => exact absurd null (present a)
      · rfl
    rw [optionJson, step, h]
    rfl

theorem fits_optionJson {levels : Nat} (o : Option α) (h : ∀ a, (json a).Fits levels) :
    (optionJson json o).Fits levels := by
  cases o with
  | none => exact .null
  | some a => exact h a

theorem fits_map {levels : Nat} {as : List α} (h : ∀ a ∈ as, (json a).Fits levels) :
    (Value.array (as.map json)).Fits (levels + 1) :=
  .array (List.forall_mem_map.2 h)

end General

/-! ## Scalars -/

@[simp] theorem Binary64.ofJson?_json (x : Binary64) : ofJson? x.json = some x := by
  cases x with
  | nan => rfl
  | infinite negative => cases negative <;> rfl
  | finite x => rfl

theorem Binary64.json_ne_null (x : Binary64) : x.json ≠ .null := by
  cases x with
  | infinite negative => cases negative <;> exact Value.noConfusion
  | _ => exact Value.noConfusion

theorem Binary64.fits_json {levels : Nat} (x : Binary64) : x.json.Fits levels := by
  cases x with
  | nan => exact .string _
  | infinite negative => cases negative <;> exact .string _
  | finite x => exact .real x

@[simp] theorem option?_text (o : Option String) : (optionJson .string o).option? Value.string? = some o :=
  option?_optionJson o (fun _ => rfl) fun _ => Value.noConfusion

@[simp] theorem option?_number (o : Option Binary64) :
    (optionJson Binary64.json o).option? Binary64.ofJson? = some o :=
  option?_optionJson o Binary64.ofJson?_json Binary64.json_ne_null

@[simp] theorem strings?_stringsJson (ss : List String) : strings? (stringsJson ss) = some ss :=
  list?_map fun _ _ => rfl

theorem fits_stringsJson (ss : List String) : (stringsJson ss).Fits 1 :=
  fits_map fun s _ => .string s

@[simp] theorem AttributePath.ofJson?_json (p : AttributePath) : ofJson? p.json = some p := by
  simp [ofJson?, json, strings?_stringsJson]

@[simp] theorem int?_intJson (i : Int64) : int? (intJson i) = some i := by
  rw [int?, intJson, Value.signed?, if_pos ⟨i.minValue_le_toInt, i.toInt_le⟩]
  simp

theorem fits_intJson {levels : Nat} (i : Int64) : (intJson i).Fits levels := by
  have low := i.le_toInt
  have high := i.toInt_lt
  refine .integer ?_ ?_ <;> simp only [UInt64.size] <;> omega

/-- The milliseconds of a moment, leap seconds included. -/
theorem Moment.bounds_millis (t : Moment) : -8334601228800000 ≤ t.millis ∧ t.millis < 8210266876801000 := by
  obtain ⟨low, high⟩ := t.inRange
  have nanos_lt := t.nanos_lt
  unfold millis
  omega

/-- A moment is read back from its whole milliseconds. -/
theorem Moment.ofJson?_json_eq (t : Moment) : ofJson? t.json = ofMillis? t.millis := by
  obtain ⟨low, high⟩ := t.bounds_millis
  have range : Int64.minValue.toInt ≤ t.millis ∧ t.millis ≤ Int64.maxValue.toInt := by
    simp only [Int64.toInt_minValue, Int64.toInt_maxValue]
    omega
  simp only [ofJson?, json, Value.signed?, range, and_self, ↓reduceIte, Option.bind_some]

theorem Moment.ofJson?_json {t : Moment} (h : t.Reaches) : ofJson? t.json = some t.cut := by
  rw [ofJson?_json_eq, ofMillis?_eq_cut h]

theorem Moment.ofJson?_json_eq_none {t : Moment} (h : ¬ t.Reaches) : ofJson? t.json = none := by
  rw [ofJson?_json_eq, ofMillis?_eq_none h]

/-- What is read is whole. -/
theorem Moment.isWhole_of_ofJson? {v : Value} {t : Moment} (h : ofJson? v = some t) : t.IsWhole := by
  obtain ⟨_, -, made⟩ := Option.bind_eq_some_iff.1 h
  exact isWhole_of_ofMillis? made

theorem Moment.fits_json {levels : Nat} (t : Moment) : t.json.Fits levels := by
  obtain ⟨low, high⟩ := t.bounds_millis
  refine .integer ?_ ?_ <;> simp only [UInt64.size] <;> omega

@[simp] theorem ContainerType.ofJson?_json (t : ContainerType) : ofJson? true t.json = some t := by
  cases t <;> rfl

@[simp] theorem CopyKind.ofJson?_json (k : CopyKind) : ofJson? true k.json = some k := by
  cases k <;> rfl

/-! ## Structures -/

@[simp] theorem TrackedFile.ofJson?_json (f : TrackedFile) : ofJson? f.json = some f := by
  simp [ofJson?, json, Json.fill?, Json.Field.ofMembers?, Json.valuesAt, Json.Field.required,
    Json.Field.nullable, option?_text, Value.string?]

theorem TrackedFile.fits_json (f : TrackedFile) : f.json.Fits 1 := by
  refine .object fun m member => ?_
  simp only [List.mem_cons, List.not_mem_nil, or_false] at member
  rcases member with rfl | rfl
  · exact .string _
  · exact fits_optionJson _ .string

@[simp] theorem Image.ofJson?_json (i : Image) : ofJson? i.json = some i := by
  simp [ofJson?, json, Json.fill?, Json.Field.ofMembers?, Json.valuesAt, Json.Field.nullable, option?_text]

theorem Image.fits_json (i : Image) : i.json.Fits 1 := by
  refine .object fun m member => ?_
  simp only [List.mem_cons, List.not_mem_nil, or_false] at member
  rcases member with rfl | rfl | rfl <;> exact fits_optionJson _ .string

section Point

variable {α : Type} {json : α → Value} {read? : Value → Option α}

/-- A point reads back if its value does and its time is finite. -/
theorem Point.ofJson?_json {p : Point α} (h : read? (json p.value) = some p.value) (dated : p.Dated) :
    ofJson? read? (p.json json) = some p := by
  simp [ofJson?, Point.json, Json.fill?, Json.Field.ofMembers?, Json.valuesAt, Json.Field.required,
    Json.Field.default, h, option?_number, timeOf?_timeJson dated]

/-- A point that is read has a finite time. -/
theorem Point.dated_of_ofJson? {v : Value} {p : Point α} (h : ofJson? read? v = some p) : p.Dated := by
  unfold ofJson? at h
  split at h
  · simp only [Option.bind_eq_bind, Option.bind_eq_some_iff, Option.pure_def, Option.some.injEq] at h
    obtain ⟨_, -, _, -, _, time, rfl⟩ := h
    exact isFinite_of_timeOf? time
  · cases h

theorem Point.fits_json {levels : Nat} {p : Point α} (h : (json p.value).Fits levels) :
    (p.json json).Fits (levels + 1) := by
  refine .object fun m member => ?_
  simp only [List.mem_cons, List.not_mem_nil, or_false] at member
  rcases member with rfl | rfl | rfl
  · exact h
  · exact fits_optionJson _ Binary64.fits_json
  · show (timeJson p.time).Fits levels
    cases p.time with
    | finite x => exact .real x
    | _ => exact .null

end Point

end Outbox
