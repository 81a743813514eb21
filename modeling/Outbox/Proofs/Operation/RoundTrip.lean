import Outbox.Proofs.Operation.Parts

/-!
# Operations that read back

An operation that was read once is written and read back for good: whatever text it came from, its own
text is read as the same operation, and written again it is the same text.

Not every operation can be written so. The time of a point that is not finite becomes null, which is no
time, and a moment becomes one in whole milliseconds. But every operation that was read has times that are
finite and a moment in whole milliseconds (`Operation.exact_of_parse?`).

* `Operation.cut` is what is read back of an operation, and `Operation.json_cut` says that it is written
  in the same way;
* `Operation.ofJson?_json` reads an operation back from its value, one kind after the other;
* `Operation.fits_json` says that the value nests few containers and holds no large integers;
* `Operation.parse?_render` is the result.
-/

namespace Outbox

open Json (Value Field fill?)

/-! ## Reading a written operation -/

/-- The name of a field of an operation is not the one of its kind. -/
theorem Mutation.ne_type_of_mem_members (m : Mutation) : ∀ f ∈ m.members, f.1 ≠ "type" := by
  cases m with
  | assign v => cases v <;> simp [members]
  | log ps => cases ps <;> simp [members]
  | _ => simp [members]

/-- The kind of an operation is found again, and so are the other fields. -/
theorem Operation.ofJson?_json_eq (op : Operation) :
    ofJson? op.json = ofBody? op.kind (.object (("path", op.path.json) :: op.mutation.members)) := by
  have fields := op.mutation.ne_type_of_mem_members
  have no_kind : Json.valuesAt "type" op.mutation.members = [] := by
    rw [Json.valuesAt, List.map_eq_nil_iff, List.filter_eq_nil_iff]
    simpa using fields
  have all : op.mutation.members.filter (fun m => m.1 ≠ "type") = op.mutation.members :=
    List.filter_eq_self.2 fun m member => by simpa using fields m member
  have kind : Json.valuesAt "type" (("type", .string op.kind) :: ("path", op.path.json) :: op.mutation.members) =
      [.string op.kind] := by
    unfold Json.valuesAt at no_kind ⊢
    rw [List.map_eq_nil_iff] at no_kind
    simp [no_kind]
  simp only [ofJson?, json, kind]
  rw [List.filter_cons_of_neg (by simp), List.filter_cons_of_pos (by simp), all]

theorem oneField?_object {path : AttributePath} {name : String} {v : Value}
    {read? : Value → Option Mutation} (other : name ≠ "path") :
    oneField? (.required name) (.object [("path", path.json), (name, v)]) read? =
      (read? v).map fun m => ⟨path, m⟩ := by
  have path_field : (Field.required "path").ofMembers? [("path", path.json), (name, v)] =
      some path.json := by
    simp [Field.ofMembers?, Field.required, Json.valuesAt, other]
  have other_field : (Field.required name).ofMembers? [("path", path.json), (name, v)] = some v := by
    simp [Field.ofMembers?, Field.required, Json.valuesAt, Ne.symm other]
  simp only [oneField?, fill?, List.mapM_cons, List.mapM_nil, path_field, other_field, Option.bind_eq_bind,
    Option.bind_some, Option.pure_def, AttributePath.ofJson?_json]
  cases read? v <;> rfl

theorem noField?_object (path : AttributePath) (m : Mutation) :
    noField? (.object [("path", path.json)]) m = some ⟨path, m⟩ := by
  simp [noField?, fill?, Field.ofMembers?, Field.required, Json.valuesAt]

/-- The operation with its moment in whole milliseconds. -/
def Operation.cut (op : Operation) : Operation :=
  ⟨op.path, op.mutation.cut⟩

@[simp] theorem Operation.cut_cut (op : Operation) : op.cut.cut = op.cut := by
  rw [cut, cut, Mutation.cut_cut]

/-- What is cut is not written anyway. -/
@[simp] theorem Operation.json_cut (op : Operation) : op.cut.json = op.json := by
  obtain ⟨path, m⟩ := op
  obtain ⟨t, rfl⟩ | ⟨same, -⟩ := m.cut_cases
  · simp only [json, cut, Mutation.cut, kind, Mutation.kind, Mutation.members, Moment.json, Moment.millis_cut]
  · rw [cut, same]

/-- **An operation whose times can be read is read back from its value**, its moment in whole
milliseconds. -/
theorem Operation.ofJson?_json {op : Operation} (dated : op.mutation.Dated) :
    ofJson? op.json = some op.cut := by
  rw [ofJson?_json_eq]
  obtain ⟨path, m⟩ := op
  cases m with
  | assign v =>
    cases v <;> simp only [kind, Mutation.kind, ofBody?, Mutation.members, cut, Mutation.cut]
    all_goals
      rw [oneField?_object (by decide)]
    case datetime t => simp [Moment.ofJson?_json dated]
    all_goals simp [Value.bool?, Value.string?]
  | log ps =>
    cases ps <;> simp only [kind, Mutation.kind, ofBody?, Mutation.members, cut, Mutation.cut] <;>
      rw [oneField?_object (by decide)]
    case floats ps =>
      have points : Value.list? (Point.ofJson? Binary64.ofJson?)
          (.array (ps.map (Point.json Binary64.json))) = some ps :=
        list?_map fun p member => Point.ofJson?_json (Binary64.ofJson?_json p.value) (dated p member)
      simp [points]
    case strings ps =>
      have points : Value.list? (Point.ofJson? Value.string?)
          (.array (ps.map (Point.json .string))) = some ps :=
        list?_map fun p member => Point.ofJson?_json rfl (dated p member)
      simp [points]
    case images ps =>
      have points : Value.list? (Point.ofJson? Image.ofJson?)
          (.array (ps.map (Point.json Image.json))) = some ps :=
        list?_map fun p member => Point.ofJson?_json (Image.ofJson?_json p.value) (dated p member)
      simp [points]
  | clearLog k =>
    cases k <;> simp only [kind, Mutation.kind, ofBody?, Mutation.members, cut, Mutation.cut] <;>
      exact noField?_object path _
  | deleteFiles paths | addStrings vs | removeStrings vs =>
    simp only [kind, Mutation.kind, ofBody?, Mutation.members, cut, Mutation.cut]
    rw [oneField?_object (by decide)]
    simp
  | clearStringSet | delete | clearArtifact =>
    simp only [kind, Mutation.kind, ofBody?, Mutation.members, cut, Mutation.cut]
    exact noField?_object path _
  | trackFiles projectId entries =>
    have files : Value.list? TrackedFile.ofJson? (.array (entries.map TrackedFile.json)) = some entries :=
      list?_map fun f _ => TrackedFile.ofJson?_json f
    simp [kind, Mutation.kind, ofBody?, Mutation.members, cut, Mutation.cut, fill?, Field.ofMembers?,
      Field.required, Json.valuesAt, Value.string?, files]
  | uploadFile | uploadFileContent | uploadFileSet | configFloatSeries | copy =>
    simp [kind, Mutation.kind, ofBody?, Mutation.members, cut, Mutation.cut, fill?, Field.ofMembers?,
      Field.required, Field.default, Field.nullable, Json.valuesAt, Value.string?, Value.bool?]

/-! ## The depth of a written operation -/

/-- The deepest part of an operation is an image, in a point, in a list of points. -/
theorem Mutation.fits_members (m : Mutation) : ∀ f ∈ m.members, f.2.Fits 3 := by
  have strings (ss : List String) : (stringsJson ss).Fits 3 := (fits_stringsJson ss).mono (by decide)
  cases m with
  | assign v =>
    cases v <;> simp only [members, List.forall_mem_singleton]
    case float x => exact x.fits_json
    case int i => exact fits_intJson i
    case bool b => exact .bool b
    case string s => exact .string s
    case datetime t => exact t.fits_json
    case artifact hash => exact .string hash
  | log ps =>
    cases ps <;> simp only [members, List.forall_mem_singleton]
    case floats ps => exact fits_map fun p _ => Point.fits_json p.value.fits_json
    case strings ps => exact fits_map fun p _ => Point.fits_json (.string p.value)
    case images ps => exact fits_map fun p _ => Point.fits_json p.value.fits_json
  | clearLog _ | clearStringSet | delete | clearArtifact =>
    exact fun f member => absurd member List.not_mem_nil
  | uploadFile ext filePath clean =>
    simp only [members, List.forall_mem_cons]
    exact ⟨.string ext, .string filePath, .bool clean, List.forall_mem_nil _⟩
  | uploadFileContent ext content =>
    simp only [members, List.forall_mem_cons]
    exact ⟨.string ext, .string content, List.forall_mem_nil _⟩
  | uploadFileSet globs reset =>
    simp only [members, List.forall_mem_cons]
    exact ⟨strings globs, .bool reset, List.forall_mem_nil _⟩
  | deleteFiles ss | addStrings ss | removeStrings ss =>
    simp only [members, List.forall_mem_singleton]
    exact strings ss
  | configFloatSeries min max unit =>
    simp only [members, List.forall_mem_cons]
    exact ⟨fits_optionJson min Binary64.fits_json, fits_optionJson max Binary64.fits_json,
      fits_optionJson unit .string, List.forall_mem_nil _⟩
  | trackFiles projectId entries =>
    simp only [members, List.forall_mem_cons]
    exact ⟨.string projectId, fits_map fun f _ => f.fits_json.mono (by decide), List.forall_mem_nil _⟩
  | copy source =>
    simp only [members, List.forall_mem_cons]
    exact ⟨.string _, .string _, strings _, .string _, List.forall_mem_nil _⟩

theorem Operation.fits_json (op : Operation) : op.json.Fits 4 := by
  refine .object ?_
  simp only [List.forall_mem_cons]
  exact ⟨.string op.kind, (fits_stringsJson _).mono (by decide), op.mutation.fits_members⟩

/-! ## What is read is exact -/

theorem exact_of_oneField? {α : Type} {f : Field} {body : Value} {part? : Value → Option α}
    {make : α → Mutation} {op : Operation}
    (h : oneField? f body (fun v => do return make (← part? v)) = some op)
    (each : ∀ v a, part? v = some a → (make a).Exact) : op.mutation.Exact := by
  unfold oneField? at h
  split at h
  · simp only [Option.bind_eq_bind, Option.bind_eq_some_iff, Option.pure_def, Option.some.injEq] at h
    obtain ⟨_, -, _, ⟨a, part, rfl⟩, rfl⟩ := h
    exact each _ a part
  · cases h

theorem exact_of_noField? {body : Value} {m : Mutation} {op : Operation} (h : noField? body m = some op)
    (plain : m.Exact) : op.mutation.Exact := by
  unfold noField? at h
  split at h
  · simp only [Option.bind_eq_bind, Option.bind_eq_some_iff, Option.pure_def, Option.some.injEq] at h
    obtain ⟨_, -, rfl⟩ := h
    exact plain
  · cases h

/-- The points of a list that is read have finite times. -/
theorem dated_of_list? {α : Type} {read? : Value → Option α} {v : Value} {ps : List (Point α)}
    (h : v.list? (Point.ofJson? read?) = some ps) : ∀ p ∈ ps, p.Dated := by
  intro p member
  obtain ⟨item, read⟩ := mem_of_list? h p member
  exact Point.dated_of_ofJson? read

/-- An operation that is read is exact: only logs have times, and theirs are read one by one, and a moment is
made from milliseconds. -/
theorem Operation.exact_of_ofBody? {kind : String} {body : Value} {op : Operation}
    (h : ofBody? kind body = some op) : op.mutation.Exact := by
  unfold ofBody? at h
  split at h
  all_goals first
    | exact exact_of_oneField? h fun _ _ _ => trivial
    | exact exact_of_oneField? h fun _ _ read => dated_of_list? read
    | exact exact_of_oneField? h fun _ _ read => Moment.isWhole_of_ofJson? read
    | exact exact_of_noField? h trivial
    | skip
  case h_25 => cases h
  -- the kinds with several fields are left, three of them with three, two with four and one with five
  all_goals
    split at h
    · simp only [Option.bind_eq_bind, Option.bind_eq_some_iff, Option.pure_def, Option.some.injEq] at h
      obtain ⟨_, -, _, -, _, -, h⟩ := h
      first
        | cases h; trivial
        | obtain ⟨_, -, rfl⟩ := h; trivial
        | obtain ⟨_, -, _, -, rfl⟩ := h; trivial
    · cases h

theorem Operation.exact_of_ofJson? {v : Value} {op : Operation} (h : ofJson? v = some op) :
    op.mutation.Exact := by
  unfold ofJson? at h
  split at h
  · split at h
    · exact exact_of_ofBody? h
    · cases h
  · exact exact_of_ofBody? h
  · cases h

/-- No text is read as an operation with a time that is not finite, or a moment finer than a millisecond. -/
theorem Operation.exact_of_parse? {bytes : List UInt8} {op : Operation} (h : parse? bytes = some op) :
    op.mutation.Exact := by
  simp only [parse?, Option.bind_eq_bind, Option.bind_eq_some_iff] at h
  obtain ⟨_, -, v, -, read⟩ := h
  exact exact_of_ofJson? read

/-! ## Texts -/

theorem Operation.parse?_encode_render {op : Operation} (h : op.mutation.Exact) :
    parse? (Utf8.encode op.render) = some op := by
  have fits := op.fits_json
  have within : op.json.Fits Json.maxLevels := fits.mono (by decide)
  have deep := within.value?_tree
  have same : op.cut = op := by rw [cut, h.cut]
  simp only [parse?, render, op.json.parse?_text, deep, ofJson?_json h.dated, same, Option.bind_eq_bind,
    Option.bind_some]

/-- **Operations are written so that they read back.** Whatever text an operation was read from, its own
text is read as the same operation, to the last digit and the sign of zero, and is its text for good. -/
theorem Operation.parse?_render {bytes : List UInt8} {op : Operation} (h : parse? bytes = some op) :
    parse? (Utf8.encode op.render) = some op ∧
      (parse? (Utf8.encode op.render)).map render = some op.render := by
  have back := parse?_encode_render (exact_of_parse? h)
  exact ⟨back, by rw [back, Option.map_some]⟩

/-- A log as some other program may write it: fields in any order, a point as an array, whole numbers for
floating-point ones, a tabulator as a unit. -/
def looseText : List UInt8 :=
  Utf8.encode ("\x7b \"values\": [\x7b\"ts\": 1, \"value\": -0.0\x7d, [\"NaN\", 25e-1, 0.1]],".toList ++
    " \"path\": [\"a\\u0009b\"], \"type\": \"LogFloats\" \x7d".toList)

/-- The log that `looseText` stands for. -/
def looseLog : Operation :=
  ⟨⟨["a\tb"], by simp⟩, .log (.floats
    [⟨.finite (.zero true), none, .finite ⟨false, Nat.pow 2 52, 1022, by decide⟩⟩,
      ⟨.nan, some (.finite ⟨false, 5629499534213120, 1023, by decide⟩),
        .finite ⟨false, 7205759403792794, 1018, by decide⟩⟩])⟩

/-- It is written in another way, and stays so. -/
theorem Operation.parse?_render_loose :
    parse? looseText = some looseLog ∧ Utf8.encode looseLog.render ≠ looseText ∧
      parse? (Utf8.encode looseLog.render) = some looseLog ∧
      (parse? (Utf8.encode looseLog.render)).map render = some looseLog.render := by
  have read : parse? looseText = some looseLog := by decide +kernel
  exact ⟨read, by decide +kernel, parse?_render read⟩

end Outbox
