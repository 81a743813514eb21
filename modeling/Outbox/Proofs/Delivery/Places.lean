import Outbox.Delivery.Storage
import Outbox.Proofs.Disk.Elsewhere
import Outbox.Proofs.Path.Text
import Outbox.Proofs.Queue.Names

/-!
# Where executions are

The folder of an execution lies in the folder of its container, and its name tells the time and the process. So
two executions of one process are in one folder just if they are of one container and began at one time.

* `filter_pathSteps_joinPath` says what the steps of a joined path are, and `pathMoves_joinPath` which of them
  lead on;
* `executionPlace` is the place of an execution, and `Execution.place_of_create` says that an execution is there;
* `apart_executionPlace_iff` is the law of two places.
-/

namespace Outbox

/-! ## Steps -/

/-- A path that is followed by a name has its steps and those of the name, if steps without a name do not count. -/
theorem filter_pathSteps_joinPath (path name : String) {f : String → Bool} (unnamed : f "" = false) :
    (pathSteps (joinPath path name)).filter f = (pathSteps path).filter f ++ (pathSteps name).filter f := by
  have cut (front back : List Char) :
      ((pieces '/' (front ++ '/' :: back)).map String.ofList).filter f =
        ((pieces '/' front).map String.ofList).filter f ++ ((pieces '/' back).map String.ofList).filter f := by
    rw [pieces_eq_splitOn, List.splitOn_append_cons_self, List.map_append, List.filter_append,
      ← pieces_eq_splitOn, ← pieces_eq_splitOn]
  have nothing : ((pieces '/' []).map String.ofList).filter f = [] := by
    rw [List.filter_eq_nil_iff]
    intro step member
    obtain rfl := List.mem_singleton.1 member
    exact Bool.not_eq_true _ ▸ unnamed
  unfold joinPath pathSteps
  cases last : path.toList.getLast? with
  | none =>
    have empty : path.toList = [] := List.getLast?_eq_none_iff.1 last
    rw [Option.all_none, if_pos rfl, String.toList_append, empty, nothing, List.nil_append, List.nil_append]
  | some c =>
    obtain ⟨front, text⟩ := List.getLast?_eq_some_iff.1 last
    by_cases slash : c = '/'
    · rw [slash] at text
      rw [Option.all_some, if_pos (decide_eq_true slash), String.toList_append, text, List.append_assoc,
        List.singleton_append, cut, cut, nothing, List.append_nil]
    · have no : ¬ (Option.all (fun c => decide (c = '/')) (some c)) = true := by simpa using slash
      have between : "/".toList = ['/'] := rfl
      rw [if_neg no, String.toList_append, String.toList_append, between, List.append_assoc,
        List.singleton_append, cut]

/-- The moves of a joined path are those of its parts. -/
theorem pathMoves_joinPath (path name : String) :
    pathMoves (joinPath path name) = pathMoves path ++ pathMoves name :=
  filter_pathSteps_joinPath path name rfl

/-- A name is one step. -/
theorem pathSteps_of_plain {name : String} (plain : '/' ∉ name.toList) : pathSteps name = [name] := by
  rw [pathSteps, pieces_eq_splitOn, List.splitOn_eq_singleton plain, List.map_singleton, String.ofList_toList]

/-- A step of some characters leads on. -/
theorem ne_of_long {step : String} (long : 1 < step.toList.length) : step ≠ "" ∧ step ≠ "." := by
  constructor <;> rintro rfl <;> exact absurd long (by decide)

/-! ## Names -/

/-- The name of the folder of a container. -/
def containerName (c : Container) : String :=
  c.type.name ++ "__" ++ c.id

/-- The name of the folder of an execution. -/
def executionName (now process : Nat) : String :=
  "exec-" ++ toString now ++ "-" ++ toString process

theorem toList_executionName (now process : Nat) : (executionName now process).toList =
    'e' :: 'x' :: 'e' :: 'c' :: '-' :: (Decimal.write now ++ '-' :: Decimal.write process) := by
  simp [executionName, Decimal.write]

theorem executionName_leads (now process : Nat) : executionName now process ≠ "" ∧ executionName now process ≠ "." :=
  ne_of_long (by simp [toList_executionName])

/-- The name tells the time. -/
theorem executionName_inj {now now' process : Nat} (same : executionName now process = executionName now' process) :
    now = now' := by
  have text := congrArg String.toList same
  simp only [toList_executionName, List.cons.injEq, true_and, List.append_cancel_right_eq] at text
  rw [← Decimal.ofDigits_write now, text, Decimal.ofDigits_write]

theorem plain_executionName (now process : Nat) : '/' ∉ (executionName now process).toList := by
  have digits (n : Nat) : '/' ∉ Decimal.write n := fun member =>
    absurd (Decimal.isDigit_of_mem_write member) (by decide)
  simp [toList_executionName, digits]

theorem toList_containerName (c : Container) :
    (containerName c).toList = c.type.name.toList ++ '_' :: '_' :: c.id.toList := by
  simp [containerName]

/-- The name tells the container. -/
theorem containerName_inj {c c' : Container} (same : containerName c = containerName c') : c = c' := by
  have text := congrArg String.toList same
  obtain ⟨id, type⟩ := c
  obtain ⟨id', type'⟩ := c'
  simp only [toList_containerName] at text
  cases type <;> cases type' <;> simp [ContainerType.name] at text
  all_goals rw [String.toList_injective text]

theorem containerName_leads (c : Container) : containerName c ≠ "" ∧ containerName c ≠ "." :=
  ne_of_long (by rw [toList_containerName, List.length_append, List.length_cons, List.length_cons]; omega)

theorem plain_containerName {c : Container} (plain : '/' ∉ c.id.toList) : '/' ∉ (containerName c).toList := by
  have type : '/' ∉ c.type.name.toList := by cases c.type <;> decide
  simp [toList_containerName, plain, type]

/-! ## Places -/

/-- The place of an execution. -/
def executionPlace (base : String) (c : Container) (now process : Nat) : Place :=
  pathMoves (executionPath base c now process)

theorem executionPath_eq (base : String) (c : Container) (now process : Nat) :
    executionPath base c now process = joinPath (joinPath base (containerName c)) (executionName now process) :=
  rfl

/-- The path of an execution leads to a name. -/
theorem endsInDot_executionPath (base : String) (c : Container) (now process : Nat) :
    endsInDot (executionPath base c now process) = false := by
  have name := executionName_leads now process
  rw [endsInDot, executionPath_eq, filter_pathSteps_joinPath _ _ rfl,
    pathSteps_of_plain (plain_executionName now process), List.filter_singleton]
  simp [name.1, name.2]

/-- **An execution is at its place**, if its path has no two dots. -/
theorem Execution.place_of_create {d d' : Disk} {base : String} {c : Container} {now process : Nat}
    {e : Execution} (straight : ".." ∉ executionPlace base c now process)
    (created : create d base c now process = (d', .ok e)) :
    e.place = executionPlace base c now process ∧
      d.makeFolders? (executionPlace base c now process) = some d' := by
  have no : ¬ (pathMoves (executionPath base c now process)).contains ".." = true := by
    rw [List.contains_iff_mem]
    exact straight
  unfold create Disk.makePath? at created
  dsimp only at created
  rw [endsInDot_executionPath, if_neg (by simp), if_neg no] at created
  split at created
  · cases created
  · next d₁ place made =>
    cases created
    split at made
    · obtain ⟨d₂, folders, same⟩ := Option.map_eq_some_iff.1 made
      cases same
      exact ⟨rfl, folders⟩
    · cases made

/-- **An execution begins in a new folder**, if nothing is at its place, or does not begin. -/
theorem Execution.create_cases {d : Disk} {base : String} {c : Container} {now process : Nat}
    (nothing : d.Clear (executionPlace base c now process))
    (named : (executionPlace base c now process).all isName = true)
    (straight : ".." ∉ executionPlace base c now process) :
    (∃ e, create d base c now process = (d, .error e)) ∨
      ∃ d' e, create d base c now process = (d', .ok e) ∧ e.place = executionPlace base c now process ∧
        d.makeFolders? e.place = some d' ∧ d'.Blank e.place := by
  rcases created : create d base c now process with ⟨d', e | e⟩
  · refine .inl ⟨e, ?_⟩
    unfold create at created
    dsimp only at created
    split at created <;> cases created
    rfl
  · obtain ⟨place, made⟩ := place_of_create straight created
    obtain ⟨blank, -⟩ := (Disk.Divides.nil d).make nothing named (List.forall_mem_nil _) made
    rw [← place] at made blank
    exact .inr ⟨d', e, rfl, place, made, blank⟩

/-- The place of an execution of a container whose name is one step. -/
theorem executionPlace_eq {base : String} {c : Container} (plain : '/' ∉ c.id.toList) (now process : Nat) :
    executionPlace base c now process = pathMoves base ++ [containerName c, executionName now process] := by
  have moves {name : String} (plain : '/' ∉ name.toList) (leads : name ≠ "" ∧ name ≠ ".") :
      pathMoves name = [name] := by
    rw [pathMoves, pathSteps_of_plain plain, List.filter_singleton, isStay, beq_eq_false_iff_ne.2 leads.1,
      beq_eq_false_iff_ne.2 leads.2]
    rfl
  rw [executionPlace, executionPath_eq, pathMoves_joinPath, pathMoves_joinPath,
    moves (plain_containerName plain) (containerName_leads c),
    moves (plain_executionName now process) (executionName_leads now process),
    List.append_assoc, List.singleton_append]

/-- **Two executions of one process share nothing** unless they are of one container and began at one time. Then
they have one place. -/
theorem apart_executionPlace_iff {base : String} {c c' : Container} (plain : '/' ∉ c.id.toList)
    (plain' : '/' ∉ c'.id.toList) (now now' process : Nat) :
    Place.Apart (executionPlace base c now process) (executionPlace base c' now' process) ↔
      ¬ (c = c' ∧ now = now') := by
  constructor
  · rintro apart ⟨rfl, rfl⟩
    exact apart.ne rfl
  · intro differ
    have ne : executionPlace base c now process ≠ executionPlace base c' now' process := by
      rw [executionPlace_eq plain, executionPlace_eq plain']
      intro same
      obtain ⟨container, execution, -⟩ : containerName c = containerName c' ∧
          executionName now process = executionName now' process ∧ True := by
        simpa using List.append_cancel_left same
      exact differ ⟨containerName_inj container, executionName_inj execution⟩
    have length : (executionPlace base c now process).length =
        (executionPlace base c' now' process).length := by
      rw [executionPlace_eq plain, executionPlace_eq plain', List.length_append, List.length_append]
      rfl
    exact ⟨fun first => ne (first.eq_of_length length), fun second => ne (second.eq_of_length length.symm).symm⟩

/-- Where the name of a container is more than one step, an execution can be in the folder of another one. -/
example : ¬ Place.Apart (executionPlace "data" ⟨"a", .run⟩ 5 1)
    (executionPlace "data" ⟨"a/exec-5-1/b", .run⟩ 6 1) := by
  decide +kernel

end Outbox
