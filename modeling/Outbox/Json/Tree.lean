import Outbox.Json.Token

/-!
# Syntax trees of JSON

The grammar of JSON above its tokens. `Tree` holds a text as it is written: strings as pieces,
numbers as numerals, members of an object in order and with repetitions. `Tree.parse?` accepts every
text that is well formed in this sense, whatever its strings and numbers stand for and however deep
it nests.

The parser folds a step over the tokens. Its state is the stack of containers that are still open and
what the grammar expects next, so that reading ends with the text, without recursion on the depth.

* `Tree.tokens` writes a tree as tokens;
* `Parser.run_tokens` says that the parser reads back what `Tree.tokens` writes, in front of any
  further tokens; `Tree.ofTokens?_tokens` is the case of a whole text.
-/

namespace Outbox.Json

open Decimal (Numeral)

/-- A JSON text as written. -/
inductive Tree where
  | null
  | bool (b : Bool)
  | number (n : Numeral)
  | string (ps : List Piece)
  | array (items : List Tree)
  | object (members : List (List Piece × Tree))

namespace Parser

/-- A container whose end has not been read, latest entry first. -/
inductive Frame where
  | array (items : List Tree)
  | member (members : List (List Piece × Tree)) (key : List Piece)

/-- What the grammar expects next. -/
inductive Expected where
  /-- A value. -/
  | value
  /-- A value or the end of the array on top, which is still empty. -/
  | firstItem
  /-- A key or the end of an object that is still empty. -/
  | firstKey
  /-- A key, behind these members. -/
  | key (members : List (List Piece × Tree))
  /-- The colon behind a key. -/
  | colon (members : List (List Piece × Tree)) (key : List Piece)
  /-- What follows a complete value. -/
  | after (t : Tree)

/-- A parser in the middle of a text. -/
structure State where
  frames : List Frame
  expected : Expected

/-- Where a value may start: a scalar completes it, an opening bracket starts a container. -/
def beginValue (frames : List Frame) : Token → Option State
  | .null => some ⟨frames, .after .null⟩
  | .bool b => some ⟨frames, .after (.bool b)⟩
  | .number n => some ⟨frames, .after (.number n)⟩
  | .string ps => some ⟨frames, .after (.string ps)⟩
  | .openArray => some ⟨.array [] :: frames, .firstItem⟩
  | .openObject => some ⟨frames, .firstKey⟩
  | _ => none

/-- Behind a complete value: a comma keeps it and goes on, the bracket of the innermost container
ends that. -/
def afterValue (frames : List Frame) (t : Tree) : Token → Option State
  | .comma =>
    match frames with
    | .array items :: rest => some ⟨.array (t :: items) :: rest, .value⟩
    | .member members key :: rest => some ⟨rest, .key ((key, t) :: members)⟩
    | [] => none
  | .closeArray =>
    match frames with
    | .array items :: rest => some ⟨rest, .after (.array (t :: items).reverse)⟩
    | _ => none
  | .closeObject =>
    match frames with
    | .member members key :: rest => some ⟨rest, .after (.object ((key, t) :: members).reverse)⟩
    | _ => none
  | _ => none

/-- One token more. -/
def step (s : State) (token : Token) : Option State :=
  match s.expected, token with
  | .value, _ => beginValue s.frames token
  | .firstItem, .closeArray => some ⟨s.frames.drop 1, .after (.array [])⟩
  | .firstItem, _ => beginValue s.frames token
  | .firstKey, .closeObject => some ⟨s.frames, .after (.object [])⟩
  | .firstKey, .string key => some ⟨s.frames, .colon [] key⟩
  | .key members, .string key => some ⟨s.frames, .colon members key⟩
  | .colon members key, .colon => some ⟨.member members key :: s.frames, .value⟩
  | .after t, _ => afterValue s.frames t token
  | _, _ => none

/-- The state behind some tokens. -/
def run (s : State) (tokens : List Token) : Option State :=
  tokens.foldlM step s

@[simp] theorem run_nil (s : State) : run s [] = some s := rfl

@[simp] theorem run_cons (s : State) (t : Token) (ts : List Token) :
    run s (t :: ts) = (step s t).bind (run · ts) := by
  simp [run]

theorem run_append (s : State) (ts us : List Token) :
    run s (ts ++ us) = (run s ts).bind (run · us) := by
  simp [run, List.foldlM_append]

end Parser

namespace Tree

/-- The tree that a list of tokens spells, if it spells exactly one. -/
def ofTokens? (tokens : List Token) : Option Tree :=
  match Parser.run ⟨[], .value⟩ tokens with
  | some ⟨[], .after t⟩ => some t
  | _ => none

/-- The tree of a JSON text given as bytes. -/
def parse? (bytes : List UInt8) : Option Tree :=
  (tokens? (Utf8.decode bytes)).bind ofTokens?

/-! ### Writing -/

mutual

/-- The tokens of a tree. -/
def tokens : Tree → List Token
  | null => [.null]
  | bool b => [.bool b]
  | number n => [.number n]
  | string ps => [.string ps]
  | array items => .openArray :: (itemTokens items ++ [.closeArray])
  | object members => .openObject :: (memberTokens members ++ [.closeObject])

/-- The tokens of the items of an array, commas between them. -/
def itemTokens : List Tree → List Token
  | [] => []
  | [t] => tokens t
  | t :: u :: ts => tokens t ++ .comma :: itemTokens (u :: ts)

/-- The tokens of the members of an object, commas between them. -/
def memberTokens : List (List Piece × Tree) → List Token
  | [] => []
  | [(k, t)] => .string k :: .colon :: tokens t
  | (k, t) :: m :: ms => .string k :: .colon :: (tokens t ++ .comma :: memberTokens (m :: ms))

end

end Tree

namespace Parser

/-- Where an array may also end, a value starts as it does elsewhere. -/
theorem step_firstItem {frames : List Frame} {t : Token} (h : t ≠ .closeArray) :
    step ⟨frames, .firstItem⟩ t = step ⟨frames, .value⟩ t := by
  cases t <;> simp_all [step]

theorem head_tokens_ne_closeArray (t : Tree) :
    ∃ first rest, t.tokens = first :: rest ∧ first ≠ .closeArray := by
  cases t <;> exact ⟨_, _, by rw [Tree.tokens], by simp⟩

mutual

/-- The parser reads a tree's tokens as that tree. -/
theorem run_tokens (t : Tree) (frames : List Frame) :
    run ⟨frames, .value⟩ t.tokens = some ⟨frames, .after t⟩ := by
  cases t with
  | null => rfl
  | bool b => rfl
  | number n => rfl
  | string ps => rfl
  | array items =>
    cases items with
    | nil => rfl
    | cons t ts =>
      obtain ⟨first, rest, split, ne⟩ := head_tokens_ne_closeArray t
      have items := run_itemTokens t ts [] frames
      have head : ∃ rest', Tree.itemTokens (t :: ts) = first :: rest' := by
        cases ts <;> simp [Tree.itemTokens, split]
      obtain ⟨rest', head⟩ := head
      rw [Tree.tokens, run_cons]
      show run ⟨.array [] :: frames, .firstItem⟩ _ = _
      rw [run_append]
      rw [head] at items ⊢
      rw [run_cons, step_firstItem ne, ← run_cons, items]
      simp only [step, afterValue, Option.bind_some, run_cons, run_nil, List.append_nil,
        List.reverse_cons, List.reverse_reverse, List.dropLast_concat_getLast]
  | object members =>
    cases members with
    | nil => rfl
    | cons m ms =>
      rw [Tree.tokens, run_cons]
      show run ⟨frames, .firstKey⟩ _ = _
      have members := run_memberTokens m ms [] frames
      have head : ∃ rest, Tree.memberTokens (m :: ms) = .string m.1 :: rest := by
        cases ms <;> exact ⟨_, by rw [Tree.memberTokens]⟩
      obtain ⟨rest, head⟩ := head
      rw [run_append]
      rw [head, run_cons] at members ⊢
      have same : step ⟨frames, .firstKey⟩ (.string m.1) = step ⟨frames, .key []⟩ (.string m.1) := rfl
      rw [same, members]
      simp only [step, afterValue, Option.bind_some, run_cons, run_nil, List.append_nil,
        List.reverse_cons, List.reverse_reverse]
      exact congrArg (fun ms => some (State.mk frames (.after (.object ms))))
        (List.dropLast_concat_getLast _)
termination_by sizeOf t

/-- The parser reads the tokens of items behind others that it has read, and stops behind the last
of them. -/
theorem run_itemTokens (t : Tree) (ts : List Tree) (done : List Tree) (frames : List Frame) :
    run ⟨.array done :: frames, .value⟩ (Tree.itemTokens (t :: ts)) =
      some ⟨.array (((t :: ts).dropLast).reverse ++ done) :: frames,
        .after ((t :: ts).getLast (by simp))⟩ := by
  cases ts with
  | nil => simpa [Tree.itemTokens] using run_tokens t _
  | cons u us =>
    rw [Tree.itemTokens, run_append, run_tokens t]
    simp only [Option.bind_some, run_cons, step, afterValue]
    rw [run_itemTokens u us (t :: done) frames]
    simp
termination_by sizeOf (t :: ts)

/-- The parser reads the tokens of members behind others that it has read, and stops behind the
last of them. -/
theorem run_memberTokens (m : List Piece × Tree) (ms : List (List Piece × Tree))
    (done : List (List Piece × Tree)) (frames : List Frame) :
    run ⟨frames, .key done⟩ (Tree.memberTokens (m :: ms)) =
      some ⟨.member (((m :: ms).dropLast).reverse ++ done) ((m :: ms).getLast (by simp)).1 :: frames,
        .after ((m :: ms).getLast (by simp)).2⟩ := by
  obtain ⟨k, t⟩ := m
  cases ms with
  | nil =>
    simp only [Tree.memberTokens, run_cons, step, Option.bind_some]
    simpa using run_tokens t _
  | cons n ns =>
    simp only [Tree.memberTokens, run_cons, step, Option.bind_some, run_append]
    rw [run_tokens t]
    simp only [Option.bind_some, afterValue]
    rw [run_memberTokens n ns ((k, t) :: done) frames]
    simp
termination_by sizeOf (m :: ms)

end

end Parser

/-- A tree's tokens spell that tree. -/
theorem Tree.ofTokens?_tokens (t : Tree) : Tree.ofTokens? t.tokens = some t := by
  simp [Tree.ofTokens?, Parser.run_tokens]

end Outbox.Json
