import Outbox.Decimal.Numeral
import Outbox.Text.Utf8

/-!
# Tokens of JSON

The lexical part of JSON, over symbols rather than characters. It checks the grammar of tokens and
nothing else: a string may hold stray bytes and any `\u` escapes, a numeral may be of any size. What
such a token stands for, if anything, is decided where its value is wanted.

* `Piece` and `Token` are the results;
* `scanString`, `scanNumeral` and `token?` read one token off the front;
* `tokens?` reads a whole text; it ends because every token takes at least one symbol
  (`length_lt_of_token?`).
-/

namespace Outbox.Json

open Decimal (Numeral)
open Utf8 (Symbol)

/-- A part of a string: a character or a stray byte standing for itself, or a `\u` escape. -/
inductive Piece where
  | char (c : Char)
  | stray (b : UInt8)
  | unit (u : Nat)
deriving DecidableEq, Repr

/-- A token of JSON. -/
inductive Token where
  | openObject
  | closeObject
  | openArray
  | closeArray
  | colon
  | comma
  | null
  | bool (b : Bool)
  | number (n : Numeral)
  | string (ps : List Piece)
deriving DecidableEq, Repr

/-! ### Strings -/

/-- The value of a hexadecimal digit. -/
def hexDigit? (c : Char) : Option Nat :=
  if c.isDigit then some (c.toNat - '0'.toNat)
  else if 'a' ≤ c ∧ c ≤ 'f' then some (c.toNat - 'a'.toNat + 10)
  else if 'A' ≤ c ∧ c ≤ 'F' then some (c.toNat - 'A'.toNat + 10)
  else none

/-- The number of four hexadecimal digits. -/
def hexUnit? (a b c d : Char) : Option Nat := do
  let a ← hexDigit? a
  let b ← hexDigit? b
  let c ← hexDigit? c
  let d ← hexDigit? d
  return ((a * 16 + b) * 16 + c) * 16 + d

/-- The character that a backslash and `c` stand for, `\u` escapes apart. -/
def escaped? (c : Char) : Option Char :=
  match c with
  | '"' => some '"'
  | '\\' => some '\\'
  | '/' => some '/'
  | 'b' => some '\x08'
  | 'f' => some '\x0c'
  | 'n' => some '\n'
  | 'r' => some '\r'
  | 't' => some '\t'
  | _ => none

/-- The pieces up to the closing quote, behind those already read (latest first), and what follows
the quote. Control characters must be escaped. -/
def scanString (done : List Piece) : List Symbol → Option (List Piece × List Symbol)
  | [] => none
  | .stray b :: rest => scanString (.stray b :: done) rest
  | .char '\\' :: .char 'u' :: .char a :: .char b :: .char c :: .char d :: rest =>
    match hexUnit? a b c d with
    | some u => scanString (.unit u :: done) rest
    | none => none
  | .char '\\' :: .char e :: rest =>
    match escaped? e with
    | some c => scanString (.char c :: done) rest
    | none => none
  | .char c :: rest =>
    if c = '"' then some (done.reverse, rest)
    else if c = '\\' ∨ c.toNat < 0x20 then none
    else scanString (.char c :: done) rest

/-! ### Numerals -/

/-- The longest run of digits in front, and what follows it. -/
def scanDigits : List Symbol → List Char × List Symbol
  | .char c :: rest =>
    if c.isDigit then
      let (ds, rest') := scanDigits rest
      (c :: ds, rest')
    else ([], .char c :: rest)
  | rest => ([], rest)

/-- The digits behind a point; none where there is no point. -/
def scanFraction : List Symbol → Option (List Char × List Symbol)
  | .char '.' :: rest =>
    match scanDigits rest with
    | ([], _) => none
    | (ds, rest') => some (ds, rest')
  | rest => some ([], rest)

/-- The value of the digits behind an exponent's mark and sign. -/
def scanPower (sign : Int) (rest : List Symbol) : Option (Option Int × List Symbol) :=
  match scanDigits rest with
  | ([], _) => none
  | (ds, rest') => some (some (sign * Decimal.ofDigits ds), rest')

/-- The exponent behind an `e` of either case; none where there is no such mark. -/
def scanExponent : List Symbol → Option (Option Int × List Symbol)
  | .char c :: rest =>
    if c = 'e' ∨ c = 'E' then
      match rest with
      | .char '+' :: rest' => scanPower 1 rest'
      | .char '-' :: rest' => scanPower (-1) rest'
      | _ => scanPower 1 rest
    else some (none, .char c :: rest)
  | rest => some (none, rest)

/-- The numeral in front, its sign already read, and what follows it. Only a lone zero starts with a
zero. -/
def scanNumeral (negative : Bool) (s : List Symbol) : Option (Numeral × List Symbol) :=
  match scanDigits s with
  | ([], _) => none
  | ('0' :: _ :: _, _) => none
  | (whole, afterWhole) => do
    let (fraction, afterFraction) ← scanFraction afterWhole
    let (exponent, rest) ← scanExponent afterFraction
    return (⟨negative, whole, fraction, exponent⟩, rest)

/-! ### Reading tokens -/

/-- The four characters that may stand between tokens. -/
def isBlank (c : Char) : Bool :=
  c = ' ' || c = '\n' || c = '\t' || c = '\r'

/-- The token in front, no blank before it, and what follows it. -/
def token? : List Symbol → Option (Token × List Symbol)
  | .char '{' :: rest => some (.openObject, rest)
  | .char '}' :: rest => some (.closeObject, rest)
  | .char '[' :: rest => some (.openArray, rest)
  | .char ']' :: rest => some (.closeArray, rest)
  | .char ':' :: rest => some (.colon, rest)
  | .char ',' :: rest => some (.comma, rest)
  | .char 'n' :: .char 'u' :: .char 'l' :: .char 'l' :: rest => some (.null, rest)
  | .char 't' :: .char 'r' :: .char 'u' :: .char 'e' :: rest => some (.bool true, rest)
  | .char 'f' :: .char 'a' :: .char 'l' :: .char 's' :: .char 'e' :: rest =>
    some (.bool false, rest)
  | .char '"' :: rest => (scanString [] rest).map fun (ps, rest') => (.string ps, rest')
  | .char '-' :: rest => (scanNumeral true rest).map fun (n, rest') => (.number n, rest')
  | s => (scanNumeral false s).map fun (n, rest') => (.number n, rest')

theorem length_le_of_scanString {s rest : List Symbol} {done ps : List Piece}
    (h : scanString done s = some (ps, rest)) : rest.length ≤ s.length := by
  fun_induction scanString done s <;> simp_all <;> omega

theorem length_scanDigits (s : List Symbol) :
    (scanDigits s).1.length + (scanDigits s).2.length = s.length := by
  fun_induction scanDigits s <;> simp_all
  omega

theorem length_le_of_scanFraction {s rest : List Symbol} {ds : List Char}
    (h : scanFraction s = some (ds, rest)) : rest.length ≤ s.length := by
  unfold scanFraction at h
  split at h
  · next tail =>
    have total := length_scanDigits tail
    split at h
    · simp at h
    · next digits =>
      simp only [Option.some.injEq, Prod.mk.injEq] at h
      simp only [digits, h.2] at total
      simp only [List.length_cons]
      omega
  · simp only [Option.some.injEq, Prod.mk.injEq] at h
    simp [h.2]

theorem length_le_of_scanPower {sign : Int} {s rest : List Symbol} {e : Option Int}
    (h : scanPower sign s = some (e, rest)) : rest.length ≤ s.length := by
  have total := length_scanDigits s
  unfold scanPower at h
  split at h
  · simp at h
  · next digits =>
    simp only [Option.some.injEq, Prod.mk.injEq] at h
    simp only [digits, h.2] at total
    omega

theorem length_le_of_scanExponent {s rest : List Symbol} {e : Option Int}
    (h : scanExponent s = some (e, rest)) : rest.length ≤ s.length := by
  unfold scanExponent at h
  split at h
  · split at h
    · split at h <;> have := length_le_of_scanPower h <;> simp only [List.length_cons] <;> omega
    · simp only [Option.some.injEq, Prod.mk.injEq] at h
      simp [← h.2]
  · simp only [Option.some.injEq, Prod.mk.injEq] at h
    simp [h.2]

theorem length_lt_of_scanNumeral {negative : Bool} {s rest : List Symbol} {n : Numeral}
    (h : scanNumeral negative s = some (n, rest)) : rest.length < s.length := by
  have total := length_scanDigits s
  unfold scanNumeral at h
  split at h
  · simp at h
  · simp at h
  · next whole afterWhole nonempty _ digits =>
    simp only [Option.bind_eq_bind, Option.bind_eq_some_iff, Prod.exists] at h
    obtain ⟨_, _, fraction, _, _, exponent, result⟩ := h
    simp only [Option.pure_def, Option.some.injEq, Prod.mk.injEq] at result
    have := length_le_of_scanFraction fraction
    have := length_le_of_scanExponent exponent
    have : 0 < whole.length := List.length_pos_iff.2 fun e => nonempty e
    simp only [digits] at total
    rw [← result.2]
    omega

/-- Every token takes at least one symbol. -/
theorem length_lt_of_token? {s rest : List Symbol} {t : Token} (h : token? s = some (t, rest)) :
    rest.length < s.length := by
  unfold token? at h
  split at h
  all_goals try (simp only [Option.some.injEq, Prod.mk.injEq] at h; simp [← h.2]; try omega)
  · simp only [Option.map_eq_some_iff, Prod.mk.injEq, Prod.exists] at h
    obtain ⟨_, _, scanned, _, same⟩ := h
    have := length_le_of_scanString scanned
    simp only [List.length_cons, ← same]
    omega
  · simp only [Option.map_eq_some_iff, Prod.mk.injEq, Prod.exists] at h
    obtain ⟨_, _, scanned, _, same⟩ := h
    have := length_lt_of_scanNumeral scanned
    simp only [List.length_cons, ← same]
    omega
  · simp only [Option.map_eq_some_iff, Prod.mk.injEq, Prod.exists] at h
    obtain ⟨_, _, scanned, _, same⟩ := h
    exact same ▸ length_lt_of_scanNumeral scanned

/-- The tokens of a text, blanks between them dropped. -/
def tokens? : List Symbol → Option (List Token)
  | [] => some []
  | first :: rest =>
    if first.char?.any isBlank then tokens? rest
    else
      match _h : token? (first :: rest) with
      | none => none
      | some (t, rest') => (tokens? rest').map (t :: ·)
termination_by s => s.length
decreasing_by
  · simp
  · exact length_lt_of_token? _h

/-! ### Writing tokens -/

/-- The hexadecimal digit of a number below 16, in lower case. -/
def hexDigit (n : Nat) : Char :=
  Nat.digitChar n

/-- The escape of a 16-bit unit. -/
def unitText (u : Nat) : List Char :=
  ['\\', 'u', hexDigit (u / 4096 % 16), hexDigit (u / 256 % 16), hexDigit (u / 16 % 16),
    hexDigit (u % 16)]

/-- The short escape of a character, where it must be escaped and has one. -/
def shortEscape? (c : Char) : Option Char :=
  match c with
  | '"' => some '"'
  | '\\' => some '\\'
  | '\x08' => some 'b'
  | '\x0c' => some 'f'
  | '\n' => some 'n'
  | '\r' => some 'r'
  | '\t' => some 't'
  | _ => none

/-- How a character of a text is written: escaped as a unit if it is a control character without a
short escape. -/
def Piece.ofChar (c : Char) : Piece :=
  if c.toNat < 0x20 ∧ shortEscape? c = none then .unit c.toNat else .char c

/-- The characters of a piece. A stray byte has none; no text that is written holds one. -/
def Piece.text : Piece → List Char
  | .char c =>
    match shortEscape? c with
    | some e => ['\\', e]
    | none => [c]
  | .stray _ => []
  | .unit u => unitText u

/-- The characters of a token. -/
def Token.text : Token → List Char
  | .openObject => ['{']
  | .closeObject => ['}']
  | .openArray => ['[']
  | .closeArray => [']']
  | .colon => [':']
  | .comma => [',']
  | .null => ['n', 'u', 'l', 'l']
  | .bool true => ['t', 'r', 'u', 'e']
  | .bool false => ['f', 'a', 'l', 's', 'e']
  | .number n => n.text
  | .string ps => '"' :: (ps.flatMap Piece.text ++ ['"'])

end Outbox.Json
