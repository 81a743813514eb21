import Outbox.Json.Tree
import Outbox.Proofs.Decimal.Notation
import Outbox.Proofs.Text.Utf8

/-!
# Texts that read back

The characters of a tree are read as that tree. Token by token this needs two things: what a token
holds must be what a reader accepts, and a numeral must end where it was meant to, so that nothing
which could be part of it follows. In a text of JSON only commas and brackets follow a numeral.

* `Piece.Legible` and `Token.Legible` say what a reader accepts, and `Closes` that a text does not go on
  with a numeral;
* `token?_text` reads one token back, in front of anything that closes a numeral;
* `Tree.Legible` holds of trees whose tokens are legible, and `Tree.tokens?_text` reads all of them back;
* `Tree.parse?_text` is the result.
-/

namespace Outbox.Json

open Decimal (Numeral)
open Utf8 (Symbol)

/-- The symbols of a text. -/
def symbols (cs : List Char) : List Symbol :=
  cs.map .char

@[simp] theorem symbols_nil : symbols [] = [] := rfl

@[simp] theorem symbols_cons (c : Char) (cs : List Char) : symbols (c :: cs) = .char c :: symbols cs := rfl

@[simp] theorem symbols_append (cs ds : List Char) : symbols (cs ++ ds) = symbols cs ++ symbols ds :=
  List.map_append

/-! ## Strings -/

/-- What a reader accepts as a piece of a string: a control character must have an escape, and a unit
has four hexadecimal digits. -/
def Piece.Legible : Piece → Prop
  | .char c => 0x20 ≤ c.toNat ∨ shortEscape? c ≠ none
  | .stray _ => False
  | .unit u => u < 0x10000

theorem Piece.legible_ofChar (c : Char) : (Piece.ofChar c).Legible := by
  unfold ofChar
  split
  · next control => exact Nat.lt_trans control.1 (by decide)
  · next plain =>
    rw [Legible]
    by_cases low : c.toNat < 0x20
    · exact .inr fun none => plain ⟨low, none⟩
    · exact .inl (Nat.le_of_not_lt low)

/-- A short escape stands for the character that has it. -/
theorem escaped?_of_shortEscape? {c e : Char} (h : shortEscape? c = some e) :
    escaped? e = some c ∧ e ≠ 'u' := by
  unfold shortEscape? at h
  split at h <;> cases h <;> exact ⟨rfl, by decide⟩

theorem hexDigit?_hexDigit : ∀ n < 16, hexDigit? (hexDigit n) = some n := by
  decide

/-- A piece is read back in front of anything. -/
theorem scanString_text {p : Piece} (h : p.Legible) (done : List Piece) (rest : List Symbol) :
    scanString done (symbols p.text ++ rest) = scanString (p :: done) rest := by
  cases p with
  | stray b => exact h.elim
  | unit u =>
    have digit (n : Nat) : hexDigit? (hexDigit (n % 16)) = some (n % 16) :=
      hexDigit?_hexDigit _ (Nat.mod_lt _ (by decide))
    have number : hexUnit? (hexDigit (u / 4096 % 16)) (hexDigit (u / 256 % 16)) (hexDigit (u / 16 % 16))
        (hexDigit (u % 16)) = some u := by
      simp only [Piece.Legible] at h
      simp only [hexUnit?, digit, Option.bind_eq_bind, Option.bind_some, Option.pure_def, Option.some.injEq]
      omega
    simp [Piece.text, unitText, scanString, number]
  | char c =>
    cases escape : shortEscape? c with
    | some e =>
      obtain ⟨reads, no_unit⟩ := escaped?_of_shortEscape? escape
      simp [Piece.text, escape, scanString, reads, no_unit]
    | none =>
      have plain : 0x20 ≤ c.toNat := by simpa [Piece.Legible, escape] using h
      have no_quote : c ≠ '"' := by
        rintro rfl
        cases escape
      have no_backslash : c ≠ '\\' := by
        rintro rfl
        cases escape
      simp [Piece.text, escape, scanString, no_quote, no_backslash, Nat.not_lt.2 plain]

/-- So are any number of pieces. -/
theorem scanString_texts {ps : List Piece} (h : ∀ p ∈ ps, p.Legible) (done : List Piece)
    (rest : List Symbol) :
    scanString done (symbols (ps.flatMap Piece.text) ++ .char '"' :: rest) =
      some (done.reverse ++ ps, rest) := by
  induction ps generalizing done with
  | nil => simp [scanString]
  | cons p ps ih =>
    rw [List.flatMap_cons, symbols_append, List.append_assoc, scanString_text (h p List.mem_cons_self),
      ih fun q member => h q (List.mem_cons_of_mem _ member)]
    simp

/-! ## Numerals -/

/-- A text that does not go on with a numeral. -/
def Closes (s : List Symbol) : Prop :=
  ∀ c rest, s = .char c :: rest → c.isDigit = false ∧ c ≠ '.' ∧ c ≠ 'e' ∧ c ≠ 'E'

theorem closes_nil : Closes [] := by
  intro c rest h
  cases h

theorem closes_char {c : Char} (h : c = ',' ∨ c = ']' ∨ c = '}') (rest : List Symbol) :
    Closes (.char c :: rest) := by
  intro c' rest' same
  cases same
  rcases h with rfl | rfl | rfl <;> decide

theorem scanDigits_append {ds : List Char} (digits : ∀ c ∈ ds, c.isDigit = true) {rest : List Symbol}
    (ends : ∀ c rest', rest = .char c :: rest' → c.isDigit = false) :
    scanDigits (symbols ds ++ rest) = (ds, rest) := by
  induction ds with
  | nil =>
    match rest, ends with
    | [], _ => rfl
    | .stray b :: rest', _ => rfl
    | .char c :: rest', ends => simp [scanDigits, ends c rest' rfl]
  | cons d ds ih =>
    have first := digits d List.mem_cons_self
    simp [scanDigits, first, ih fun c member => digits c (List.mem_cons_of_mem _ member)]

/-- A fraction is read back in front of anything but a digit and, if there is none, a point. -/
theorem scanFraction_text {ds : List Char} (digits : ∀ c ∈ ds, c.isDigit = true) {rest : List Symbol}
    (ends : ∀ c rest', rest = .char c :: rest' → c.isDigit = false ∧ c ≠ '.') :
    scanFraction (symbols (Numeral.fractionText ds) ++ rest) = some (ds, rest) := by
  cases ds with
  | nil =>
    match rest, ends with
    | [], _ => rfl
    | .stray b :: rest', _ => rfl
    | .char c :: rest', ends => simp [Numeral.fractionText, scanFraction, (ends c rest' rfl).2]
  | cons d ds =>
    have scanned := scanDigits_append digits fun c rest' h => (ends c rest' h).1
    rw [symbols_cons, List.cons_append] at scanned
    simp [Numeral.fractionText, scanFraction, scanned]

theorem scanPower_write (sign : Int) (n : Nat) {rest : List Symbol} (ends : Closes rest) :
    scanPower sign (symbols (Decimal.write n) ++ rest) = some (some (sign * n), rest) := by
  have scanned := scanDigits_append (fun c => Decimal.isDigit_of_mem_write (n := n) (c := c))
    fun c rest' h => (ends c rest' h).1
  obtain ⟨d, ds, written⟩ := List.exists_cons_of_ne_nil (Decimal.write_ne_nil n)
  have value := Decimal.ofDigits_write n
  rw [written] at scanned value ⊢
  simp only [scanPower, scanned, value]

/-- An exponent is read back in front of what closes a numeral. -/
theorem scanExponent_text (e : Option Int) {rest : List Symbol} (ends : Closes rest) :
    scanExponent (symbols (Numeral.exponentText e) ++ rest) = some (e, rest) := by
  cases e with
  | none =>
    match rest, ends with
    | [], _ => rfl
    | .stray b :: rest', _ => rfl
    | .char c :: rest', ends =>
      obtain ⟨-, -, no_e, no_E⟩ := ends c rest' rfl
      simp [Numeral.exponentText, scanExponent, no_e, no_E]
  | some e =>
    by_cases sign : 0 ≤ e
    · obtain ⟨n, rfl⟩ := Int.eq_ofNat_of_zero_le sign
      simp [Numeral.exponentText, scanExponent, sign, scanPower_write 1 n ends]
    · obtain ⟨n, rfl⟩ : ∃ n : Nat, e = -(n : Int) := ⟨e.natAbs, by omega⟩
      simp only [Numeral.exponentText, if_neg sign, Int.natAbs_neg, Int.natAbs_natCast]
      simp [scanExponent, scanPower_write (-1) n ends]

/-- A numeral is read back behind its sign. -/
theorem scanNumeral_text {n : Numeral} (h : n.Legible) {rest : List Symbol} (ends : Closes rest) :
    scanNumeral n.negative (symbols (n.whole ++ Numeral.fractionText n.fraction ++
      Numeral.exponentText n.exponent) ++ rest) = some (n, rest) := by
  -- what follows the digits of either part is no digit, and a point only follows the whole part
  have behind_fraction : ∀ c rest', symbols (Numeral.exponentText n.exponent) ++ rest = .char c :: rest' →
      c.isDigit = false ∧ c ≠ '.' := by
    intro c rest' same
    cases he : n.exponent with
    | none =>
      rw [he] at same
      exact ⟨(ends c rest' same).1, (ends c rest' same).2.1⟩
    | some e =>
      rw [he] at same
      cases same
      decide
  have behind_whole : ∀ c rest', symbols (Numeral.fractionText n.fraction) ++
      (symbols (Numeral.exponentText n.exponent) ++ rest) = .char c :: rest' → c.isDigit = false := by
    intro c rest' same
    cases hf : n.fraction with
    | nil =>
      rw [hf] at same
      exact (behind_fraction c rest' same).1
    | cons d ds =>
      rw [hf] at same
      cases same
      decide
  have whole := scanDigits_append h.whole behind_whole
  have fraction := scanFraction_text h.fraction behind_fraction
  have exponent := scanExponent_text n.exponent ends
  obtain ⟨negative, digits, ds, e⟩ := n
  obtain ⟨d, rest_digits, rfl⟩ := List.exists_cons_of_ne_nil h.whole_ne_nil
  rw [symbols_append, symbols_append, List.append_assoc, List.append_assoc]
  simp only at whole fraction exponent ⊢
  unfold scanNumeral
  rw [whole]
  split
  · next none => cases none
  · next d' more leading =>
    simp only [Prod.mk.injEq, List.cons.injEq] at leading
    obtain ⟨⟨rfl, rfl⟩, -⟩ := leading
    have := h.leading rfl
    simp at this
  · next same =>
    cases same
    simp [fraction, exponent]

/-! ## Tokens -/

/-- What a reader accepts as a token. -/
def Token.Legible : Token → Prop
  | .number n => n.Legible
  | .string ps => ∀ p ∈ ps, p.Legible
  | _ => True

/-- A token that starts with a digit is a numeral. -/
theorem token?_digit {c : Char} (h : c.isDigit = true) (rest : List Symbol) :
    token? (.char c :: rest) =
      (scanNumeral false (.char c :: rest)).map fun (n, rest') => (.number n, rest') := by
  have other {d : Char} (no_digit : d.isDigit = false) : c ≠ d := by
    rintro rfl
    simp [h] at no_digit
  have brackets : c ≠ '{' ∧ c ≠ '}' ∧ c ≠ '[' ∧ c ≠ ']' ∧ c ≠ ':' ∧ c ≠ ',' :=
    ⟨other rfl, other rfl, other rfl, other rfl, other rfl, other rfl⟩
  have words : c ≠ 'n' ∧ c ≠ 't' ∧ c ≠ 'f' ∧ c ≠ '"' ∧ c ≠ '-' :=
    ⟨other rfl, other rfl, other rfl, other rfl, other rfl⟩
  simp [token?, brackets, words]

/-- A token is read back in front of anything, a numeral in front of what closes it. -/
theorem token?_text {t : Token} (h : t.Legible) {rest : List Symbol}
    (ends : ∀ n, t = .number n → Closes rest) :
    token? (symbols t.text ++ rest) = some (t, rest) := by
  cases t with
  | number n =>
    have scanned := scanNumeral_text h (ends n rfl)
    cases sign : n.negative with
    | true =>
      rw [sign] at scanned
      simp only [Token.text, Numeral.text, sign, ↓reduceIte, symbols_cons, List.cons_append, token?, scanned,
        Option.map_some]
    | false =>
      rw [sign] at scanned
      obtain ⟨d, ds, whole⟩ := List.exists_cons_of_ne_nil (Numeral.Legible.whole_ne_nil h)
      have digit : d.isDigit = true := Numeral.Legible.whole h d (by simp [whole])
      simp only [Token.text, Numeral.text, sign, Bool.false_eq_true, ↓reduceIte]
      simp only [whole, List.cons_append, symbols_cons] at scanned ⊢
      rw [token?_digit digit, scanned]
      rfl
  | string ps =>
    have scanned := scanString_texts h [] rest
    simp [Token.text, token?, scanned]
  | bool b => cases b <;> rfl
  | _ => rfl

/-- No token starts with a blank. -/
theorem token?_blank {c : Char} (h : isBlank c = true) (rest : List Symbol) :
    token? (.char c :: rest) = none := by
  simp only [isBlank, Bool.or_eq_true, decide_eq_true_eq] at h
  rcases h with ((rfl | rfl) | rfl) | rfl <;> simp [token?, scanNumeral, scanDigits]

/-- The tokens of a text begin with the token in front. -/
theorem tokens?_of_token? {s rest : List Symbol} {t : Token} (h : token? s = some (t, rest)) :
    tokens? s = (tokens? rest).map (t :: ·) := by
  cases s with
  | nil => cases h
  | cons first s =>
    have nonblank : ¬ (first.char?.any isBlank = true) := by
      intro blank
      cases first with
      | stray b => cases blank
      | char c =>
        rw [token?_blank (by simpa [Utf8.Symbol.char?] using blank)] at h
        cases h
    rw [tokens?, if_neg nonblank]
    split
    · next failed =>
      rw [h] at failed
      cases failed
    · next read =>
      rw [h] at read
      cases read
      rfl

/-- A token is read back in front of others. -/
theorem tokens?_text {t : Token} (h : t.Legible) {rest : List Symbol}
    (ends : ∀ n, t = .number n → Closes rest) :
    tokens? (symbols t.text ++ rest) = (tokens? rest).map (t :: ·) :=
  tokens?_of_token? (token?_text h ends)

/-! ## Trees -/

/-- A tree whose strings and numerals are legible. -/
inductive Tree.Legible : Tree → Prop
  | null : Legible .null
  | bool (b : Bool) : Legible (.bool b)
  | number {n : Numeral} : n.Legible → Legible (.number n)
  | string {ps : List Piece} : (∀ p ∈ ps, p.Legible) → Legible (.string ps)
  | array {items : List Tree} : (∀ t ∈ items, Legible t) → Legible (.array items)
  | object {members : List (List Piece × Tree)} : (∀ m ∈ members, ∀ p ∈ m.1, p.Legible) →
      (∀ m ∈ members, Legible m.2) → Legible (.object members)

/-- The characters of some tokens, as symbols. -/
def texts (ts : List Token) : List Symbol :=
  symbols (ts.flatMap Token.text)

theorem texts_cons (t : Token) (ts : List Token) : texts (t :: ts) = symbols t.text ++ texts ts := by
  simp [texts]

theorem texts_append (ts us : List Token) : texts (ts ++ us) = texts ts ++ texts us := by
  simp [texts]

/-- What reads back in front of anything that closes a numeral. -/
def ReadsBack (ts : List Token) : Prop :=
  ∀ rest, Closes rest → tokens? (texts ts ++ rest) = (tokens? rest).map (ts ++ ·)

theorem readsBack_single {t : Token} (h : t.Legible) : ReadsBack [t] := by
  intro rest ends
  rw [texts_cons, List.append_assoc]
  exact tokens?_text h fun _ _ => ends

theorem readsBack_cons {t : Token} {ts : List Token} (h : t.Legible) (number : ∀ n, t ≠ .number n)
    (behind : ReadsBack ts) : ReadsBack (t :: ts) := by
  intro rest ends
  rw [texts_cons, List.append_assoc, tokens?_text h fun n same => absurd same (number n),
    behind rest ends, Option.map_map]
  rfl

theorem readsBack_append {ts us : List Token} {u : Token} (h : ReadsBack ts)
    (closes : u = .comma ∨ u = .closeArray ∨ u = .closeObject) (behind : ReadsBack (u :: us)) :
    ReadsBack (ts ++ u :: us) := by
  intro rest ends
  have first : Closes (texts (u :: us) ++ rest) := by
    rw [texts_cons, List.append_assoc]
    rcases closes with rfl | rfl | rfl
    · exact closes_char (.inl rfl) _
    · exact closes_char (.inr (.inl rfl)) _
    · exact closes_char (.inr (.inr rfl)) _
  rw [texts_append, List.append_assoc, h _ first, behind rest ends, Option.map_map]
  congr 1
  funext vs
  simp

theorem readsBack_items {items : List Tree} (h : ∀ t ∈ items, ReadsBack t.tokens) :
    ReadsBack (Tree.itemTokens items ++ [.closeArray]) := by
  have close : ReadsBack [.closeArray] := readsBack_single trivial
  match items with
  | [] => exact close
  | [t] => exact readsBack_append (h t List.mem_cons_self) (.inr (.inl rfl)) close
  | t :: u :: ts =>
    have behind : ReadsBack (Tree.itemTokens (u :: ts) ++ [.closeArray]) :=
      readsBack_items fun t' member => h t' (List.mem_cons_of_mem _ member)
    rw [Tree.itemTokens, List.append_assoc]
    exact readsBack_append (h t List.mem_cons_self) (.inl rfl)
      (readsBack_cons trivial (fun _ => Token.noConfusion) behind)

theorem readsBack_members {members : List (List Piece × Tree)}
    (keys : ∀ m ∈ members, ∀ p ∈ m.1, p.Legible) (h : ∀ m ∈ members, ReadsBack m.2.tokens) :
    ReadsBack (Tree.memberTokens members ++ [.closeObject]) := by
  have close : ReadsBack [.closeObject] := readsBack_single trivial
  have member {k : List Piece} {ts : List Token} (key : ∀ p ∈ k, p.Legible) (behind : ReadsBack ts) :
      ReadsBack (.string k :: .colon :: ts) :=
    readsBack_cons key (fun _ => Token.noConfusion) (readsBack_cons trivial (fun _ => Token.noConfusion) behind)
  match members with
  | [] => exact close
  | [(k, t)] =>
    exact member (keys _ List.mem_cons_self)
      (readsBack_append (h _ List.mem_cons_self) (.inr (.inr rfl)) close)
  | (k, t) :: m :: ms =>
    have behind : ReadsBack (Tree.memberTokens (m :: ms) ++ [.closeObject]) :=
      readsBack_members (fun m' later => keys m' (List.mem_cons_of_mem _ later))
        fun m' later => h m' (List.mem_cons_of_mem _ later)
    rw [Tree.memberTokens, List.cons_append, List.cons_append, List.append_assoc]
    exact member (keys _ List.mem_cons_self) (readsBack_append (h _ List.mem_cons_self) (.inl rfl)
      (readsBack_cons trivial (fun _ => Token.noConfusion) behind))

/-- The tokens of a legible tree read back. -/
theorem Tree.Legible.readsBack {t : Tree} (h : t.Legible) : ReadsBack t.tokens := by
  induction h with
  | null => exact readsBack_single trivial
  | bool b => exact readsBack_single trivial
  | number legible => exact readsBack_single legible
  | string legible => exact readsBack_single legible
  | array _ ih => exact readsBack_cons trivial (fun _ => Token.noConfusion) (readsBack_items ih)
  | object keys _ ih => exact readsBack_cons trivial (fun _ => Token.noConfusion) (readsBack_members keys ih)

/-- **The text of a legible tree is read as that tree.** -/
theorem Tree.parse?_text {t : Tree} (h : t.Legible) :
    Tree.parse? (Utf8.encode (t.tokens.flatMap Token.text)) = some t := by
  have all := h.readsBack [] closes_nil
  rw [List.append_nil, texts, symbols] at all
  rw [parse?, Utf8.decode_encode, all, tokens?]
  simpa using t.ofTokens?_tokens

end Outbox.Json
