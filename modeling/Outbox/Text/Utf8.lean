/-!
# UTF-8 as a stream of symbols

A byte string is read as a list of `Symbol`s: a well-formed UTF-8 sequence is one character, and a
byte that belongs to no such sequence stands for itself. Nothing is refused here, so a reader may
skip text that is not valid UTF-8 and refuse it only where it needs the text.

* `Utf8.encode` writes characters as bytes;
* `Utf8.decode` reads bytes as symbols, overlong forms, surrogates and numbers above `0x10FFFF`
  being no characters;
* `Utf8.text?` reads bytes that must be well formed throughout.
-/

namespace Outbox.Utf8

/-- One unit of a byte string read as UTF-8: a character, or a byte that is part of none. -/
inductive Symbol where
  | char (c : Char)
  | stray (b : UInt8)
deriving DecidableEq, Repr

/-- The bytes of a text. -/
def encode (cs : List Char) : List UInt8 :=
  cs.flatMap String.utf8EncodeChar

@[simp] theorem encode_nil : encode [] = [] := rfl

@[simp] theorem encode_cons (c : Char) (cs : List Char) :
    encode (c :: cs) = String.utf8EncodeChar c ++ encode cs := by
  simp [encode]

@[simp] theorem encode_append (cs ds : List Char) : encode (cs ++ ds) = encode cs ++ encode ds := by
  simp [encode]

/-! ### The shapes of a character -/

/-- Whether `b` lies in the closed range from `lo` to `hi`. -/
def within (lo hi b : UInt8) : Bool :=
  lo ≤ b && b ≤ hi

/-- Whether `b` can stand behind the first byte of a character. -/
def isTail (b : UInt8) : Bool :=
  within 0x80 0xBF b

/-- Whether two bytes are the character of a two-byte form. -/
def isPair (b₀ b₁ : UInt8) : Bool :=
  within 0xC2 0xDF b₀ && isTail b₁

/-- Whether three bytes are the character of a three-byte form. The second byte is narrowed so that
no overlong form and no surrogate passes. -/
def isTriple (b₀ b₁ b₂ : UInt8) : Bool :=
  isTail b₂ &&
    ((b₀ == 0xE0 && within 0xA0 0xBF b₁) || (within 0xE1 0xEC b₀ && isTail b₁) ||
      (b₀ == 0xED && within 0x80 0x9F b₁) || (within 0xEE 0xEF b₀ && isTail b₁))

/-- Whether four bytes are the character of a four-byte form. The second byte is narrowed so that
no overlong form and nothing above `0x10FFFF` passes. -/
def isQuad (b₀ b₁ b₂ b₃ : UInt8) : Bool :=
  isTail b₂ && isTail b₃ &&
    ((b₀ == 0xF0 && within 0x90 0xBF b₁) || (within 0xF1 0xF3 b₀ && isTail b₁) ||
      (b₀ == 0xF4 && within 0x80 0x8F b₁))

/-- The six bits that a byte behind the first one carries. -/
def tailBits (b : UInt8) : Nat :=
  b.toNat % 64

/-- The character of a two-byte form. -/
def pairChar (b₀ b₁ : UInt8) : Char :=
  Char.ofNat (b₀.toNat % 32 * 64 + tailBits b₁)

/-- The character of a three-byte form. -/
def tripleChar (b₀ b₁ b₂ : UInt8) : Char :=
  Char.ofNat (b₀.toNat % 16 * 4096 + tailBits b₁ * 64 + tailBits b₂)

/-- The character of a four-byte form. -/
def quadChar (b₀ b₁ b₂ b₃ : UInt8) : Char :=
  Char.ofNat (b₀.toNat % 8 * 262144 + tailBits b₁ * 4096 + tailBits b₂ * 64 + tailBits b₃)

/-- The symbol of a byte that starts no longer form. -/
def single (b : UInt8) : Symbol :=
  if b < 0x80 then .char (Char.ofNat b.toNat) else .stray b

/-! ### Reading -/

/-- The symbol that starts with `b₀`, and how many of the bytes behind it it takes. A byte that is
not there counts as zero, which fits no longer form. -/
def lead (b₀ : UInt8) (rest : List UInt8) : Symbol × Nat :=
  let b₁ := rest.getD 0 0
  let b₂ := rest.getD 1 0
  let b₃ := rest.getD 2 0
  if isPair b₀ b₁ then (.char (pairChar b₀ b₁), 1)
  else if isTriple b₀ b₁ b₂ then (.char (tripleChar b₀ b₁ b₂), 2)
  else if isQuad b₀ b₁ b₂ b₃ then (.char (quadChar b₀ b₁ b₂ b₃), 3)
  else (single b₀, 0)

/-- The symbols of a byte string whose first `skip` bytes belong to a symbol already given. -/
def decodeAfter : (skip : Nat) → List UInt8 → List Symbol
  | _, [] => []
  | skip + 1, _ :: rest => decodeAfter skip rest
  | 0, b :: rest => (lead b rest).1 :: decodeAfter (lead b rest).2 rest

/-- The symbols of a byte string. -/
def decode (bytes : List UInt8) : List Symbol :=
  decodeAfter 0 bytes

theorem decodeAfter_eq_drop (skip : Nat) (bytes : List UInt8) :
    decodeAfter skip bytes = decode (bytes.drop skip) := by
  induction skip generalizing bytes with
  | zero => rfl
  | succ skip ih =>
    cases bytes with
    | nil => rfl
    | cons b rest => exact ih rest

@[simp] theorem decode_nil : decode [] = [] := rfl

theorem decode_cons (b : UInt8) (rest : List UInt8) :
    decode (b :: rest) = (lead b rest).1 :: decode (rest.drop (lead b rest).2) := by
  rw [← decodeAfter_eq_drop]
  rfl

/-- The character a symbol stands for, if it is one. -/
def Symbol.char? : Symbol → Option Char
  | .char c => some c
  | .stray _ => none

/-- The text that a byte string holds, if all of it is well formed. -/
def text? (bytes : List UInt8) : Option String :=
  ((decode bytes).mapM Symbol.char?).map String.ofList

end Outbox.Utf8
