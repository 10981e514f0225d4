import MarketData.Json.Syntax

/-!
# The strings that literals denote

A literal denotes the UTF-8 text of its characters. A unicode escape spells a UTF-16 code
unit, and two escapes that spell a surrogate pair are one character. A surrogate without
its partner is encoded like any other code point, so that no two code units are confused.
-/

namespace Json

open ByteText

/-- Value of a hexadecimal digit. -/
def hexDigit (b : UInt8) : Nat :=
  if isDigit b then b.toNat - 48 else if b ≤ 70 then b.toNat - 55 else b.toNat - 87

/-- The code unit that the digits of a unicode escape spell. -/
def codeUnit (a b c d : UInt8) : Nat :=
  ((hexDigit a * 16 + hexDigit b) * 16 + hexDigit c) * 16 + hexDigit d

/-- The character of a surrogate pair, if the two code units are one. -/
def surrogatePair? (high low : Nat) : Option Nat :=
  if 0xD800 ≤ high ∧ high < 0xDC00 ∧ 0xDC00 ≤ low ∧ low < 0xE000 then
    some (0x10000 + (high - 0xD800) * 0x400 + (low - 0xDC00))
  else none

/-- The bytes of a code point in UTF-8. -/
def utf8 (code : Nat) : Bytes :=
  if code < 0x80 then [.ofNat code]
  else if code < 0x800 then [.ofNat (0xC0 + code / 64), .ofNat (0x80 + code % 64)]
  else if code < 0x10000 then
    [.ofNat (0xE0 + code / 4096), .ofNat (0x80 + code / 64 % 64), .ofNat (0x80 + code % 64)]
  else
    [.ofNat (0xF0 + code / 262144), .ofNat (0x80 + code / 4096 % 64),
      .ofNat (0x80 + code / 64 % 64), .ofNat (0x80 + code % 64)]

/-- The string that a literal denotes. -/
def Literal.value : Literal → Bytes
  | [] => []
  | .plain b _ :: rest => b :: Literal.value rest
  | .escape letter _ :: rest => (simpleEscape? letter).toList ++ Literal.value rest
  | .unicode a b c d _ :: .unicode x y z w h :: rest =>
    match surrogatePair? (codeUnit a b c d) (codeUnit x y z w) with
    | some code => utf8 code ++ Literal.value rest
    | none => utf8 (codeUnit a b c d) ++ Literal.value (.unicode x y z w h :: rest)
  | .unicode a b c d _ :: rest => utf8 (codeUnit a b c d) ++ Literal.value rest

/-- A literal without backslashes denotes its own bytes. -/
theorem Literal.value_eq_text {l : Literal} (h : ∀ b ∈ l.text, b ≠ backslash) :
    l.value = l.text := by
  induction l with
  | nil => rfl
  | cons p l ih =>
    have hl : ∀ b ∈ Literal.text l, b ≠ backslash := by
      intro b hb
      exact h b (List.mem_append_right _ hb)
    cases p with
    | plain b hb =>
      rw [Literal.value, ih hl]
      rfl
    | escape letter hs => exact absurd rfl (h backslash (by simp [Literal.text, Piece.text]))
    | unicode x y z w hx => exact absurd rfl (h backslash (by simp [Literal.text, Piece.text]))

/-! ### Unicode escapes left as they are written -/

private theorem ne_of_isHexDigit {a b c d : UInt8} (h : ∀ x ∈ [a, b, c, d], isHexDigit x = true) :
    ∀ x ∈ [117, a, b, c, d], x ≠ quote ∧ x ≠ backslash := by
  have hhex : ∀ {x : UInt8}, isHexDigit x = true → x ≠ quote ∧ x ≠ backslash := by
    intro x hx
    constructor <;> rintro rfl <;> exact absurd hx (by decide)
  intro x hx
  rcases List.mem_cons.mp hx with rfl | hx
  · decide
  · exact hhex (h x hx)

/-- A piece, a unicode escape as the six characters that write it. -/
def Piece.asWritten : Piece → Literal
  | .unicode a b c d h =>
    .escape backslash (by decide) :: [117, a, b, c, d].pmap Piece.plain (ne_of_isHexDigit h)
  | p => [p]

/-- A literal, every unicode escape as the six characters that write it. -/
def Literal.asWritten (l : Literal) : Literal := l.flatMap Piece.asWritten

/-- No piece is a unicode escape. -/
def Literal.NoUnicode (l : Literal) : Prop := ∀ p ∈ l, ∀ a b c d h, p ≠ .unicode a b c d h

/-- A literal without unicode escapes is as it is written. -/
theorem Literal.asWritten_eq {l : Literal} (h : l.NoUnicode) : l.asWritten = l := by
  have hp : ∀ p ∈ l, p.asWritten = [p] := by
    intro p hp
    cases p with
    | plain b hb => rfl
    | escape letter hs => rfl
    | unicode a b c d hx => exact absurd rfl (h _ hp a b c d hx)
  rw [Literal.asWritten, List.flatMap_congr hp, List.flatMap_singleton']

end Json
