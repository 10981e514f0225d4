import MarketData.Base.Bytes

/-!
# JSON texts as derivation trees

A tree records every byte of a text: tokens, string pieces and the whitespace between
them. Scalar tokens and string pieces are only required to be delimited, as a reader
that skips them needs; `Strict` adds what RFC 8259 asks of them, so that a text is
well formed exactly when a strict tree spells it. Bytes above 127 are taken as they are.
-/

namespace Json

open ByteText

/-! ### Leaves -/

/-- A run of insignificant whitespace. -/
abbrev Space : Type := {bytes : Bytes // ∀ b ∈ bytes, isSpace b = true}

/-- A byte that ends a scalar token: whitespace, a comma or a closing delimiter. -/
def isDelimiter (b : UInt8) : Bool :=
  b == comma || b == closeBrace || b == closeBracket || isSpace b

/-- A byte that a scalar token may contain. -/
def isScalarByte (b : UInt8) : Bool :=
  !(isDelimiter b || b == quote || b == openBrace || b == openBracket)

/-- A scalar token: anything that is neither a string nor a container. -/
abbrev Token : Type := {bytes : Bytes // bytes ≠ [] ∧ ∀ b ∈ bytes, isScalarByte b = true}

/-- A hexadecimal digit. -/
def isHexDigit (b : UInt8) : Bool :=
  isDigit b || (97 ≤ b && b ≤ 102) || (65 ≤ b && b ≤ 70)

/-- The byte an escape letter stands for, the unicode escape apart. -/
def simpleEscape? (letter : UInt8) : Option UInt8 :=
  if letter = quote then some quote
  else if letter = backslash then some backslash
  else if letter = 47 then some 47
  else if letter = 98 then some 8
  else if letter = 102 then some 12
  else if letter = 110 then some 10
  else if letter = 114 then some 13
  else if letter = 116 then some 9
  else none

/-- One unit of the text between the quotes of a string. -/
inductive Piece where
  | plain (b : UInt8) (h : b ≠ quote ∧ b ≠ backslash)
  | escape (letter : UInt8) (h : (simpleEscape? letter).isSome = true)
  | unicode (a b c d : UInt8) (h : ∀ x ∈ [a, b, c, d], isHexDigit x = true)

/-- The bytes of a piece. -/
def Piece.text : Piece → Bytes
  | .plain b _ => [b]
  | .escape letter _ => [backslash, letter]
  | .unicode a b c d _ => [backslash, 117, a, b, c, d]

/-- The contents of a string literal. -/
abbrev Literal := List Piece

/-- The bytes between the quotes. -/
def Literal.text (l : Literal) : Bytes := l.flatMap Piece.text

/-- The literal with its quotes. -/
def Literal.quoted (l : Literal) : Bytes := quote :: (l.text ++ [quote])

/-- A member name with the whitespace around it and around its colon. -/
structure Name where
  before : Space
  key : Literal
  gap : Space
  after : Space

/-- The bytes of a member up to its value. -/
def Name.text (n : Name) : Bytes :=
  n.before.val ++ (n.key.quoted ++ (n.gap.val ++ colon :: n.after.val))

/-! ### Trees -/

mutual

/-- A value. -/
inductive Value where
  | scalar (token : Token)
  | string (literal : Literal)
  | emptyArray (inside : Space)
  | array (items : Items)
  | emptyObject (inside : Space)
  | object (members : Members)

/-- The values of an array, each with the whitespace around it. -/
inductive Items where
  | last (before : Space) (value : Value) (after : Space)
  | cons (before : Space) (value : Value) (after : Space) (rest : Items)

/-- The members of an object. -/
inductive Members where
  | last (name : Name) (value : Value) (after : Space)
  | cons (name : Name) (value : Value) (after : Space) (rest : Members)

end

mutual

/-- The bytes of a value. -/
def Value.text : Value → Bytes
  | .scalar token => token.val
  | .string literal => literal.quoted
  | .emptyArray inside => openBracket :: (inside.val ++ [closeBracket])
  | .array items => openBracket :: (items.text ++ [closeBracket])
  | .emptyObject inside => openBrace :: (inside.val ++ [closeBrace])
  | .object members => openBrace :: (members.text ++ [closeBrace])

/-- The bytes between the brackets of an array. -/
def Items.text : Items → Bytes
  | .last before value after => before.val ++ (value.text ++ after.val)
  | .cons before value after rest =>
    before.val ++ (value.text ++ (after.val ++ comma :: rest.text))

/-- The bytes between the braces of an object. -/
def Members.text : Members → Bytes
  | .last name value after => name.text ++ (value.text ++ after.val)
  | .cons name value after rest =>
    name.text ++ (value.text ++ (after.val ++ comma :: rest.text))

end

/-- A text: one value between whitespace. -/
structure Document where
  before : Space
  root : Value
  after : Space

/-- The bytes of a document. -/
def Document.text (d : Document) : Bytes := d.before.val ++ (d.root.text ++ d.after.val)

/-- The value is an object. -/
def Value.isObject : Value → Bool
  | .object _ => true
  | .emptyObject _ => true
  | _ => false

/-! ### Well-formed texts -/

/-- `int = zero / ( digit1-9 *DIGIT )` -/
def IsWhole (t : Bytes) : Prop :=
  t = [48] ∨ ∃ b rest, t = b :: rest ∧ b ≠ 48 ∧ ∀ c ∈ t, isDigit c = true

/-- `frac = decimal-point 1*DIGIT`, optional. -/
def IsFraction (t : Bytes) : Prop :=
  t = [] ∨ ∃ digits, t = 46 :: digits ∧ digits ≠ [] ∧ ∀ c ∈ digits, isDigit c = true

/-- `exp = e [ minus / plus ] 1*DIGIT`, optional. -/
def IsExponent (t : Bytes) : Prop :=
  t = [] ∨ ∃ letter sign digits, t = letter :: (sign ++ digits) ∧ (letter = 101 ∨ letter = 69) ∧
    (sign = [] ∨ sign = [45] ∨ sign = [43]) ∧ digits ≠ [] ∧ ∀ c ∈ digits, isDigit c = true

/-- `number = [ minus ] int [ frac ] [ exp ]` -/
def IsNumber (t : Bytes) : Prop :=
  ∃ sign whole fraction exponent, t = sign ++ whole ++ fraction ++ exponent ∧
    (sign = [] ∨ sign = [45]) ∧ IsWhole whole ∧ IsFraction fraction ∧ IsExponent exponent

/-- The scalar tokens of the grammar: the three literal names and the numbers. -/
def Token.Strict (t : Token) : Prop :=
  t.val = ascii "null" ∨ t.val = ascii "true" ∨ t.val = ascii "false" ∨ IsNumber t.val

/-- Control characters may only stand in a string as escapes. -/
def Piece.Strict : Piece → Prop
  | .plain b _ => 32 ≤ b
  | _ => True

/-- Every piece is one of the grammar. -/
def Literal.Strict (l : Literal) : Prop := ∀ p ∈ l, p.Strict

mutual

/-- Every token and every piece below a value is one of the grammar. -/
def Value.Strict : Value → Prop
  | .scalar token => token.Strict
  | .string literal => literal.Strict
  | .emptyArray _ => True
  | .array items => items.Strict
  | .emptyObject _ => True
  | .object members => members.Strict

/-- Every item is strict. -/
def Items.Strict : Items → Prop
  | .last _ value _ => value.Strict
  | .cons _ value _ rest => value.Strict ∧ rest.Strict

/-- Every name and every value is strict. -/
def Members.Strict : Members → Prop
  | .last name value _ => name.key.Strict ∧ value.Strict
  | .cons name value _ rest => name.key.Strict ∧ value.Strict ∧ rest.Strict

end

/-- A text of RFC 8259 whose root is an object. -/
def IsObjectText (text : Bytes) : Prop :=
  ∃ d : Document, d.text = text ∧ d.root.Strict ∧ d.root.isObject = true

/-! ### What follows and what starts a value -/

/-- The text ends here or goes on with a byte that ends a scalar token. -/
def Delimited (after : Bytes) : Prop := ∀ b ∈ after.head?, isDelimiter b = true

/-- The end of a text delimits. -/
theorem delimited_nil : Delimited [] := by simp [Delimited]

/-- A delimiter delimits. -/
theorem delimited_cons {b : UInt8} (h : isDelimiter b = true) (rest : Bytes) :
    Delimited (b :: rest) := by simpa [Delimited] using h

/-- Whitespace before a delimited text keeps it delimited. -/
theorem Space.delimited_append (w : Space) {after : Bytes} (h : Delimited after) :
    Delimited (w.val ++ after) := by
  rcases w with ⟨_ | ⟨b, rest⟩, hw⟩
  · exact h
  · exact delimited_cons (by simp [isDelimiter, hw b (by simp)]) _

/-- A scalar byte does not end a token. -/
theorem isDelimiter_of_isScalarByte {b : UInt8} (h : isScalarByte b = true) :
    isDelimiter b = false := by
  simp only [isScalarByte, Bool.not_eq_true', Bool.or_eq_false_iff] at h
  exact h.1.1.1

/-- A byte that is no delimiter is no whitespace. -/
theorem isSpace_of_not_isDelimiter {b : UInt8} (h : isDelimiter b = false) :
    isSpace b = false := by
  simp only [isDelimiter, Bool.or_eq_false_iff] at h
  exact h.2

/-- A token starts with a scalar byte. -/
theorem Token.text_head (t : Token) : ∃ b rest, t.val = b :: rest ∧ isScalarByte b = true := by
  obtain ⟨b, rest, h⟩ := List.exists_cons_of_ne_nil t.property.1
  exact ⟨b, rest, h, t.property.2 b (by simp [h])⟩

/-- A value has a first byte, which neither delimits nor is whitespace. -/
theorem Value.text_head (v : Value) :
    ∃ b rest, v.text = b :: rest ∧ isDelimiter b = false := by
  cases v with
  | scalar t =>
    obtain ⟨b, rest, h, hb⟩ := Token.text_head t
    exact ⟨b, rest, h, isDelimiter_of_isScalarByte hb⟩
  | string l => exact ⟨quote, _, rfl, by decide⟩
  | emptyArray w => exact ⟨openBracket, _, rfl, by decide⟩
  | array items => exact ⟨openBracket, _, rfl, by decide⟩
  | emptyObject w => exact ⟨openBrace, _, rfl, by decide⟩
  | object members => exact ⟨openBrace, _, rfl, by decide⟩

private theorem ne_of_isScalarByte {b c : UInt8} (hb : isScalarByte b = true)
    (hc : isScalarByte c = false) : b ≠ c := by
  rintro rfl
  rw [hb] at hc
  cases hc

/-- Only a string starts with a quote. -/
theorem Value.head_ne_quote {v : Value} (h : ∀ l, v ≠ .string l) :
    ∃ b rest, v.text = b :: rest ∧ b ≠ quote := by
  cases v with
  | scalar t =>
    obtain ⟨b, rest, ht, hb⟩ := Token.text_head t
    exact ⟨b, rest, ht, ne_of_isScalarByte hb (by decide)⟩
  | string l => exact absurd rfl (h l)
  | emptyArray w => exact ⟨openBracket, _, rfl, by decide⟩
  | array items => exact ⟨openBracket, _, rfl, by decide⟩
  | emptyObject w => exact ⟨openBrace, _, rfl, by decide⟩
  | object members => exact ⟨openBrace, _, rfl, by decide⟩

/-- A value starts with a brace exactly when it is an object. -/
theorem Value.head_openBrace (v : Value) :
    ∃ b rest, v.text = b :: rest ∧ (b = openBrace ↔ v.isObject = true) := by
  cases v with
  | scalar t =>
    obtain ⟨b, rest, ht, hb⟩ := Token.text_head t
    exact ⟨b, rest, ht, iff_of_false (ne_of_isScalarByte hb (by decide)) Bool.false_ne_true⟩
  | string l => exact ⟨quote, _, rfl, iff_of_false (by decide) Bool.false_ne_true⟩
  | emptyArray w => exact ⟨openBracket, _, rfl, iff_of_false (by decide) Bool.false_ne_true⟩
  | array items => exact ⟨openBracket, _, rfl, iff_of_false (by decide) Bool.false_ne_true⟩
  | emptyObject w => exact ⟨openBrace, _, rfl, iff_of_true rfl rfl⟩
  | object members => exact ⟨openBrace, _, rfl, iff_of_true rfl rfl⟩

/-- Skipping whitespace in front of a value reaches the value. -/
theorem skipWhile_space {text after : Bytes} {position : Nat} (w : Space)
    (h : text.drop position = w.val ++ after) (ha : ∀ b ∈ after.head?, isSpace b = false) :
    skipWhile isSpace text position = position + w.val.length :=
  skipWhile_run h w.property ha

/-- A value does not start with whitespace. -/
theorem Value.head_not_space (v : Value) (after : Bytes) :
    ∀ b ∈ (v.text ++ after).head?, isSpace b = false := by
  obtain ⟨b, rest, hv, hb⟩ := v.text_head
  simpa [hv] using isSpace_of_not_isDelimiter hb

end Json
