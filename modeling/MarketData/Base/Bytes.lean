import Mathlib.Data.List.Basic
import Mathlib.Data.List.TakeWhile
import Mathlib.Data.Nat.Digits.Defs
import Mathlib.Data.Nat.Digits.Lemmas

/-!
# Byte strings, scans and decimal numerals

A text is a list of bytes and a position counts bytes from its start. A scan that
advances a position reads the bytes left at that position; past the end nothing is
left and the position stays where it is.
-/

namespace ByteText

/-- A byte string. -/
abbrev Bytes := List UInt8

/-- The bytes of a literal. -/
def ascii (s : String) : Bytes := s.toByteArray.data.toList

/-- Distinct literals have distinct bytes. -/
theorem ascii_inj {s t : String} : ascii s = ascii t ↔ s = t := by
  constructor
  · intro h
    apply String.toByteArray_inj.mp
    exact ByteArray.ext (Array.toList_inj.mp h)
  · exact congrArg ascii

/-! ### Bytes with a role in the texts -/

/-- A line feed. -/
abbrev newline : UInt8 := 10
/-- A space. -/
abbrev blank : UInt8 := 32
/-- A double quote. -/
abbrev quote : UInt8 := 34
/-- A comma. -/
abbrev comma : UInt8 := 44
/-- A colon. -/
abbrev colon : UInt8 := 58
/-- An opening bracket. -/
abbrev openBracket : UInt8 := 91
/-- A backslash. -/
abbrev backslash : UInt8 := 92
/-- A closing bracket. -/
abbrev closeBracket : UInt8 := 93
/-- An opening brace. -/
abbrev openBrace : UInt8 := 123
/-- A closing brace. -/
abbrev closeBrace : UInt8 := 125

/-- Insignificant whitespace: blank, line feed, carriage return or tab. -/
def isSpace (b : UInt8) : Bool := b == 32 || b == 10 || b == 13 || b == 9

/-- A decimal digit. -/
def isDigit (b : UInt8) : Bool := 48 ≤ b && b ≤ 57

/-- A check of every element of a list walks the list, even over a finite type. -/
instance (priority := high) decidableAll {α : Type} {p : α → Prop} [DecidablePred p]
    (values : List α) : Decidable (∀ a ∈ values, p a) := List.decidableBAll p values

/-- A property of the value of an option is checked on the value, if there is one. -/
instance (priority := high) decidableSome {α : Type} {p : α → Prop} [DecidablePred p]
    (value : Option α) : Decidable (∀ a ∈ value, p a) :=
  match value with
  | none => isTrue (by simp)
  | some a => decidable_of_iff (p a) (by simp)

/-! ### Positions -/

/-- Advance a position over the bytes that satisfy `p`. -/
def skipWhile (p : UInt8 → Bool) (text : Bytes) (position : Nat) : Nat :=
  position + ((text.drop position).takeWhile p).length

/-- The checked slice of `count` bytes; a start past the end throws. -/
def substr? (text : Bytes) (position count : Nat) : Option Bytes :=
  if text.length < position then none else some ((text.drop position).take count)

/-- What is left at the end of a prefix is what follows the prefix. -/
theorem drop_before (before after : Bytes) : (before ++ after).drop before.length = after :=
  List.drop_left

/-- A scan stops after a run of matching bytes that is followed by no matching byte. -/
theorem skipWhile_run {p : UInt8 → Bool} {text run after : Bytes} {position : Nat}
    (ht : text.drop position = run ++ after) (hr : ∀ b ∈ run, p b = true)
    (ha : ∀ b ∈ after.head?, p b = false) :
    skipWhile p text position = position + run.length := by
  have hn : after.takeWhile p = [] := by
    cases after with
    | nil => rfl
    | cons b rest => simp [ha b rfl]
  rw [skipWhile, ht, List.takeWhile_append_of_pos hr, hn, List.append_nil]

/-- A scan at a byte that does not match stays where it is. -/
theorem skipWhile_stop {p : UInt8 → Bool} {text : Bytes} {position : Nat}
    (h : ∀ b ∈ (text.drop position).head?, p b = false) :
    skipWhile p text position = position := by
  have hnil : text.drop position = [] ++ text.drop position := rfl
  simpa using skipWhile_run hnil (by simp) h

/-- A scan never moves back. -/
theorem le_skipWhile (p : UInt8 → Bool) (text : Bytes) (position : Nat) :
    position ≤ skipWhile p text position := Nat.le_add_right _ _

/-- A scan stays inside the text. -/
theorem skipWhile_le {p : UInt8 → Bool} {text : Bytes} {position : Nat}
    (h : position ≤ text.length) : skipWhile p text position ≤ text.length := by
  have hle := (List.takeWhile_prefix (l := text.drop position) p).length_le
  rw [List.length_drop] at hle
  rw [skipWhile]
  omega

/-- The byte at which a scan stops. -/
theorem getElem?_skipWhile (p : UInt8 → Bool) (text : Bytes) (position : Nat) :
    text[skipWhile p text position]? = ((text.drop position).dropWhile p).head? := by
  rw [skipWhile, ← List.getElem?_drop]
  conv_lhs => rw [← List.takeWhile_append_dropWhile (p := p) (l := text.drop position)]
  rw [List.getElem?_append_right (by simp), List.takeWhile_append_dropWhile, Nat.sub_self,
    List.head?_eq_getElem?]

/-- A second scan does not move. -/
theorem skipWhile_skipWhile (p : UInt8 → Bool) (text : Bytes) (position : Nat) :
    skipWhile p text (skipWhile p text position) = skipWhile p text position := by
  apply skipWhile_stop
  intro b hb
  have hstop := List.head?_dropWhile_not p (text.drop position)
  rw [List.head?_drop, getElem?_skipWhile, Option.mem_def] at hb
  rw [hb] at hstop
  exact hstop

/-- A scan reaches the end of the text exactly when all that is left matches. -/
theorem length_le_skipWhile {p : UInt8 → Bool} {text : Bytes} {position : Nat} :
    text.length ≤ skipWhile p text position ↔ ∀ b ∈ text.drop position, p b = true := by
  have hprefix := List.takeWhile_prefix (l := text.drop position) p
  have hle := hprefix.length_le
  rw [← List.takeWhile_eq_self_iff, skipWhile]
  constructor
  · intro h
    apply hprefix.eq_of_length
    rw [List.length_drop] at hle ⊢
    omega
  · intro h
    rw [h, List.length_drop]
    omega

/-- What is left at a position stands behind a prefix of that length. -/
theorem exists_before {text tail : Bytes} {position : Nat} (h : text.drop position = tail)
    (hne : tail ≠ []) : ∃ before, text = before ++ tail ∧ before.length = position := by
  refine ⟨text.take position, by rw [← h, List.take_append_drop], ?_⟩
  rw [List.length_take, Nat.min_eq_left]
  by_contra hlt
  rw [List.drop_of_length_le (by omega)] at h
  exact hne h.symm

/-- Behind a byte the rest is left. -/
theorem drop_next {text rest : Bytes} {position : Nat} {c : UInt8}
    (h : text.drop position = c :: rest) : text.drop (position + 1) = rest := by
  rw [← List.drop_drop, h]
  rfl

/-- A text is as long as what is before a byte, the byte and what is behind it. -/
theorem length_of_drop {text rest : Bytes} {position : Nat} {c : UInt8}
    (h : text.drop position = c :: rest) : position + 1 + rest.length = text.length := by
  have hlength := congrArg List.length h
  rw [List.length_drop, List.length_cons] at hlength
  omega

/-- A byte of a text stays where it is when the text goes on. -/
theorem drop_append_cons {text rest : Bytes} {position : Nat} {c : UInt8} (more : Bytes)
    (h : text.drop position = c :: rest) : (text ++ more).drop position = c :: (rest ++ more) := by
  have hlength := length_of_drop h
  rw [List.drop_append_of_le_length (by omega), h, List.cons_append]

/-- A scan that stops inside a text stops there when the text goes on. -/
theorem skipWhile_append {p : UInt8 → Bool} {text : Bytes} {position : Nat} (more : Bytes)
    (h : skipWhile p text position < text.length) :
    skipWhile p (text ++ more) position = skipWhile p text position := by
  have hle := le_skipWhile p text position
  have hne : ((text.drop position).takeWhile p).length ≠ (text.drop position).length := by
    rw [List.length_drop]
    rw [skipWhile] at h
    omega
  rw [skipWhile, skipWhile, List.drop_append_of_le_length (by omega), List.takeWhile_append,
    if_neg hne]

/-! ### Decimal numerals -/

/-- The digit byte of a number below ten. -/
def digitByte (d : Nat) : UInt8 := UInt8.ofNat (48 + d)

/-- The number a digit byte stands for. -/
def digitValue (b : UInt8) : Nat := b.toNat - 48

/-- Decimal numeral without leading zeros. -/
def decimal (n : Nat) : Bytes :=
  if n = 0 then [48] else ((Nat.digits 10 n).map digitByte).reverse

/-- Decimal numeral padded with zeros to at least `width` digits. -/
def paddedDecimal (width n : Nat) : Bytes :=
  List.replicate (width - (decimal n).length) 48 ++ decimal n

/-- Value of a run of digits read from left to right. -/
def numeral (digits : Bytes) : Nat := digits.foldl (fun n b ↦ 10 * n + digitValue b) 0

/-- A digit byte stands for its digit. -/
theorem digitValue_digitByte {d : Nat} (h : d < 10) : digitValue (digitByte d) = d := by
  rw [digitValue, digitByte, UInt8.toNat_ofNat_of_lt' (by simp [UInt8.size]; omega)]
  omega

/-- A digit byte is a digit. -/
theorem isDigit_digitByte {d : Nat} (h : d < 10) : isDigit (digitByte d) = true := by
  simp only [isDigit, digitByte, Bool.and_eq_true, decide_eq_true_eq, UInt8.le_iff_toNat_le]
  rw [UInt8.toNat_ofNat_of_lt' (by simp [UInt8.size]; omega)]
  simp
  omega

private theorem numeral_acc (digits : Bytes) (n : Nat) :
    digits.foldl (fun n b ↦ 10 * n + digitValue b) n =
      10 ^ digits.length * n + numeral digits := by
  induction digits generalizing n with
  | nil => simp [numeral]
  | cons b rest ih =>
    rw [numeral, List.foldl_cons, List.foldl_cons, ih, ih (10 * 0 + digitValue b),
      List.length_cons, pow_succ]
    ring

/-- Appending digits shifts the earlier ones. -/
theorem numeral_append (a b : Bytes) :
    numeral (a ++ b) = 10 ^ b.length * numeral a + numeral b := by
  rw [numeral, List.foldl_append, numeral_acc]
  rfl

private theorem numeral_digits (ds : List Nat) (h : ∀ d ∈ ds, d < 10) :
    numeral (ds.map digitByte).reverse = Nat.ofDigits 10 ds := by
  induction ds with
  | nil => rfl
  | cons d ds ih =>
    have hd : d < 10 := h d (by simp)
    rw [List.map_cons, List.reverse_cons, numeral_append, ih (fun e he ↦ h e (by simp [he])),
      Nat.ofDigits_cons]
    simp [numeral, digitValue_digitByte hd]
    ring

/-- A numeral denotes the number it was written for. -/
theorem numeral_decimal (n : Nat) : numeral (decimal n) = n := by
  unfold decimal
  split
  · next h => rw [h]; rfl
  · rw [numeral_digits _ (fun d hd ↦ Nat.digits_lt_base (by decide) hd), Nat.ofDigits_digits]

/-- A numeral consists of digits. -/
theorem isDigit_of_mem_decimal {n : Nat} {b : UInt8} (h : b ∈ decimal n) : isDigit b = true := by
  unfold decimal at h
  split at h
  · simp only [List.mem_singleton] at h
    subst h
    rfl
  · obtain ⟨d, hd, rfl⟩ := List.mem_map.mp (List.mem_reverse.mp h)
    exact isDigit_digitByte (Nat.digits_lt_base (by decide) hd)

/-- A numeral has at least one digit. -/
theorem decimal_ne_nil (n : Nat) : decimal n ≠ [] := by
  unfold decimal
  split
  · simp
  · next h => simpa using Nat.digits_ne_nil_iff_ne_zero.mpr h

/-- A numeral of more than one digit does not start with a zero. -/
theorem decimal_head (n : Nat) : decimal n = [48] ∨ ∃ b rest, decimal n = b :: rest ∧ b ≠ 48 := by
  by_cases h : n = 0
  · exact .inl (by simp [decimal, h])
  · right
    have hne : Nat.digits 10 n ≠ [] := Nat.digits_ne_nil_iff_ne_zero.mpr h
    refine ⟨digitByte ((Nat.digits 10 n).getLast hne),
      ((Nat.digits 10 n).dropLast.map digitByte).reverse, ?_, ?_⟩
    · conv_lhs => rw [decimal, if_neg h, ← List.dropLast_append_getLast hne]
      simp
    · intro hz
      have hl : (Nat.digits 10 n).getLast hne < 10 :=
        Nat.digits_lt_base (by decide) (List.getLast_mem hne)
      have hv := digitValue_digitByte hl
      rw [hz] at hv
      exact Nat.getLast_digit_ne_zero 10 h hv.symm

private theorem numeral_replicate_zero (k : Nat) : numeral (List.replicate k 48) = 0 := by
  induction k with
  | zero => rfl
  | succ k ih =>
    rw [List.replicate_succ', numeral_append, ih]
    rfl

/-- Padding with zeros does not change the denoted number. -/
theorem numeral_paddedDecimal (width n : Nat) : numeral (paddedDecimal width n) = n := by
  rw [paddedDecimal, numeral_append, numeral_replicate_zero, numeral_decimal, Nat.mul_zero,
    Nat.zero_add]

/-- A padded numeral consists of digits. -/
theorem isDigit_of_mem_paddedDecimal {width n : Nat} {b : UInt8}
    (h : b ∈ paddedDecimal width n) : isDigit b = true := by
  rcases List.mem_append.mp h with h | h
  · rw [List.eq_of_mem_replicate h]
    rfl
  · exact isDigit_of_mem_decimal h

/-- A padded numeral has exactly the requested width when the number fits. -/
theorem length_paddedDecimal {width n : Nat} (hw : 0 < width) (h : n < 10 ^ width) :
    (paddedDecimal width n).length = width := by
  have hl : (decimal n).length ≤ width := by
    unfold decimal
    split
    · exact hw
    · next hz =>
      rw [List.length_reverse, List.length_map]
      exact (Nat.digits_length_le_iff (by decide) n).mpr h
  rw [paddedDecimal, List.length_append, List.length_replicate]
  omega

end ByteText
