import MarketData.Base.Checked

/-!
# Numbers from arguments

`strtoull` in base ten, and `std::stoull` and `std::stod`, which throw their own name when nothing
is converted or the result is out of range. They tell how many bytes they consumed. A text that is
consumed as a whole is blanks, a sign and a numeral.
-/

namespace Cpp

open ByteText Ieee

/-- What `strtoull` reports: the value, the end of the text it consumed and `ERANGE`. -/
structure IntegerConversion where
  value : UInt64
  consumed : ℕ
  rangeError : Bool
deriving DecidableEq

/-- The C function `strtoull`: a minus negates modulo `2 ^ 64`. -/
def strtoull (text : Bytes) : IntegerConversion :=
  let blanks := (text.takeWhile isSpaceC).length
  let sign := scanSign (text.drop blanks)
  let start := blanks + sign.2
  let digits := (text.drop start).takeWhile isDigit
  let magnitude := UInt64.ofNat (numeral digits)
  if digits = [] then ⟨0, 0, false⟩
  else if numeral digits < 2 ^ 64 then
    ⟨if sign.1 then -magnitude else magnitude, start + digits.length, false⟩
  else ⟨UInt64.ofNat (2 ^ 64 - 1), start + digits.length, true⟩

/-- The C function `strtoul`, where `unsigned long` has 64 bits. -/
def strtoul (text : Bytes) : IntegerConversion := strtoull text

/-- What both functions do with a conversion. -/
def stoa {α : Type} (name : Bytes) (value : α) (consumed : ℕ) (rangeError : Bool) :
    Checked (α × ℕ) := do
  throwUnless (consumed ≠ 0) name
  throwUnless (rangeError = false) name
  .ok (value, consumed)

/-- `std::stoull`: the word that `strtoull` finds and how much of the text it took; without digits
or out of range it throws. -/
def stoull (text : Bytes) : Checked (UInt64 × ℕ) :=
  let conversion := strtoull text
  stoa (ascii "stoull") conversion.value conversion.consumed conversion.rangeError

/-- `std::stod`: the number that `strtod` finds and how much of the text it took; without a
numeral or out of range it throws. -/
def stod (text : Bytes) : Checked (Double × ℕ) :=
  let conversion := strtod text
  stoa (ascii "stod") conversion.value conversion.consumed conversion.rangeError

example : stoull (ascii " -1x") = .ok (UInt64.ofNat (2 ^ 64 - 1), 3) := by decide

/-! ### Texts that are consumed as a whole -/

/-- A sign in front of a numeral. -/
def IsSign (negative : Bool) (sign : Bytes) : Prop :=
  if negative then sign = [45] else sign = [] ∨ sign = [43]

/-- The text is blanks, a sign and a decimal numeral of the number. -/
def SpellsInteger (text : Bytes) (negative : Bool) (n : ℕ) : Prop :=
  ∃ blanks sign digits, text = blanks ++ (sign ++ digits) ∧
    (∀ b ∈ blanks, isSpaceC b = true) ∧ IsSign negative sign ∧ digits ≠ [] ∧
    (∀ b ∈ digits, isDigit b = true) ∧ numeral digits = n

/-- The word for a signed number: a minus negates modulo `2 ^ 64`. -/
def wordOf (negative : Bool) (n : ℕ) : UInt64 :=
  if negative then -UInt64.ofNat n else UInt64.ofNat n

/-- A sign is scanned in front of a byte that is none. -/
theorem scanSign_append {negative : Bool} {sign body : Bytes} (hsign : IsSign negative sign)
    (hbody : ∀ b ∈ body.head?, b ≠ 45 ∧ b ≠ 43) :
    scanSign (sign ++ body) = (negative, sign.length) := by
  cases negative with
  | true =>
    obtain rfl : sign = [45] := hsign
    rfl
  | false =>
    rcases (hsign : sign = [] ∨ sign = [43]) with rfl | rfl
    · cases body with
      | nil => rfl
      | cons b rest =>
        obtain ⟨hminus, hplus⟩ := hbody b rfl
        simp [scanSign, hminus, hplus]
    · rfl

/-- Blanks are taken up to a sign or a body without blanks. -/
theorem takeWhile_blanks {negative : Bool} {blanks sign body : Bytes}
    (hblanks : ∀ b ∈ blanks, isSpaceC b = true) (hsign : IsSign negative sign)
    (hbody : ∀ b ∈ body.head?, isSpaceC b = false) :
    (blanks ++ (sign ++ body)).takeWhile isSpaceC = blanks := by
  have hhead : (sign ++ body).takeWhile isSpaceC = [] := by
    have hnil : body.takeWhile isSpaceC = [] := by
      cases body with
      | nil => rfl
      | cons b rest => simp [hbody b rfl]
    cases negative with
    | true =>
      obtain rfl : sign = [45] := hsign
      rfl
    | false =>
      rcases (hsign : sign = [] ∨ sign = [43]) with rfl | rfl
      · exact hnil
      · rfl
  rw [List.takeWhile_append_of_pos hblanks, hhead, List.append_nil]

private theorem SpellsInteger.scan {text : Bytes} {negative : Bool} {n : ℕ}
    (h : SpellsInteger text negative n) :
    ∃ length, scanSign (text.drop (text.takeWhile isSpaceC).length) = (negative, length) ∧
      ∃ digits, text.drop ((text.takeWhile isSpaceC).length + length) = digits ∧
        digits.takeWhile isDigit = digits ∧ digits ≠ [] ∧ numeral digits = n ∧
        (text.takeWhile isSpaceC).length + length + digits.length = text.length := by
  obtain ⟨blanks, sign, digits, rfl, hblanks, hsign, hne, hdigits, rfl⟩ := h
  have hhead : ∀ b ∈ digits.head?, b ≠ 45 ∧ b ≠ 43 ∧ isSpaceC b = false :=
    fun b hb ↦ numeral_byte_ne (.inl (hdigits b (List.mem_of_mem_head? hb)))
  rw [takeWhile_blanks hblanks hsign fun b hb ↦ (hhead b hb).2.2, List.drop_left]
  refine ⟨sign.length, scanSign_append hsign fun b hb ↦ ⟨(hhead b hb).1, (hhead b hb).2.1⟩, digits,
    ?_, List.takeWhile_eq_self_iff.mpr hdigits, hne, rfl, ?_⟩
  · rw [← List.append_assoc, ← List.length_append, List.drop_left]
  · simp only [List.length_append, Nat.add_assoc]

/-- A text spells no more than one integer. -/
theorem SpellsInteger.unique {text : Bytes} {negative negative' : Bool} {n n' : ℕ}
    (h : SpellsInteger text negative n) (h' : SpellsInteger text negative' n') :
    negative = negative' ∧ n = n' := by
  obtain ⟨length, hsign, digits, hdigits, -, -, hn, -⟩ := h.scan
  obtain ⟨length', hsign', digits', hdigits', -, -, hn', -⟩ := h'.scan
  obtain ⟨rfl, rfl⟩ := Prod.mk.inj (hsign.symm.trans hsign')
  exact ⟨rfl, by rw [← hn, ← hn', ← hdigits, ← hdigits']⟩

/-- What is converted of a text that spells an integer. -/
theorem strtoull_eq {text : Bytes} {negative : Bool} {n : ℕ} (h : SpellsInteger text negative n) :
    strtoull text = if n < 2 ^ 64 then ⟨wordOf negative n, text.length, false⟩
      else ⟨UInt64.ofNat (2 ^ 64 - 1), text.length, true⟩ := by
  obtain ⟨length, hsign, digits, hdigits, hscan, hne, hn, hlength⟩ := h.scan
  simp only [strtoull, hsign, hdigits, hscan, if_neg hne, hn, hlength, wordOf]

/-- What is scanned as a sign is one. -/
theorem isSign_scanSign (text : Bytes) :
    IsSign (scanSign text).1 (text.take (scanSign text).2) := by
  cases text with
  | nil => exact .inl rfl
  | cons b rest =>
    simp only [scanSign]
    split
    · next hminus =>
      subst hminus
      rfl
    · split
      · next hplus =>
        subst hplus
        exact .inr rfl
      · exact .inl rfl

private theorem takeWhile_drop_eq {text : Bytes} {p : UInt8 → Bool} {start : ℕ}
    (h : start + ((text.drop start).takeWhile p).length = text.length) :
    (text.drop start).takeWhile p = text.drop start := by
  refine (List.takeWhile_prefix p).eq_of_length ?_
  rw [List.length_drop]
  omega

/-- Only a text that spells an integer is consumed as a whole. -/
theorem exists_spellsInteger {text : Bytes} (hne : (strtoull text).consumed ≠ 0)
    (h : (strtoull text).consumed = text.length) : ∃ negative n, SpellsInteger text negative n := by
  have hblanks : ∀ b ∈ text.takeWhile isSpaceC, isSpaceC b = true :=
    fun _ hb ↦ List.mem_takeWhile_imp hb
  have hsplit : text.takeWhile isSpaceC ++ text.drop (text.takeWhile isSpaceC).length = text :=
    (List.prefix_iff_eq_append.mp (List.takeWhile_prefix _))
  simp only [strtoull] at hne h
  generalize text.takeWhile isSpaceC = blanks at hblanks hsplit hne h
  have hsign := isSign_scanSign (text.drop blanks.length)
  generalize scanSign (text.drop blanks.length) = sign at hsign hne h
  by_cases hdigits : (text.drop (blanks.length + sign.2)).takeWhile isDigit = []
  · rw [if_pos hdigits] at hne
    exact absurd rfl hne
  · have hconsumed : blanks.length + sign.2 +
        ((text.drop (blanks.length + sign.2)).takeWhile isDigit).length = text.length := by
      rw [if_neg hdigits] at h
      split at h <;> exact h
    have hall : ∀ b ∈ text.drop (blanks.length + sign.2), isDigit b = true := by
      rw [← takeWhile_drop_eq hconsumed]
      exact fun _ hb ↦ List.mem_takeWhile_imp hb
    rw [takeWhile_drop_eq hconsumed] at hdigits
    refine ⟨sign.1, _, blanks, _, _, ?_, hblanks, hsign, hdigits, hall, rfl⟩
    rw [← List.drop_drop, List.take_append_drop, hsplit]

end Cpp
