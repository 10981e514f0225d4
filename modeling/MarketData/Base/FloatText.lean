import MarketData.Base.Bytes
import MarketData.Base.Ieee
import Mathlib.Data.Int.Log
import Mathlib.Data.List.DropRight

/-!
# Floating point text

Output follows the C conversions: `%.Nf` prints the exact value rounded to `N`
decimals, `%.Pg` the value rounded to `P` significant digits without trailing zeros.
Input follows `strtod` in the C locale: the longest prefix that is a decimal or
hexadecimal numeral, an infinity or a NaN, rounded to nearest, ties to even. With no
such prefix the value is zero and nothing is consumed. A result that overflows, or is
subnormal and inexact, sets the range error.
-/

namespace Ieee

open ByteText

/-- Sign printed in front of a magnitude. -/
def signText (negative : Bool) : Bytes := if negative then [45] else []

/-- Magnitude with a fixed number of decimals. -/
def fixedMagnitude (decimals : ℕ) (x : ℚ) : Bytes :=
  let n := roundHalfEven (x * 10 ^ decimals)
  decimal (n / 10 ^ decimals) ++ 46 :: paddedDecimal decimals (n % 10 ^ decimals)

/-- The conversion `%.Nf` for a positive `N`. -/
def formatFixed {F : Format} (decimals : ℕ) : Number F → Bytes
  | .nan => ascii "nan"
  | .infinite s => signText s ++ ascii "inf"
  | .finite s m => signText s ++ fixedMagnitude decimals m.toRat

/-- A point and the decimals after it, without trailing zeros. -/
def trimmedFraction (digits : Bytes) : Bytes :=
  match digits.rdropWhile (· == 48) with
  | [] => []
  | fraction => 46 :: fraction

/-- The significant digits `n` with the first at `10 ^ exponent`, in the shorter of the two
styles. -/
def generalDigits (precision n : ℕ) (exponent : ℤ) : Bytes :=
  let digits := paddedDecimal precision n
  if exponent < -4 ∨ (precision : ℤ) ≤ exponent then
    digits.take 1 ++ trimmedFraction (digits.drop 1) ++ [101] ++
      [if exponent < 0 then 45 else 43] ++ paddedDecimal 2 exponent.natAbs
  else if exponent < 0 then
    48 :: trimmedFraction (List.replicate (exponent.natAbs - 1) 48 ++ digits)
  else
    digits.take (exponent.toNat + 1) ++ trimmedFraction (digits.drop (exponent.toNat + 1))

/-- Magnitude with `precision` significant digits. -/
def generalMagnitude (precision : ℕ) (x : ℚ) : Bytes :=
  if x = 0 then [48]
  else
    let below := Int.log 10 x
    let rounded := roundHalfEven (x * 10 ^ ((precision : ℤ) - 1 - below))
    -- Rounding can carry into one more digit, which moves the exponent.
    if rounded = 10 ^ precision then generalDigits precision (10 ^ (precision - 1)) (below + 1)
    else generalDigits precision rounded below

/-- The conversion `%.Pg` for a positive `P`. -/
def formatGeneral {F : Format} (precision : ℕ) : Number F → Bytes
  | .nan => ascii "nan"
  | .infinite s => signText s ++ ascii "inf"
  | .finite s m => signText s ++ generalMagnitude precision m.toRat

/-- The value printed with a fixed number of decimals, rounded back to the format. -/
def Number.roundDecimals {F : Format} (decimals : ℕ) : Number F → Number F
  | .finite s m =>
    let x : ℚ := roundHalfEven (m.toRat * 10 ^ decimals) / 10 ^ decimals
    .round F s (if s then -x else x)
  | x => x

/-! ### `strtod` -/

/-- What a conversion reports: the value, the end of the text it consumed and `ERANGE`. -/
structure Conversion where
  value : Number binary64
  consumed : ℕ
  rangeError : Bool
deriving DecidableEq

/-- `isspace` in the C locale: a space and the five control characters from tab to carriage
return. -/
def isSpaceC (b : UInt8) : Bool := b == 32 || (9 ≤ b && b ≤ 13)

/-- The letter in lower case. -/
def lower (b : UInt8) : UInt8 := if 65 ≤ b && b ≤ 90 then b + 32 else b

/-- Value of a hexadecimal digit. -/
def hexValue? (b : UInt8) : Option ℕ :=
  if isDigit b then some (digitValue b)
  else if 97 ≤ lower b && lower b ≤ 102 then some ((lower b).toNat - 87)
  else none

/-- Optional sign: whether it is a minus and how many bytes it takes. -/
def scanSign (text : Bytes) : Bool × ℕ :=
  match text with
  | b :: _ => if b = 45 then (true, 1) else if b = 43 then (false, 1) else (false, 0)
  | [] => (false, 0)

/-- Optional exponent after the given letter; without digits nothing is consumed. -/
def scanExponent (letter : UInt8) (text : Bytes) : ℤ × ℕ :=
  match text with
  | b :: rest =>
    if lower b = letter then
      let sign := scanSign rest
      let digits := (rest.drop sign.2).takeWhile isDigit
      if digits = [] then (0, 0)
      else (if sign.1 then -(numeral digits : ℤ) else numeral digits, 1 + sign.2 + digits.length)
    else (0, 0)
  | [] => (0, 0)

/-- Digits around an optional point: the digits before it, those after it, the length. -/
def scanDigits (p : UInt8 → Bool) (text : Bytes) : Bytes × Bytes × ℕ :=
  let whole := text.takeWhile p
  match text.drop whole.length with
  | b :: rest =>
    if b = 46 then (whole, rest.takeWhile p, whole.length + 1 + (rest.takeWhile p).length)
    else (whole, [], whole.length)
  | [] => (whole, [], whole.length)

/-- Longest decimal numeral at the start of a text. -/
def scanDecimal (text : Bytes) : Option (ℚ × ℕ) :=
  let digits := scanDigits isDigit text
  if digits.1 = [] ∧ digits.2.1 = [] then none
  else
    let exponent := scanExponent 101 (text.drop digits.2.2)
    some (numeral (digits.1 ++ digits.2.1) * 10 ^ (exponent.1 - digits.2.1.length),
      digits.2.2 + exponent.2)

/-- Longest hexadecimal numeral at the start of a text; its exponent scales by powers of two. -/
def scanHexadecimal (text : Bytes) : Option (ℚ × ℕ) :=
  match text with
  | zero :: x :: rest =>
    if zero = 48 ∧ lower x = 120 then
      let digits := scanDigits (fun b ↦ (hexValue? b).isSome) rest
      if digits.1 = [] ∧ digits.2.1 = [] then none
      else
        let exponent := scanExponent 112 (rest.drop digits.2.2)
        let coefficient := (digits.1 ++ digits.2.1).foldl
          (fun n b ↦ 16 * n + (hexValue? b).getD 0) 0
        some (coefficient * 2 ^ (exponent.1 - 4 * digits.2.1.length),
          2 + digits.2.2 + exponent.2)
    else none
  | _ => none

/-- Length of the optional parenthesised suffix of a NaN. -/
def scanNanSuffix (text : Bytes) : ℕ :=
  match text with
  | 40 :: rest =>
    let word := rest.takeWhile (fun b ↦ isDigit b || (97 ≤ lower b && lower b ≤ 122) || b == 95)
    if (rest.drop word.length).head? = some 41 then word.length + 2 else 0
  | _ => 0

/-- Infinity or NaN at the start of a text. -/
def scanWord (negative : Bool) (text : Bytes) : Option (Number binary64 × ℕ) :=
  if (text.take 8).map lower = ascii "infinity" then some (.infinite negative, 8)
  else if (text.take 3).map lower = ascii "inf" then some (.infinite negative, 3)
  else if (text.take 3).map lower = ascii "nan" then some (.nan, 3 + scanNanSuffix (text.drop 3))
  else none

/-- Conversion of a scanned magnitude. The standard leaves it to the implementation whether an
underflow is a range error; here it is one where the datum is subnormal and inexact. -/
def convertMagnitude (negative : Bool) (x : ℚ) (consumed : ℕ) : Conversion :=
  let exact := if negative then -x else x
  let value := Number.round binary64 negative exact
  let subnormal := decide (|value.toRat| < binary64.leastNormal)
  ⟨value, consumed, !value.isFinite || (subnormal && decide (value.toRat ≠ exact))⟩

/-- The C function `strtod`. -/
def strtod (text : Bytes) : Conversion :=
  let blanks := (text.takeWhile isSpaceC).length
  let sign := scanSign (text.drop blanks)
  let start := blanks + sign.2
  let body := text.drop start
  match scanHexadecimal body with
  | some (x, n) => convertMagnitude sign.1 x (start + n)
  | none =>
    match scanDecimal body with
    | some (x, n) => convertMagnitude sign.1 x (start + n)
    | none =>
      match scanWord sign.1 body with
      | some (value, n) => ⟨value, start + n, false⟩
      | none => ⟨.zero, 0, false⟩

/-- The finite value of a token that `strtod` consumes whole without a range error. -/
def finiteToken? (token : Bytes) : Option (Number binary64) :=
  let conversion := strtod token
  if conversion.rangeError || conversion.consumed != token.length ||
      !conversion.value.isFinite then none
  else some conversion.value

/-- The value of a token is finite. -/
theorem isFinite_of_finiteToken {token : Bytes} {y : Number binary64}
    (h : finiteToken? token = some y) : y.isFinite = true := by
  unfold finiteToken? at h
  dsimp only at h
  split at h
  · cases h
  · next hc =>
    rw [← Option.some.inj h]
    simp only [Bool.or_eq_true, not_or, Bool.not_eq_true', Bool.not_eq_false] at hc
    exact hc.2

/-- A byte that a numeral, an infinity, a NaN or the whitespace before them may start with. -/
def startsNumber (b : UInt8) : Bool :=
  isSpaceC b || isDigit b || b == 45 || b == 43 || b == 46 || lower b == 105 || lower b == 110

/-- A token that starts with another byte has no value. -/
theorem finiteToken_other {b : UInt8} (h : startsNumber b = false) (rest : Bytes) :
    finiteToken? (b :: rest) = none := by
  simp only [startsNumber, Bool.or_eq_false_iff, beq_eq_false_iff_ne] at h
  obtain ⟨⟨⟨⟨⟨⟨hs, hd⟩, hm⟩, hp⟩, hpoint⟩, hi⟩, hn⟩ := h
  have hzero : b ≠ 48 := by
    rintro rfl
    exact absurd hd (by decide)
  have hblank : (b :: rest).takeWhile isSpaceC = [] := by simp [hs]
  have hhex : scanHexadecimal (b :: rest) = none := by
    cases rest with
    | nil => rfl
    | cons x rest => rw [scanHexadecimal, if_neg (fun hx ↦ hzero hx.1)]
  have hdecimal : scanDecimal (b :: rest) = none := by
    simp [scanDecimal, scanDigits, hd, hpoint]
  have hword : scanWord false (b :: rest) = none := by
    have hinf : ascii "inf" = 105 :: ascii "nf" := rfl
    have hinfinity : ascii "infinity" = 105 :: ascii "nfinity" := rfl
    have hnan : ascii "nan" = 110 :: ascii "an" := rfl
    simp [scanWord, hinf, hinfinity, hnan, hi, hn]
  have hconversion : strtod (b :: rest) = ⟨.zero, 0, false⟩ := by
    simp [strtod, hblank, scanSign, hm, hp, hhex, hdecimal, hword]
  simp [finiteToken?, hconversion]

example : formatFixed 6 (Number.ofNat (F := binary64) 3) = ascii "3.000000" := by decide +kernel

example : (finiteToken? (ascii "-12.5e1")).map Number.toRat = some (-125) := by decide +kernel

example : finiteToken? (ascii "1e400") = none ∧ finiteToken? [] = some .zero := by
  decide +kernel

/-! ### Printed numbers read back -/

/-- A digit is not the letter of a hexadecimal numeral. -/
theorem lower_ne_of_isDigit {b : UInt8} (h : isDigit b = true) : lower b ≠ 120 := by
  simp only [isDigit, Bool.and_eq_true, decide_eq_true_eq, UInt8.le_iff_toNat_le] at h
  intro he
  simp only [lower, Bool.and_eq_true, decide_eq_true_eq, UInt8.le_iff_toNat_le] at he
  split at he
  · next hc =>
    simp at h hc
    omega
  · subst he
    simp at h

private theorem scanHexadecimal_numeral {body : Bytes}
    (hb : ∀ b ∈ body, isDigit b = true ∨ b = 46) : scanHexadecimal body = none := by
  rcases body with _ | ⟨zero, _ | ⟨x, rest⟩⟩
  · rfl
  · rfl
  · have hx : lower x ≠ 120 := by
      rcases hb x (by simp) with h | h
      · exact lower_ne_of_isDigit h
      · subst h
        decide
    rw [scanHexadecimal, if_neg (fun h ↦ hx h.2)]

/-- A digit or a point is neither a sign nor whitespace. -/
theorem numeral_byte_ne {b : UInt8} (h : isDigit b = true ∨ b = 46) :
    b ≠ 45 ∧ b ≠ 43 ∧ isSpaceC b = false := by
  rcases h with h | h
  · simp only [isDigit, Bool.and_eq_true, decide_eq_true_eq, UInt8.le_iff_toNat_le] at h
    simp at h
    refine ⟨?_, ?_, ?_⟩
    · rintro rfl; simp at h
    · rintro rfl; simp at h
    · simp only [isSpaceC, Bool.or_eq_false_iff, beq_eq_false_iff_ne, Bool.and_eq_false_iff,
        decide_eq_false_iff_not, UInt8.le_iff_toNat_le]
      simp
      constructor
      · rintro rfl; simp at h
      · right; omega
  · subst h
    decide

/-- A text of digits and points after an optional sign converts as its decimal numeral. -/
theorem strtod_numeral {body : Bytes} {x : ℚ} {n : ℕ} (s : Bool)
    (hb : ∀ b ∈ body, isDigit b = true ∨ b = 46) (hne : body ≠ [])
    (hd : scanDecimal body = some (x, n)) :
    strtod (signText s ++ body) = convertMagnitude s x ((signText s).length + n) := by
  obtain ⟨b, rest, rfl⟩ := List.exists_cons_of_ne_nil hne
  obtain ⟨h45, h43, hs⟩ := numeral_byte_ne (hb b (by simp))
  cases s with
  | false =>
    have hblank : (b :: rest).takeWhile isSpaceC = [] := by simp [hs]
    simp [strtod, signText, hblank, scanSign, h45, h43, scanHexadecimal_numeral hb, hd]
  | true =>
    have hblank : (45 :: b :: rest).takeWhile isSpaceC = [] := rfl
    simp [strtod, signText, hblank, scanSign, scanHexadecimal_numeral hb, hd]

private theorem scanDecimal_point {whole fraction : Bytes}
    (hw : ∀ b ∈ whole, isDigit b = true) (hf : ∀ b ∈ fraction, isDigit b = true)
    (hne : whole ≠ []) :
    scanDecimal (whole ++ 46 :: fraction) =
      some ((numeral (whole ++ fraction) : ℚ) / 10 ^ fraction.length,
        (whole ++ 46 :: fraction).length) := by
  have htw : (whole ++ 46 :: fraction).takeWhile isDigit = whole := by
    rw [List.takeWhile_append_of_pos hw]
    simp [isDigit]
  have htf : fraction.takeWhile isDigit = fraction := List.takeWhile_eq_self_iff.mpr hf
  have hs : scanDigits isDigit (whole ++ 46 :: fraction) =
      (whole, fraction, (whole ++ 46 :: fraction).length) := by
    simp only [scanDigits, htw, List.drop_left, ↓reduceIte, htf, List.length_append,
      List.length_cons]
    congr 2
    omega
  simp only [scanDecimal, hs, hne, false_and, if_false, List.drop_length, scanExponent,
    Nat.add_zero, zero_sub, zpow_neg, zpow_natCast, div_eq_mul_inv]

private theorem scanDecimal_whole {whole : Bytes} (hw : ∀ b ∈ whole, isDigit b = true)
    (hne : whole ≠ []) : scanDecimal whole = some ((numeral whole : ℚ), whole.length) := by
  have hs : scanDigits isDigit whole = (whole, [], whole.length) := by
    simp only [scanDigits, List.takeWhile_eq_self_iff.mpr hw, List.drop_length]
  simp only [scanDecimal, hs, hne, false_and, if_false, List.drop_length, scanExponent,
    List.append_nil, List.length_nil, Nat.cast_zero, sub_zero, zpow_zero, mul_one, Nat.add_zero]

private theorem fixedMagnitude_digits (decimals : ℕ) (x : ℚ) :
    ∀ b ∈ fixedMagnitude decimals x, isDigit b = true ∨ b = 46 := by
  intro b hb
  simp only [fixedMagnitude, List.mem_append, List.mem_cons] at hb
  rcases hb with hb | hb | hb
  · exact .inl (isDigit_of_mem_decimal hb)
  · exact .inr hb
  · exact .inl (isDigit_of_mem_paddedDecimal hb)

private theorem scanDecimal_fixedMagnitude {decimals : ℕ} (hd : 0 < decimals) (x : ℚ) :
    scanDecimal (fixedMagnitude decimals x) =
      some ((roundHalfEven (x * 10 ^ decimals) : ℚ) / 10 ^ decimals,
        (fixedMagnitude decimals x).length) := by
  have hlt : roundHalfEven (x * 10 ^ decimals) % 10 ^ decimals < 10 ^ decimals :=
    Nat.mod_lt _ (by positivity)
  rw [fixedMagnitude, scanDecimal_point (fun _ ↦ isDigit_of_mem_decimal)
    (fun _ ↦ isDigit_of_mem_paddedDecimal) (decimal_ne_nil _), numeral_append, numeral_decimal,
    numeral_paddedDecimal, length_paddedDecimal hd hlt, Nat.div_add_mod]

/-- The value of a conversion is the rounded number. -/
theorem convertMagnitude_value (s : Bool) (x : ℚ) (n : ℕ) :
    (convertMagnitude s x n).value = .round binary64 s (if s then -x else x) := by
  simp only [convertMagnitude]

/-- A magnitude that is zero or normal and stays below the top converts without range error. -/
theorem convertMagnitude_eq {s : Bool} {x : ℚ} {n : ℕ}
    (hx : x = 0 ∨ binary64.leastNormal ≤ x)
    (ht : binary64.roundUnits (x * 2 ^ binary64.scale) < 2 ^ binary64.width) :
    (convertMagnitude s x n).rangeError = false ∧
      (Number.round binary64 s (if s then -x else x)).isFinite = true := by
  have h0 : 0 ≤ x := by
    rcases hx with hx | hx
    · exact hx.ge
    · exact le_trans (div_nonneg (by positivity) (by positivity)) hx
  have habs : |if s then -x else x| = x := by
    cases s <;> simp [abs_of_nonneg h0]
  have hfin : (Number.round binary64 s (if s then -x else x)).isFinite = true := by
    rw [Number.isFinite_round, habs]
    exact ht
  refine ⟨?_, hfin⟩
  simp only [convertMagnitude, hfin, Bool.not_true, Bool.false_or, Bool.and_eq_false_iff,
    decide_eq_false_iff_not, not_lt, not_not]
  rcases hx with rfl | hx
  · right
    cases s <;> simp [Number.toRat_round_zero]
  · left
    exact Number.leastNormal_le_abs_toRat_round hfin (by rwa [habs])

private theorem finiteToken_of_scan {s : Bool} {body : Bytes} {x : ℚ}
    (hb : ∀ b ∈ body, isDigit b = true ∨ b = 46) (hne : body ≠ [])
    (hd : scanDecimal body = some (x, body.length)) (hx : x = 0 ∨ binary64.leastNormal ≤ x)
    (ht : binary64.roundUnits (x * 2 ^ binary64.scale) < 2 ^ binary64.width) :
    finiteToken? (signText s ++ body) = some (.round binary64 s (if s then -x else x)) := by
  obtain ⟨hr, hf⟩ := convertMagnitude_eq (s := s) (n := (signText s).length + body.length) hx ht
  have hl : (convertMagnitude s x ((signText s).length + body.length)).consumed =
      (signText s ++ body).length := (List.length_append ..).symm
  simp only [finiteToken?, strtod_numeral s hb hne hd, hr, hf, hl, bne_self_eq_false,
    convertMagnitude_value, Bool.not_true, Bool.or_false, Bool.false_eq_true, if_false]

/-- A finite number printed with a fixed number of decimals reads back as its rounding. -/
theorem finiteToken_formatFixed {decimals : ℕ} (hd : 0 < decimals)
    (hb : binary64.leastNormal ≤ 1 / 10 ^ decimals) {x : Number binary64}
    (hx : x.isFinite = true) :
    finiteToken? (formatFixed decimals x) = some (x.roundDecimals decimals) := by
  cases x with
  | nan => cases hx
  | infinite s => cases hx
  | finite s m =>
    rw [formatFixed, Number.roundDecimals]
    refine finiteToken_of_scan (fixedMagnitude_digits decimals _) (by simp [fixedMagnitude])
      (scanDecimal_fixedMagnitude hd _) ?_ (roundUnits_decimals_lt (by decide) decimals m)
    rcases Nat.eq_zero_or_pos (roundHalfEven (m.toRat * 10 ^ decimals)) with h | h
    · left
      rw [h]
      simp
    · right
      have h1 : (1 : ℚ) ≤ (roundHalfEven (m.toRat * 10 ^ decimals) : ℚ) := by exact_mod_cast h
      exact hb.trans (by gcongr)

private theorem leastNormal_le_of_le {k : ℕ} (hk : k + binary64.precision ≤ binary64.scale + 1)
    {x : ℚ} (h : 1 ≤ x * 2 ^ k) : binary64.leastNormal ≤ x := by
  have hp := binary64.precision_pos
  have hs : (2 : ℚ) ^ (binary64.precision - 1) * 2 ^ k ≤ 2 ^ binary64.scale := by
    rw [← pow_add]
    exact pow_le_pow_right₀ (by norm_num) (by omega)
  have h2 : (0 : ℚ) < 2 ^ k := by positivity
  have hx : 0 ≤ x := by
    by_contra hn
    have := mul_neg_of_neg_of_pos (not_le.mp hn) h2
    linarith
  rw [Format.leastNormal, div_le_iff₀ (by positivity)]
  calc
    (2 : ℚ) ^ (binary64.precision - 1) ≤ 2 ^ (binary64.precision - 1) * (x * 2 ^ k) :=
      le_mul_of_one_le_right (by positivity) h
    _ = x * (2 ^ (binary64.precision - 1) * 2 ^ k) := by ring
    _ ≤ x * 2 ^ binary64.scale := by gcongr

/-- Six decimals do not reach the subnormal range. -/
theorem leastNormal_le_six_decimals : binary64.leastNormal ≤ 1 / 10 ^ 6 :=
  leastNormal_le_of_le (k := 20) (by decide) (by norm_num)

/-- A 64-bit decimal numeral reads back as its number, rounded to the format. -/
theorem finiteToken_decimal {n : ℕ} (hn : n < 2 ^ 64) :
    finiteToken? (decimal n) = some (Number.ofNat n) := by
  have hscan := scanDecimal_whole (fun _ ↦ isDigit_of_mem_decimal) (decimal_ne_nil n)
  rw [numeral_decimal] at hscan
  refine finiteToken_of_scan (s := false) (fun b hb ↦ .inl (isDigit_of_mem_decimal hb))
    (decimal_ne_nil n) hscan ?_ ?_
  · rcases Nat.eq_zero_or_pos n with h | h
    · exact .inl (by exact_mod_cast h)
    · right
      exact leastNormal_le_of_le (k := 0) (by decide) (by simpa using Nat.succ_le_of_lt h)
  · have hle : (n : ℚ) ≤ 2 ^ 64 := by exact_mod_cast hn.le
    refine (binary64.roundUnits_le_two_pow (k := 64 + binary64.scale) ?_).trans_lt
      (Nat.pow_lt_pow_right (by decide) (by decide))
    rw [pow_add]
    gcongr

/-! ### Bytes of a printed number -/

private theorem mem_trimmedFraction {digits : Bytes} {b : UInt8} (h : b ∈ trimmedFraction digits) :
    b = 46 ∨ b ∈ digits := by
  unfold trimmedFraction at h
  split at h
  · simp at h
  · rcases List.mem_cons.mp h with h | h
    · exact .inl h
    · exact .inr ((List.rdropWhile_prefix _ _).subset h)

private theorem mem_generalDigits {precision n : ℕ} {exponent : ℤ} {b : UInt8}
    (h : b ∈ generalDigits precision n exponent) :
    isDigit b = true ∨ b = 46 ∨ b = 101 ∨ b = 45 ∨ b = 43 := by
  have hpad : ∀ {width n : ℕ}, b ∈ paddedDecimal width n → isDigit b = true :=
    isDigit_of_mem_paddedDecimal
  simp only [generalDigits] at h
  split at h
  · simp only [List.mem_append, List.mem_singleton] at h
    rcases h with (((h | h) | h) | h) | h
    · exact .inl (hpad (List.mem_of_mem_take h))
    · rcases mem_trimmedFraction h with h | h
      · exact .inr (.inl h)
      · exact .inl (hpad (List.mem_of_mem_drop h))
    · exact .inr (.inr (.inl h))
    · split at h
      · exact .inr (.inr (.inr (.inl h)))
      · exact .inr (.inr (.inr (.inr h)))
    · exact .inl (hpad h)
  · split at h
    · rcases List.mem_cons.mp h with h | h
      · subst h
        exact .inl (by decide)
      · rcases mem_trimmedFraction h with h | h
        · exact .inr (.inl h)
        · rcases List.mem_append.mp h with h | h
          · rw [List.eq_of_mem_replicate h]
            exact .inl (by decide)
          · exact .inl (hpad h)
    · rcases List.mem_append.mp h with h | h
      · exact .inl (hpad (List.mem_of_mem_take h))
      · rcases mem_trimmedFraction h with h | h
        · exact .inr (.inl h)
        · exact .inl (hpad (List.mem_of_mem_drop h))

/-- The bytes of a printed number: digits, a point, signs, an exponent and two words. -/
theorem mem_formatGeneral {F : Format} {precision : ℕ} {x : Number F} {b : UInt8}
    (h : b ∈ formatGeneral precision x) : isDigit b = true ∨ b ∈ ascii ".e-+infa" := by
  have hsign : ∀ {s : Bool}, b ∈ signText s → b ∈ ascii ".e-+infa" := by
    intro s hs
    cases s with
    | false => cases hs
    | true =>
      obtain rfl := List.mem_singleton.mp hs
      decide
  have hdigits : ∀ {n e}, b ∈ generalDigits precision n e →
      isDigit b = true ∨ b ∈ ascii ".e-+infa" := by
    intro n e h
    rcases mem_generalDigits h with h | rfl | rfl | rfl | rfl
    · exact .inl h
    all_goals exact .inr (by decide)
  cases x with
  | nan => exact .inr ((by decide : ascii "nan" ⊆ ascii ".e-+infa") h)
  | infinite s =>
    rcases List.mem_append.mp h with h | h
    · exact .inr (hsign h)
    · exact .inr ((by decide : ascii "inf" ⊆ ascii ".e-+infa") h)
  | finite s m =>
    rcases List.mem_append.mp h with h | h
    · exact .inr (hsign h)
    · unfold generalMagnitude at h
      split at h
      · obtain rfl := List.mem_singleton.mp h
        exact .inl (by decide)
      · simp only at h
        split at h <;> exact hdigits h

/-- A printed number stays on its line. -/
theorem newline_not_mem_formatGeneral {F : Format} (precision : ℕ) (x : Number F) :
    newline ∉ formatGeneral precision x := by
  intro h
  rcases mem_formatGeneral h with h | h <;> exact absurd h (by decide)

end Ieee
