import MarketData.Base.Numerals
import MarketData.Json.Syntax

/-!
# The numbers that tokens denote

A number token denotes a rational number, whatever a reader makes of it. `strtod` reads
such a token whole and rounds the number it denotes.
-/

namespace Json

open ByteText Cpp Ieee

/-- The number behind the letter of an exponent; zero without an exponent. -/
def exponentValue (exponent : Bytes) : ℤ :=
  match exponent with
  | [] => 0
  | _ :: rest =>
    match rest with
    | [] => 0
    | b :: digits =>
      if b = 45 then -numeral digits
      else if b = 43 then numeral digits
      else numeral rest

/-- The magnitude that the parts of a number token spell. -/
def magnitude (whole fraction exponent : Bytes) : ℚ :=
  numeral (whole ++ fraction.drop 1) * 10 ^ (exponentValue exponent - (fraction.drop 1).length)

/-- The token is a number and denotes `x`. -/
def Denotes (t : Bytes) (x : ℚ) : Prop :=
  ∃ sign whole fraction exponent, t = sign ++ (whole ++ (fraction ++ exponent)) ∧
    (sign = [] ∨ sign = [45]) ∧ IsWhole whole ∧ IsFraction fraction ∧ IsExponent exponent ∧
    x = if sign = [] then magnitude whole fraction exponent
      else -magnitude whole fraction exponent

/-- Every number token denotes a number. -/
theorem exists_denotes {t : Bytes} (h : IsNumber t) : ∃ x, Denotes t x := by
  obtain ⟨sign, whole, fraction, exponent, rfl, hs, hw, hf, he⟩ := h
  exact ⟨_, sign, whole, fraction, exponent, by simp, hs, hw, hf, he, rfl⟩

/-- A token that denotes a number is a number token. -/
theorem Denotes.isNumber {t : Bytes} {x : ℚ} (h : Denotes t x) : IsNumber t := by
  obtain ⟨sign, whole, fraction, exponent, rfl, hs, hw, hf, he, -⟩ := h
  exact ⟨sign, whole, fraction, exponent, by simp, hs, hw, hf, he⟩

/-! ### Number tokens as numerals of `strtod` -/

private theorem IsWhole.digits {whole : Bytes} (h : IsWhole whole) :
    whole ≠ [] ∧ ∀ b ∈ whole, isDigit b = true := by
  rcases h with rfl | ⟨b, rest, rfl, -, hd⟩
  · exact ⟨by simp, by decide⟩
  · exact ⟨by simp, hd⟩

/-- The bytes of a number token. -/
theorem IsNumber.bytes {t : Bytes} (h : IsNumber t) :
    ∀ b ∈ t, isDigit b = true ∨ b ∈ [43, 45, 46, 69, 101] := by
  obtain ⟨sign, whole, fraction, exponent, rfl, hs, hw, hf, he⟩ := h
  have hdigits : ∀ {digits : Bytes}, (∀ b ∈ digits, isDigit b = true) →
      ∀ b ∈ digits, isDigit b = true ∨ b ∈ [43, 45, 46, 69, 101] := fun hd b hb ↦ .inl (hd b hb)
  have hfraction : ∀ b ∈ fraction, isDigit b = true ∨ b ∈ [43, 45, 46, 69, 101] := by
    rcases hf with rfl | ⟨digits, rfl, -, hd⟩
    · simp
    · exact List.forall_mem_cons.mpr ⟨.inr (by decide), hdigits hd⟩
  have hexponent : ∀ b ∈ exponent, isDigit b = true ∨ b ∈ [43, 45, 46, 69, 101] := by
    rcases he with rfl | ⟨letter, sign, digits, rfl, hl, hs, -, hd⟩
    · simp
    · rw [List.forall_mem_cons, List.forall_mem_append]
      refine ⟨?_, ?_, hdigits hd⟩
      · rcases hl with rfl | rfl <;> decide
      · rcases hs with rfl | rfl | rfl <;> decide
  simp only [List.forall_mem_append]
  refine ⟨⟨⟨?_, hdigits hw.digits.2⟩, hfraction⟩, hexponent⟩
  rcases hs with rfl | rfl <;> decide

private theorem IsExponent.isScale {exponent : Bytes} (h : IsExponent exponent) :
    IsScale 101 exponent (exponentValue exponent) := by
  rcases h with rfl | ⟨letter, sign, digits, rfl, hl, hs, hne, hd⟩
  · exact .absent
  · have hmark : lower letter = 101 := by rcases hl with rfl | rfl <;> decide
    rcases hs with rfl | rfl | rfl
    · obtain ⟨b, rest, rfl⟩ := List.exists_cons_of_ne_nil hne
      obtain ⟨hminus, hplus, -⟩ := numeral_byte_ne (.inl (hd b (by simp)))
      have hvalue : exponentValue (letter :: ([] ++ (b :: rest))) = numeral (b :: rest) := by
        simp [exponentValue, hminus, hplus]
      rw [hvalue]
      exact .present hmark (show IsSign false [] from .inl rfl) hne hd
    · exact .present hmark (show IsSign true [45] from rfl) hne hd
    · exact .present hmark (show IsSign false [43] from .inr rfl) hne hd

private theorem isScaled_parts {whole fraction exponent : Bytes} (hw : IsWhole whole)
    (hf : IsFraction fraction) (he : IsExponent exponent) :
    IsScaled isDigit 101 (whole ++ (fraction ++ exponent)) whole (fraction.drop 1)
      (exponentValue exponent) := by
  obtain ⟨hne, hdigits⟩ := hw.digits
  rcases hf with rfl | ⟨digits, rfl, -, hd⟩
  · exact ⟨[], exponent, rfl, ⟨hdigits, by simp, .inr ⟨rfl, rfl⟩, fun h ↦ hne h.1⟩, he.isScale⟩
  · exact ⟨[46], exponent, rfl, ⟨hdigits, hd, .inl rfl, fun h ↦ hne h.1⟩, he.isScale⟩

/-- A number token is a numeral of the number it denotes. -/
theorem Denotes.spells {t : Bytes} {x : ℚ} (h : Denotes t x) : ∃ negative, Spells t negative x := by
  obtain ⟨sign, whole, fraction, exponent, rfl, hs, hw, hf, he, rfl⟩ := h
  have hmagnitude := IsMagnitude.decimal (isScaled_parts hw hf he)
  rcases hs with rfl | rfl
  · exact ⟨false, [], [], _, _, rfl, by simp, .inl rfl, hmagnitude, rfl⟩
  · exact ⟨true, [], [45], _, _, rfl, by simp, rfl, hmagnitude, rfl⟩

/-- A token denotes at most one number. -/
theorem Denotes.unique {t : Bytes} {x y : ℚ} (hx : Denotes t x) (hy : Denotes t y) : x = y := by
  obtain ⟨sign, whole, fraction, exponent, rfl, hs, hw, hf, he, rfl⟩ := hx
  obtain ⟨sign', whole', fraction', exponent', ht, hs', hw', hf', he', rfl⟩ := hy
  have hminus : ∀ {whole rest rest' : Bytes}, IsWhole whole →
      [] ++ (whole ++ rest) ≠ [45] ++ rest' := by
    intro whole rest rest' h heq
    obtain ⟨hne, hdigits⟩ := h.digits
    obtain ⟨b, others, rfl⟩ := List.exists_cons_of_ne_nil hne
    obtain rfl : b = 45 := (List.cons.inj heq).1
    exact absurd (hdigits 45 List.mem_cons_self) (by decide)
  have hsign : sign = sign' := by
    rcases hs with rfl | rfl <;> rcases hs' with rfl | rfl
    · rfl
    · exact absurd ht (hminus hw)
    · exact absurd ht.symm (hminus hw')
    · rfl
  subst hsign
  have hbody := List.append_cancel_left ht
  have hscan := scanDecimal_eq_some.mpr ⟨_, _, _, isScaled_parts hw hf he, rfl⟩
  have hscan' := scanDecimal_eq_some.mpr ⟨_, _, _, isScaled_parts hw' hf' he', rfl⟩
  rw [hbody, hscan'] at hscan
  rw [magnitude, magnitude, (Prod.mk.inj (Option.some.inj hscan)).1]

/-- The number of the nearest `double`, ties to even; zero when there is none. -/
def nearest (x : ℚ) : ℚ := (Number.round binary64 false x).toRat

/-- A number token that a reader accepts is read as the number nearest to what it denotes. -/
theorem toRat_finiteToken {t : Bytes} {x : ℚ} {y : Number binary64} (h : Denotes t x)
    (hy : finiteToken? t = some y) : y.toRat = nearest x := by
  obtain ⟨negative, hspells⟩ := h.spells
  rw [(hspells.finiteToken.mp hy).2]
  exact Number.toRat_round_sign negative false x

end Json
