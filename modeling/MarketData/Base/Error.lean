import MarketData.Base.Order

/-!
# Rounding errors

A rounding is off by at most half a unit of the last place: by a fixed part of the number, or
by half the least positive value where the number is that small.
-/

namespace Ieee

/-- Rounding to a natural number is off by half at most. -/
theorem abs_roundHalfEven_sub_le {x : ℚ} (hx : 0 ≤ x) : |(roundHalfEven x : ℚ) - x| ≤ 1 / 2 := by
  have hlow : (⌊x⌋₊ : ℚ) ≤ x := Nat.floor_le hx
  have hhigh : x < ⌊x⌋₊ + 1 := Nat.lt_floor_add_one x
  rw [abs_le]
  simp only [roundHalfEven]
  split
  · next h => constructor <;> linarith
  · next h =>
    split
    · next h' =>
      push_cast
      constructor <;> linarith
    · next h' =>
      have htie : x - ⌊x⌋₊ = 1 / 2 := le_antisymm (not_lt.mp h') (not_lt.mp h)
      have hbit : ((⌊x⌋₊ % 2 : ℕ) : ℚ) ≤ 1 := by
        exact_mod_cast Nat.lt_succ_iff.mp (Nat.mod_lt _ (by decide))
      have hbit0 : (0 : ℚ) ≤ ((⌊x⌋₊ % 2 : ℕ) : ℚ) := Nat.cast_nonneg _
      push_cast at hbit hbit0 ⊢
      constructor <;> linarith

/-- Rounding to the precision of a format is off by a fixed part of the number, or by half a
unit. -/
theorem Format.abs_roundUnits_sub_le (F : Format) {s : ℚ} (hs : 0 ≤ s) :
    |(F.roundUnits s : ℚ) - s| ≤ s / 2 ^ F.precision + 1 / 2 := by
  have hpow : (0 : ℚ) < 2 ^ F.excess ⌊s⌋₊ := by positivity
  have herror := abs_roundHalfEven_sub_le (x := s / 2 ^ F.excess ⌊s⌋₊) (by positivity)
  have hscaled : |(F.roundUnits s : ℚ) - s| ≤ 2 ^ F.excess ⌊s⌋₊ / 2 := by
    have hsplit : (F.roundUnits s : ℚ) - s =
        (roundHalfEven (s / 2 ^ F.excess ⌊s⌋₊) - s / 2 ^ F.excess ⌊s⌋₊) *
          2 ^ F.excess ⌊s⌋₊ := by
      simp only [roundUnits]
      push_cast
      field_simp
    rw [hsplit, abs_mul, abs_of_pos hpow]
    have hmul := mul_le_mul_of_nonneg_right herror hpow.le
    linarith
  refine hscaled.trans ?_
  rcases Nat.eq_zero_or_pos (F.excess ⌊s⌋₊) with h0 | hpos
  · rw [h0, pow_zero]
    have hpart : 0 ≤ s / 2 ^ F.precision := by positivity
    linarith
  · -- the excess bits are a part of the number
    have hle := F.two_pow_le_of_excess hpos
    have hprecision : (2 : ℚ) ^ F.precision = 2 * 2 ^ (F.precision - 1) := by
      rw [← pow_succ', Nat.sub_add_cancel F.precision_pos]
    have hpart : 2 ^ F.excess ⌊s⌋₊ / 2 ≤ s / 2 ^ F.precision := by
      rw [hprecision, div_le_div_iff₀ (by norm_num) (by positivity)]
      rw [pow_add] at hle
      linarith
    linarith

namespace Number

variable {F : Format}

/-- A finite rounding is off by a fixed part of the number, or by half the least positive value. -/
theorem abs_toRat_round_sub_le {z : Bool} {x : ℚ} (hf : (round F z x).isFinite = true) :
    |(round F z x).toRat - x| ≤ |x| / 2 ^ F.precision + 1 / 2 ^ (F.scale + 1) := by
  have hscale : (0 : ℚ) < 2 ^ F.scale := by positivity
  have hunits := F.abs_roundUnits_sub_le (s := |x| * 2 ^ F.scale) (by positivity)
  have hsame : |(round F z x).toRat - x| =
      |(F.roundUnits (|x| * 2 ^ F.scale) : ℚ) - |x| * 2 ^ F.scale| / 2 ^ F.scale := by
    have hdiv : (F.roundUnits (|x| * 2 ^ F.scale) : ℚ) / 2 ^ F.scale - |x| =
        (F.roundUnits (|x| * 2 ^ F.scale) - |x| * 2 ^ F.scale) / 2 ^ F.scale := by field_simp
    rw [← abs_of_pos hscale, ← abs_div, abs_of_pos hscale, ← hdiv, toRat_round hf]
    split
    · next hx =>
      rw [abs_of_neg hx, ← abs_neg]
      congr 1
      ring
    · next hx => rw [abs_of_nonneg (not_lt.mp hx)]
  rw [hsame, div_le_iff₀ hscale]
  refine hunits.trans_eq ?_
  rw [pow_succ]
  field_simp

end Number

end Ieee
