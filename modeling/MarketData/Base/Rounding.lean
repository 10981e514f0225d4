import MarketData.Base.Bounds

/-!
# Rounding whole numbers

Rounding keeps the sign and the order of the numbers it rounds, and takes whole numbers to
whole numbers: what needs no more bits than the precision is its own rounding, and what
needs more is rounded to a multiple of a power of two.
-/

namespace Ieee

namespace Number

variable {F : Format}

/-- Rounding does not depend on the sign. -/
theorem toRat_round_neg (z z' : Bool) (x : ℚ) :
    (round F z (-x)).toRat = -(round F z' x).toRat := by
  rcases lt_trichotomy x 0 with hx | rfl | hx
  · simp only [round, abs_neg, neg_eq_zero, hx.ne, hx, not_lt_of_gt hx, neg_neg_iff_pos, if_false]
    split <;> simp [toRat]
  · rw [neg_zero, toRat_round_zero, toRat_round_zero, neg_zero]
  · simp only [round, abs_neg, neg_eq_zero, hx.ne', hx, not_lt_of_gt hx, neg_neg_iff_pos, if_false]
    split <;> simp [toRat]

/-- A finite rounding of a natural number in units of the format. -/
theorem toRat_round_natCast {z : Bool} {n : ℕ} (hf : (round F z n).isFinite = true) :
    (round F z n).toRat = F.roundUnits (n * 2 ^ F.scale) / 2 ^ F.scale := by
  have habs := abs_toRat_round hf
  rwa [abs_of_nonneg (toRat_round_nonneg (Nat.cast_nonneg n)), Nat.abs_cast] at habs

/-- Rounding keeps the order of natural numbers. -/
theorem toRat_round_mono {z z' : Bool} {m n : ℕ} (h : m ≤ n)
    (hn : (round F z' n).isFinite = true) : (round F z m).toRat ≤ (round F z' n).toRat := by
  have hunits : F.roundUnits ((m : ℚ) * 2 ^ F.scale) ≤ F.roundUnits ((n : ℚ) * 2 ^ F.scale) :=
    F.roundUnits_mono (by gcongr)
  have hm : (round F z m).isFinite = true := by
    rw [isFinite_round, Nat.abs_cast] at hn ⊢
    exact hunits.trans_lt hn
  rw [toRat_round_natCast hm, toRat_round_natCast hn]
  gcongr

/-- Rounding takes natural numbers to natural numbers. -/
theorem exists_toRat_round {z : Bool} {n : ℕ} (ht : F.precision + F.scale < F.width)
    (hf : (round F z n).isFinite = true) : ∃ k : ℕ, (round F z n).toRat = k := by
  by_cases hn : n ≤ 2 ^ F.precision
  · refine ⟨n, ?_⟩
    rw [toRat_round_sign z false]
    exact (ofNat_eq hn ht).2
  · -- the units are a multiple of the power of two by which they exceed the precision
    have hlarge : 2 ^ (F.precision + F.scale) ≤ F.roundUnits ((n : ℚ) * 2 ^ F.scale) := by
      apply F.two_pow_le_roundUnits
      rw [pow_add]
      gcongr
      exact_mod_cast (not_le.mp hn).le
    have hlog : F.precision + F.scale ≤ (F.roundUnits ((n : ℚ) * 2 ^ F.scale)).log2 :=
      (Nat.le_log2 (Nat.two_pow_pos _ |>.trans_le hlarge).ne').mpr hlarge
    obtain ⟨k, hk⟩ := (pow_dvd_pow 2 (show F.scale ≤ F.excess _ by
      simp only [Format.excess]
      omega)).trans (F.two_pow_excess_dvd_roundUnits ((n : ℚ) * 2 ^ F.scale))
    refine ⟨k, ?_⟩
    rw [toRat_round_natCast hf, hk]
    push_cast
    field_simp

end Number

end Ieee
