import MarketData.Base.Arithmetic
import Mathlib.Analysis.Real.Sqrt

/-!
# Exact arithmetic

The operations of numeric code on real numbers, without rounding, overflow or NaN.
-/

namespace Cpp

noncomputable instance : Arithmetic ℝ where
  literal x := x
  lt a b := decide (a < b)
  isNan _ := false
  sqrt := Real.sqrt
  floorIndex x := indexOf ⌊x⌋
  ceilIndex x := indexOf ⌈x⌉

/-- A clamped number lies between its bounds. -/
theorem clamp_mem {x low high : ℝ} (h : low ≤ high) :
    low ≤ clamp x low high ∧ clamp x low high ≤ high := by
  unfold clamp
  split
  · exact ⟨le_rfl, h⟩
  · next hlow =>
    split
    · exact ⟨h, le_rfl⟩
    · next hhigh =>
      simp only [Arithmetic.lt, decide_eq_true_eq, not_lt] at hlow hhigh
      exact ⟨hlow, hhigh⟩

/-- A number between the bounds is not changed. -/
theorem clamp_of_mem {x low high : ℝ} (hlow : low ≤ x) (hhigh : x ≤ high) :
    clamp x low high = x := by
  simp [clamp, Arithmetic.lt, not_lt.mpr hlow, not_lt.mpr hhigh]

private theorem indexOf_natCast {n : ℕ} (h : n < 2 ^ 64) : indexOf (n : ℤ) = .ok n := by
  rw [indexOf, if_pos ⟨Int.natCast_nonneg n, by exact_mod_cast h⟩, Int.toNat_natCast]

/-- The index below a number in the range of `size_t`. -/
theorem floorIndex_eq {x : ℝ} (hx : 0 ≤ x) {n : ℕ} (hn : ⌊x⌋₊ ≤ n) (h : n < 2 ^ 64) :
    Arithmetic.floorIndex x = .ok ⌊x⌋₊ := by
  have hcast : ((⌊x⌋₊ : ℕ) : ℤ) = ⌊x⌋ := Int.natCast_floor_eq_floor hx
  change indexOf ⌊x⌋ = _
  rw [← hcast]
  exact indexOf_natCast (by omega)

/-- The index above a number in the range of `size_t`. -/
theorem ceilIndex_eq {x : ℝ} (hx : 0 ≤ x) {n : ℕ} (hn : ⌈x⌉₊ ≤ n) (h : n < 2 ^ 64) :
    Arithmetic.ceilIndex x = .ok ⌈x⌉₊ := by
  have hcast : ((⌈x⌉₊ : ℕ) : ℤ) = ⌈x⌉ := Int.natCast_ceil_eq_ceil hx
  change indexOf ⌈x⌉ = _
  rw [← hcast]
  exact indexOf_natCast (by omega)

end Cpp
