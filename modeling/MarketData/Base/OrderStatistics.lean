import Mathlib.Algebra.Order.Floor.Semiring
import Mathlib.Algebra.Order.Field.Basic
import Mathlib.Data.List.Sort
import Mathlib.Tactic.Linarith
import Mathlib.Tactic.Ring

/-!
# Order statistics

Ranks of a sorted list: how many elements of any permutation of it stand below or above a rank,
and that a list below another keeps its ranks below. Values between two ranks are interpolated
linearly.
-/

namespace OrderStatistics

/-! ### Ranks -/

section

variable {α : Type} [LinearOrder α] {sorted : List α}

/-- Up to a rank, and at it, nothing is greater. -/
theorem succ_le_countP_le (hs : sorted.Pairwise (· ≤ ·)) {k : ℕ} (hk : k < sorted.length) :
    k + 1 ≤ sorted.countP (· ≤ sorted[k]) := by
  have hall : (sorted.take (k + 1)).countP (· ≤ sorted[k]) = (sorted.take (k + 1)).length := by
    rw [List.countP_eq_length]
    intro a ha
    obtain ⟨i, hi, rfl⟩ := List.getElem_of_mem ha
    rw [List.length_take] at hi
    rw [List.getElem_take, decide_eq_true_eq]
    rcases Nat.eq_or_lt_of_le (show i ≤ k by omega) with rfl | hlt
    · exact le_rfl
    · exact List.pairwise_iff_getElem.mp hs i k (by omega) hk hlt
  have hpart := (List.take_sublist (k + 1) sorted).countP_le (p := (· ≤ sorted[k]))
  rw [hall, List.length_take] at hpart
  omega

/-- From a rank on nothing is less. -/
theorem length_sub_le_countP_ge (hs : sorted.Pairwise (· ≤ ·)) {k : ℕ} (hk : k < sorted.length) :
    sorted.length - k ≤ sorted.countP (sorted[k] ≤ ·) := by
  have hall : (sorted.drop k).countP (sorted[k] ≤ ·) = (sorted.drop k).length := by
    rw [List.countP_eq_length]
    intro a ha
    obtain ⟨i, hi, rfl⟩ := List.getElem_of_mem ha
    rw [List.length_drop] at hi
    rw [List.getElem_drop, decide_eq_true_eq]
    rcases Nat.eq_zero_or_pos i with rfl | hpos
    · exact le_rfl
    · exact List.pairwise_iff_getElem.mp hs k (k + i) hk (by omega) (by omega)
  have hpart := (List.drop_sublist k sorted).countP_le (p := (sorted[k] ≤ ·))
  rwa [hall, List.length_drop] at hpart

/-- Below a rank there are no more elements than the rank counts. -/
theorem countP_le_of_lt (hs : sorted.Pairwise (· ≤ ·)) {k : ℕ} (hk : k < sorted.length) {c : α}
    (hc : c < sorted[k]) : sorted.countP (· ≤ c) ≤ k := by
  have hnone : (sorted.drop k).countP (· ≤ c) = 0 := by
    rw [List.countP_eq_zero]
    intro a ha
    obtain ⟨i, hi, rfl⟩ := List.getElem_of_mem ha
    rw [List.length_drop] at hi
    rw [List.getElem_drop, decide_eq_true_eq, not_le]
    rcases Nat.eq_zero_or_pos i with rfl | hpos
    · exact hc
    · exact hc.trans_le (List.pairwise_iff_getElem.mp hs k (k + i) hk (by omega) (by omega))
  have hsplit : (sorted.take k ++ sorted.drop k).countP (· ≤ c) =
      (sorted.take k).countP (· ≤ c) + (sorted.drop k).countP (· ≤ c) := List.countP_append
  have htake : (sorted.take k).countP (· ≤ c) ≤ (sorted.take k).length := List.countP_le_length
  rw [List.take_append_drop, hnone] at hsplit
  rw [List.length_take] at htake
  omega

/-- The lower of two lists has more elements below a bound. -/
theorem countP_le_countP {xs ys : List α} (h : List.Forall₂ (· ≤ ·) xs ys) (c : α) :
    ys.countP (· ≤ c) ≤ xs.countP (· ≤ c) := by
  induction h with
  | nil => exact le_rfl
  | @cons x y xs ys hxy _ ih =>
    rw [List.countP_cons, List.countP_cons]
    by_cases hy : y ≤ c
    · simp only [decide_eq_true hy, decide_eq_true (hxy.trans hy), if_true]
      omega
    · simp only [decide_eq_false hy, Bool.false_eq_true, if_false]
      omega

/-- Two lists of one length, one below the other, keep their ranks in this order, whatever the two
permutations are that sort them. -/
theorem rank_le_rank {xs ys sorted' : List α} (h : List.Forall₂ (· ≤ ·) xs ys)
    (hs : sorted.Pairwise (· ≤ ·)) (hs' : sorted'.Pairwise (· ≤ ·)) (hx : sorted.Perm xs)
    (hy : sorted'.Perm ys) {k : ℕ} (hk : k < sorted.length) (hk' : k < sorted'.length) :
    sorted[k] ≤ sorted'[k] := by
  by_contra hlt
  rw [not_le] at hlt
  have hbelow : sorted.countP (· ≤ sorted'[k]) ≤ k := countP_le_of_lt hs hk hlt
  have habove : k + 1 ≤ sorted'.countP (· ≤ sorted'[k]) := succ_le_countP_le hs' hk'
  have hcount := countP_le_countP h sorted'[k]
  rw [hx.countP_eq] at hbelow
  rw [hy.countP_eq] at habove
  omega

end

/-! ### Interpolation -/

section

variable {K : Type} [Field K] [LinearOrder K] [IsStrictOrderedRing K] [FloorSemiring K]

/-- The value at a position between two ranks. -/
def interpolate (f : ℕ → K) (x : K) : K := f ⌊x⌋₊ + (f ⌈x⌉₊ - f ⌊x⌋₊) * (x - ⌊x⌋₊)

variable {f g : ℕ → K} {x y : K}

private theorem weight_nonneg (hx : 0 ≤ x) : 0 ≤ x - ⌊x⌋₊ := sub_nonneg.mpr (Nat.floor_le hx)

private theorem weight_le_one (x : K) : x - ⌊x⌋₊ ≤ 1 := by
  have h := Nat.lt_floor_add_one x
  linarith

/-- An interpolated value is not below the rank under it. -/
theorem le_interpolate (hx : 0 ≤ x) (hf : f ⌊x⌋₊ ≤ f ⌈x⌉₊) : f ⌊x⌋₊ ≤ interpolate f x :=
  le_add_of_nonneg_right (mul_nonneg (sub_nonneg.mpr hf) (weight_nonneg hx))

/-- An interpolated value is not above the rank over it. -/
theorem interpolate_le (hf : f ⌊x⌋₊ ≤ f ⌈x⌉₊) : interpolate f x ≤ f ⌈x⌉₊ := by
  have h := mul_le_of_le_one_right (sub_nonneg.mpr hf) (weight_le_one x)
  rw [interpolate]
  linarith

/-- Higher ranks have higher values between them. -/
theorem interpolate_le_interpolate (hx : 0 ≤ x) (hfloor : f ⌊x⌋₊ ≤ g ⌊x⌋₊)
    (hceil : f ⌈x⌉₊ ≤ g ⌈x⌉₊) : interpolate f x ≤ interpolate g x := by
  have hmix : ∀ h : ℕ → K,
      interpolate h x = h ⌊x⌋₊ * (1 - (x - ⌊x⌋₊)) + h ⌈x⌉₊ * (x - ⌊x⌋₊) := by
    intro h
    rw [interpolate]
    ring
  rw [hmix, hmix]
  exact add_le_add (mul_le_mul_of_nonneg_right hfloor (sub_nonneg.mpr (weight_le_one x)))
    (mul_le_mul_of_nonneg_right hceil (weight_nonneg hx))

omit [IsStrictOrderedRing K] in
private theorem ceil_eq_floor_add_one {k : ℕ} (hk : ⌊x⌋₊ = k) (hlt : (k : K) < x) :
    ⌈x⌉₊ = k + 1 := by
  refine le_antisymm ((Nat.ceil_le_floor_add_one x).trans_eq (by rw [hk])) ?_
  exact Nat.lt_ceil.mpr hlt

/-- Interpolation between increasing ranks increases with the position. -/
theorem interpolate_mono {n : ℕ} (hf : MonotoneOn f (Set.Iio n)) (hx : 0 ≤ x) (hxy : x ≤ y)
    (hn : ⌈y⌉₊ < n) : interpolate f x ≤ interpolate f y := by
  have hfloor : ⌊x⌋₊ ≤ ⌊y⌋₊ := Nat.floor_mono hxy
  have hceil : ⌈x⌉₊ ≤ ⌈y⌉₊ := Nat.ceil_mono hxy
  have hle : ∀ {i j : ℕ}, i ≤ j → j ≤ ⌈y⌉₊ → f i ≤ f j := fun hij hj ↦
    hf (Set.mem_Iio.mpr (by omega)) (Set.mem_Iio.mpr (by omega)) hij
  have hbelow : f ⌊y⌋₊ ≤ interpolate f y :=
    le_interpolate (hx.trans hxy) (hle (Nat.floor_le_ceil y) le_rfl)
  have habove : interpolate f x ≤ f ⌈x⌉₊ := interpolate_le (hle (Nat.floor_le_ceil x) hceil)
  rcases Nat.eq_or_lt_of_le hfloor with heq | hlt
  · rcases (Nat.floor_le hx).eq_or_lt with hint | hfrac
    · -- At an integral position the value is the rank itself.
      have hrank : interpolate f x = f ⌊x⌋₊ := by
        rw [interpolate, sub_eq_zero.mpr hint.symm, mul_zero, add_zero]
      rw [hrank, heq]
      exact hbelow
    · -- Both positions lie on the same segment, which does not fall.
      have hx1 := ceil_eq_floor_add_one rfl hfrac
      have hy1 := ceil_eq_floor_add_one heq.symm (hfrac.trans_le hxy)
      have hslope : 0 ≤ f (⌊x⌋₊ + 1) - f ⌊x⌋₊ :=
        sub_nonneg.mpr (hle (Nat.le_succ _) (by omega))
      have hgrow := mul_le_mul_of_nonneg_left (sub_le_sub_right hxy (⌊x⌋₊ : K)) hslope
      rw [interpolate, interpolate, hx1, hy1, ← heq]
      exact add_le_add_right hgrow _
  · -- The upper end of the first segment is no further than the lower end of the second.
    have hsep : ⌈x⌉₊ ≤ ⌊y⌋₊ := by
      have := Nat.ceil_le_floor_add_one x
      omega
    exact habove.trans ((hle hsep (Nat.floor_le_ceil y)).trans hbelow)

end

end OrderStatistics
