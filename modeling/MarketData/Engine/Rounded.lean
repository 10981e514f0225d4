import MarketData.Base.Order
import MarketData.Base.OrderStatistics
import MarketData.Engine.Summary

/-!
# Latency distributions as compiled

What `summarize` keeps of the order of two lists of latencies in `double`. Sums, quotients and
sorting are monotone, whatever is rounded. An interpolated percentile is not: a difference that is
rounded down can outweigh a greater lower rank, so nothing is said about it here.
-/

namespace MarketData

open Cpp Ieee

/-! ### Sums -/

private theorem isFinite_of_div {a b : Double} (hb : b.isFinite = true)
    (h : (a / b).isFinite = true) : a.isFinite = true := by
  change (Number.div a b).isFinite = true at h
  cases a with
  | nan => cases h
  | infinite s =>
    cases b with
    | nan => cases hb
    | infinite t => cases hb
    | finite t n => cases h
  | finite s m => rfl

private theorem isFinite_of_add {a b : Double} (h : (a + b).isFinite = true) :
    a.isFinite = true ∧ b.isFinite = true := by
  change (Number.add a b).isFinite = true at h
  cases a with
  | nan => cases h
  | infinite s =>
    cases b with
    | nan => cases h
    | infinite t =>
      rw [Number.add] at h
      split at h <;> cases h
    | finite t n => cases h
  | finite s m =>
    cases b with
    | nan => cases h
    | infinite t => cases h
    | finite t n => exact ⟨rfl, rfl⟩

private theorem isFinite_of_foldl {values : List Double} {sum : Double}
    (h : (values.foldl (· + ·) sum).isFinite = true) :
    sum.isFinite = true ∧ ∀ x ∈ values, x.isFinite = true := by
  induction values generalizing sum with
  | nil => exact ⟨h, fun x hx ↦ absurd hx List.not_mem_nil⟩
  | cons x values ih =>
    obtain ⟨hadd, hall⟩ := ih h
    obtain ⟨hsum, hx⟩ := isFinite_of_add hadd
    exact ⟨hsum, List.forall_mem_cons.mpr ⟨hx, hall⟩⟩

private theorem foldl_add_mono {xs ys : List Double} {a b : Double}
    (h : List.Forall₂ (fun x y ↦ x.toRat ≤ y.toRat) xs ys) (hx : ∀ x ∈ xs, x.isFinite = true)
    (hy : ∀ y ∈ ys, y.isFinite = true) (hab : a.le b = true) :
    (xs.foldl (· + ·) a).le (ys.foldl (· + ·) b) = true := by
  induction h generalizing a b with
  | nil => exact hab
  | cons hxy _ ih =>
    obtain ⟨hx, hxs⟩ := List.forall_mem_cons.mp hx
    obtain ⟨hy, hys⟩ := List.forall_mem_cons.mp hy
    exact ih hxs hys (Number.add_mono hab hx hy hxy)

private theorem foldl_add_nonneg {values : List Double} {sum : Double}
    (h : ∀ x ∈ values, x.isFinite = true ∧ 0 ≤ x.toRat) (hsum : Number.zero.le sum = true) :
    Number.zero.le (values.foldl (· + ·) sum) = true := by
  induction values generalizing sum with
  | nil => exact hsum
  | cons x values ih =>
    obtain ⟨⟨hx, h0⟩, hvalues⟩ := List.forall_mem_cons.mp h
    have hadd := Number.add_mono hsum (Number.isFinite_zero) hx (by rwa [Number.toRat_zero])
    exact ih hvalues (Number.le_of_le_of_le (by decide +kernel) hadd)

/-! ### Sorting -/

private theorem perm_sortValues {values sorted : List Double}
    (hs : sortValues values = .ok sorted) : sorted.Perm values := by
  unfold sortValues at hs
  split at hs
  · cases hs
  · obtain rfl := Except.ok.inj hs
    exact List.perm_insertionSort _ _

private theorem sorted_sortValues {values sorted : List Double}
    (hf : ∀ x ∈ values, x.isFinite = true) (hs : sortValues values = .ok sorted) :
    (sorted.map Number.toRat).Pairwise (· ≤ ·) := by
  unfold sortValues at hs
  split at hs
  · cases hs
  · obtain rfl := Except.ok.inj hs
    have horder : ∀ x ∈ values, ∀ y ∈ values,
        Arithmetic.lt y x = false ↔ x.toRat ≤ y.toRat := by
      intro x hx y hy
      have hlt : Arithmetic.lt y x = decide (y.toRat < x.toRat) := Number.lt_eq (hf y hy) (hf x hx)
      rw [hlt, decide_eq_false_iff_not, not_lt]
    have hmap := List.map_insertionSort (fun a b : Double ↦ Arithmetic.lt b a = false) (· ≤ ·)
      Number.toRat values horder
    rw [hmap]
    exact List.pairwise_insertionSort _ _

private theorem forall₂_toRat {xs ys : List Double} (hx : ∀ x ∈ xs, x.isFinite = true)
    (hy : ∀ y ∈ ys, y.isFinite = true) (h : List.Forall₂ (fun x y ↦ x.le y = true) xs ys) :
    List.Forall₂ (fun x y ↦ x.toRat ≤ y.toRat) xs ys := by
  obtain ⟨hlength, hzip⟩ := List.forall₂_iff_zip.mp h
  refine List.forall₂_iff_zip.mpr ⟨hlength, fun {x y} hmem ↦ ?_⟩
  obtain ⟨hxs, hys⟩ := List.of_mem_zip hmem
  exact (Number.le_iff (hx x hxs) (hy y hys)).mp (hzip hmem)

private theorem forall₂_sortValues {xs ys sorted sorted' : List Double}
    (h : List.Forall₂ (fun x y ↦ x.toRat ≤ y.toRat) xs ys) (hx : ∀ x ∈ xs, x.isFinite = true)
    (hy : ∀ y ∈ ys, y.isFinite = true) (hs : sortValues xs = .ok sorted)
    (hs' : sortValues ys = .ok sorted') :
    List.Forall₂ (fun x y ↦ x.toRat ≤ y.toRat) sorted sorted' := by
  have hperm := perm_sortValues hs
  have hperm' := perm_sortValues hs'
  have hmap : List.Forall₂ (· ≤ ·) (xs.map Number.toRat) (ys.map Number.toRat) := by
    simpa [List.forall₂_map_left_iff, List.forall₂_map_right_iff] using h
  refine List.forall₂_iff_get.mpr ⟨?_, fun k hk hk' ↦ ?_⟩
  · rw [hperm.length_eq, hperm'.length_eq, h.length_eq]
  · have hrank := OrderStatistics.rank_le_rank hmap (sorted_sortValues hx hs)
      (sorted_sortValues hy hs') (hperm.map _) (hperm'.map _) (k := k) (by simpa using hk)
      (by simpa using hk')
    simpa using hrank

private theorem getLastD_le {xs ys : List Double} {a b : Double}
    (h : List.Forall₂ (fun x y ↦ x.toRat ≤ y.toRat) xs ys) (hab : a.toRat ≤ b.toRat) :
    (xs.getLastD a).toRat ≤ (ys.getLastD b).toRat := by
  induction h generalizing a b with
  | nil => exact hab
  | cons hxy _ ih =>
    rw [List.getLastD_cons, List.getLastD_cons]
    exact ih hxy

/-! ### Summaries -/

private theorem summarize_sorted {values : List Double} {d : LatencyDistribution}
    (hne : values ≠ []) (h : summarize values = .ok d) :
    ∃ sorted, sortValues values = .ok sorted ∧
      d.meanUs = accumulate sorted / literal (sorted.length : ℚ) ∧ d.minUs = sorted.headD 0 ∧
      d.maxUs = sorted.getLastD 0 := by
  rw [summarize, if_neg (by simpa using hne)] at h
  obtain ⟨sorted, hs, h⟩ := bind_eq_ok.mp h
  obtain ⟨_, -, h⟩ := bind_eq_ok.mp h
  obtain ⟨_, -, h⟩ := bind_eq_ok.mp h
  obtain ⟨_, -, h⟩ := bind_eq_ok.mp h
  obtain ⟨_, -, h⟩ := bind_eq_ok.mp h
  obtain rfl := Except.ok.inj h
  exact ⟨sorted, hs, rfl, rfl, rfl⟩

private theorem count_pos {values : List Double} (hne : values ≠ [])
    (hlen : values.length < 2 ^ 64) :
    (literal (values.length : ℚ) : Double).isFinite = true ∧
      0 < (literal (values.length : ℚ) : Double).toRat := by
  have hle : |(values.length : ℚ)| ≤ 2 ^ 64 := by
    rw [abs_of_nonneg (Nat.cast_nonneg _)]
    exact_mod_cast hlen.le
  have hf : (literal (values.length : ℚ) : Double).isFinite = true :=
    Number.isFinite_round_of_le (by decide) hle
  have h1 : (1 : ℚ) / 2 ^ 0 ≤ values.length := by
    have hpos : 1 ≤ values.length := List.length_pos_iff.mpr hne
    simpa using hpos
  have hone := Number.le_toRat_round (Nat.zero_le _) hf h1
  rw [pow_zero, div_one] at hone
  exact ⟨hf, zero_lt_one.trans_le hone⟩

private theorem isFinite_of_mean {values : List Double} {d : LatencyDistribution}
    (hne : values ≠ []) (hlen : values.length < 2 ^ 64) (h : summarize values = .ok d)
    (hmean : d.meanUs.isFinite = true) : ∀ x ∈ values, x.isFinite = true := by
  obtain ⟨sorted, hs, hm, -, -⟩ := summarize_sorted hne h
  have hperm : sorted.Perm values := perm_sortValues hs
  obtain ⟨hcount, hpos⟩ := count_pos hne hlen
  rw [hm, hperm.length_eq] at hmean
  intro x hx
  exact (isFinite_of_foldl (isFinite_of_div hcount hmean)).2 x (hperm.mem_iff.mpr hx)

/-- Latencies that are not higher have no higher mean, least and greatest latency. -/
theorem summarize_mono {xs ys : List Double} {d d' : LatencyDistribution} (hne : xs ≠ [])
    (hlen : xs.length < 2 ^ 64) (h : List.Forall₂ (fun x y ↦ x.le y = true) xs ys)
    (hd : summarize xs = .ok d) (hd' : summarize ys = .ok d') (hm : d.meanUs.isFinite = true)
    (hm' : d'.meanUs.isFinite = true) :
    d.meanUs.toRat ≤ d'.meanUs.toRat ∧ d.minUs.toRat ≤ d'.minUs.toRat ∧
      d.maxUs.toRat ≤ d'.maxUs.toRat := by
  have hlength := h.length_eq
  have hne' : ys ≠ [] := List.ne_nil_of_length_pos (hlength ▸ List.length_pos_iff.mpr hne)
  have hx := isFinite_of_mean hne hlen hd hm
  have hy := isFinite_of_mean hne' (hlength ▸ hlen) hd' hm'
  obtain ⟨sorted, hs, hmean, hmin, hmax⟩ := summarize_sorted hne hd
  obtain ⟨sorted', hs', hmean', hmin', hmax'⟩ := summarize_sorted hne' hd'
  have hsorted := forall₂_sortValues (forall₂_toRat hx hy h) hx hy hs hs'
  have hxs : ∀ x ∈ sorted, x.isFinite = true :=
    fun x hmem ↦ hx x ((perm_sortValues hs).mem_iff.mp hmem)
  have hys : ∀ y ∈ sorted', y.isFinite = true :=
    fun y hmem ↦ hy y ((perm_sortValues hs').mem_iff.mp hmem)
  refine ⟨?_, ?_, ?_⟩
  · rw [← Number.le_iff hm hm', hmean, hmean', (perm_sortValues hs).length_eq,
      (perm_sortValues hs').length_eq, ← hlength]
    obtain ⟨hcount, hpos⟩ := count_pos hne hlen
    have hzero : (Number.zero : Double).le .zero = true := Number.le_rfl_of_ne_nan nofun
    exact Number.div_mono (foldl_add_mono hsorted hxs hys hzero) hcount hpos
  · rw [hmin, hmin']
    cases hsorted with
    | nil => exact le_rfl
    | cons hxy _ => exact hxy
  · rw [hmax, hmax']
    exact getLastD_le hsorted le_rfl

/-- Latencies that are not negative have a mean and a greatest latency that are not negative. -/
theorem summarize_nonneg {values : List Double} {d : LatencyDistribution} (hne : values ≠ [])
    (hlen : values.length < 2 ^ 64) (h : ∀ x ∈ values, 0 ≤ x.toRat)
    (hd : summarize values = .ok d) (hm : d.meanUs.isFinite = true) :
    0 ≤ d.meanUs.toRat ∧ 0 ≤ d.maxUs.toRat := by
  have hf := isFinite_of_mean hne hlen hd hm
  obtain ⟨sorted, hs, hmean, -, hmax⟩ := summarize_sorted hne hd
  have hperm := perm_sortValues hs
  have hsorted : ∀ x ∈ sorted, x.isFinite = true ∧ 0 ≤ x.toRat := fun x hx ↦
    ⟨hf x (hperm.mem_iff.mp hx), h x (hperm.mem_iff.mp hx)⟩
  obtain ⟨hcount, hpos⟩ := count_pos hne hlen
  constructor
  · have hzero : (Number.zero : Double).le .zero = true := Number.le_rfl_of_ne_nan nofun
    have hsum : (accumulate sorted).isFinite = true := by
      rw [hmean, hperm.length_eq] at hm
      exact isFinite_of_div hcount hm
    have h0 : 0 ≤ (accumulate sorted).toRat := by
      have hfold : Number.zero.le (accumulate sorted) = true := foldl_add_nonneg hsorted hzero
      rwa [Number.le_iff Number.isFinite_zero hsum, Number.toRat_zero] at hfold
    obtain ⟨z, hz⟩ := Number.exists_div_eq hsum hcount hpos.ne'
    have hround : d.meanUs = Number.round binary64 z
        ((accumulate sorted).toRat / (literal (values.length : ℚ) : Double).toRat) := by
      rw [hmean, hperm.length_eq]
      exact hz
    rw [hround]
    exact Number.toRat_round_nonneg (div_nonneg h0 hpos.le)
  · rw [hmax]
    cases sorted with
    | nil => exact (Number.toRat_zero (F := binary64)).ge
    | cons x sorted =>
      rw [List.getLastD_cons]
      exact (hsorted _ List.getLastD_mem_cons).2

end MarketData
