import MarketData.Engine.Distribution
import MarketData.Ingress.Main

/-!
# What a met target says

The check of the target in `main`, and what its percentile guarantees in exact arithmetic: how many
calls met the target, and that a slower run does not pass where a faster one fails.
-/

namespace MarketData.Ingress

open Cpp OrderStatistics

/-! ### The check -/

/-- The check of the target: there is one, and the percentile is above it. -/
def missesTarget {α : Type} [Arithmetic α] (target p99 : α) : Bool :=
  Arithmetic.lt 0 target && Arithmetic.lt target p99

/-- `main` returns three when the selected distribution misses the target. -/
theorem targetExitCode_selected {options : RunOptions} {stats : InferenceStats}
    {d : LatencyDistribution} (h : selectedDistribution options stats = some d) :
    targetExitCode options stats =
      if missesTarget options.targetLatencyUs d.p99Us then 3 else 0 := by
  have hlt : ∀ a b : Double, Arithmetic.lt a b = a.lt b := fun _ _ ↦ rfl
  have hzero : (0 : Double) = Ieee.Number.zero := rfl
  unfold selectedDistribution at h
  rw [missesTarget, hlt, hlt, hzero, targetExitCode]
  cases hset : Ieee.Number.zero.lt options.targetLatencyUs with
  | false => rfl
  | true =>
    cases hscope : options.targetScope with
    | endToEnd =>
      rw [hscope] at h
      obtain rfl := Option.some.inj h
      simp
    | deviceCompute =>
      rw [hscope] at h
      simp [show stats.deviceCompute = some d from h]

private theorem missesTarget_eq_false {target p99 : ℝ} :
    missesTarget target p99 = false ↔ (0 < target → p99 ≤ target) := by
  have hzero : ∀ a : ℝ, Arithmetic.lt 0 a = decide (0 < a) := fun _ ↦ rfl
  have hlt : ∀ a b : ℝ, Arithmetic.lt a b = decide (a < b) := fun _ _ ↦ rfl
  rw [missesTarget, hzero, hlt]
  simp

/-! ### Calls that met the target -/

private theorem natCast_pred {n : ℕ} (hn : n ≠ 0) : ((n - 1 : ℕ) : ℝ) = (n : ℝ) - 1 :=
  Nat.cast_pred (Nat.pos_of_ne_zero hn)

/-- At least as many latencies as the rank of a percentile counts are not above it, and as many as
stand from it on are not below it. A met target is met by as many calls as the rank of its
percentile counts. -/
theorem rank_guarantee {values sorted : List ℝ} (hne : values ≠ []) (hlen : values.length < 2 ^ 64)
    (hsort : sortValues values = .ok sorted) :
    (∀ p : ℝ, 0 ≤ p → p ≤ 1 → ∃ v, percentile sorted p = .ok v ∧
      ⌊p * ((values.length : ℝ) - 1)⌋₊ + 1 ≤ values.countP (· ≤ v) ∧
      values.length - ⌈p * ((values.length : ℝ) - 1)⌉₊ ≤ values.countP (v ≤ ·)) ∧
    ∀ (d : LatencyDistribution ℝ) (target : ℝ), summarize values = .ok d → 0 < target →
      missesTarget target d.p99Us = false →
      ⌊99 / 100 * ((values.length : ℝ) - 1)⌋₊ + 1 ≤ values.countP (· ≤ target) := by
  obtain ⟨sorted', hsort', hperm, hs⟩ := exists_sortValues values
  obtain rfl := Except.ok.inj (hsort.symm.trans hsort')
  have hne' := ne_nil_of_perm hperm hne
  have hn : values.length ≠ 0 := by simpa using hne
  have hposition : ∀ p : ℝ, 0 ≤ p → p ≤ 1 →
      percentilePosition sorted.length p = p * ((values.length : ℝ) - 1) := by
    intro p hp hp'
    rw [percentilePosition_eq hp hp', hperm.length_eq, natCast_pred hn]
  have hbelow : ∀ p : ℝ, 0 ≤ p → p ≤ 1 →
      ⌊p * ((values.length : ℝ) - 1)⌋₊ + 1 ≤ values.countP (· ≤ rankOf sorted p) := by
    intro p hp hp'
    have h := succ_floor_le_countP hne' hs p
    rwa [hposition p hp hp', hperm.countP_eq] at h
  constructor
  · intro p hp hp'
    refine ⟨rankOf sorted p, percentile_eq hne' (by rwa [hperm.length_eq]) p, hbelow p hp hp', ?_⟩
    have h := length_sub_ceil_le_countP hne' hs p
    rwa [hposition p hp hp', hperm.countP_eq, hperm.length_eq] at h
  · intro d target hd htarget hmet
    rw [summarize_eq hne hlen hsort hperm] at hd
    obtain rfl := Except.ok.inj hd
    have hp99 : rankOf sorted (99 / 100) ≤ target := missesTarget_eq_false.mp hmet htarget
    refine (hbelow (99 / 100) (by norm_num) (by norm_num)).trans
      (List.countP_mono_left fun a _ ha ↦ ?_)
    rw [decide_eq_true_eq] at ha ⊢
    exact ha.trans hp99

/-- The median of three latencies has two of them on either side. -/
theorem rank_guarantee_three :
    ∃ sorted v, sortValues [3, 1, (2 : ℝ)] = .ok sorted ∧ percentile sorted (1 / 2) = .ok v ∧
      2 ≤ [3, 1, (2 : ℝ)].countP (· ≤ v) ∧ 2 ≤ [3, 1, (2 : ℝ)].countP (v ≤ ·) := by
  obtain ⟨sorted, hsort, -⟩ := exists_sortValues [3, 1, (2 : ℝ)]
  obtain ⟨hrank, -⟩ := rank_guarantee (List.cons_ne_nil _ _) (by decide) hsort
  obtain ⟨v, hv, hbelow, habove⟩ := hrank (1 / 2) (by norm_num) (by norm_num)
  have hposition : 1 / 2 * (([3, 1, (2 : ℝ)].length : ℝ) - 1) = (1 : ℕ) := by norm_num
  rw [hposition, Nat.floor_natCast] at hbelow
  rw [hposition, Nat.ceil_natCast] at habove
  exact ⟨sorted, v, hsort, hv, hbelow, habove⟩

/-! ### A slower run -/

/-- No statistic but the deviation is above the other's. -/
structure NotSlower (d e : LatencyDistribution ℝ) : Prop where
  meanUs : d.meanUs ≤ e.meanUs
  minUs : d.minUs ≤ e.minUs
  p50Us : d.p50Us ≤ e.p50Us
  p90Us : d.p90Us ≤ e.p90Us
  p95Us : d.p95Us ≤ e.p95Us
  p99Us : d.p99Us ≤ e.p99Us
  maxUs : d.maxUs ≤ e.maxUs

/-- A run whose calls are not slower has no slower statistics, and meets every target that the
other one meets. -/
theorem slower_never_faster {xs ys : List ℝ} (h : List.Forall₂ (· ≤ ·) xs ys) (hne : xs ≠ [])
    (hlen : xs.length < 2 ^ 64) :
    ∃ d e, summarize xs = .ok d ∧ summarize ys = .ok e ∧ NotSlower d e ∧
      ∀ target, missesTarget target e.p99Us = false → missesTarget target d.p99Us = false := by
  obtain ⟨sorted, hsort, hx, hs⟩ := exists_sortValues xs
  obtain ⟨sorted', hsort', hy, hs'⟩ := exists_sortValues ys
  have hlength : xs.length = ys.length := h.length_eq
  have hney : ys ≠ [] := by
    rintro rfl
    exact hne (List.eq_nil_of_length_eq_zero hlength)
  have hne₁ := ne_nil_of_perm hx hne
  have hne₂ := ne_nil_of_perm hy hney
  have hlengths : sorted.length = sorted'.length := by rw [hx.length_eq, hlength, hy.length_eq]
  have hle : ∀ rank < sorted.length, valueAt sorted rank ≤ valueAt sorted' rank :=
    fun _ hrank ↦ valueAt_le_valueAt h hs hs' hx hy hrank
  have hrank := rankOf_le_rankOf hlengths hle hne₁
  refine ⟨_, _, summarize_eq hne hlen hsort hx,
    summarize_eq hney (by rwa [← hlength]) hsort' hy, ?_, ?_⟩
  · refine {
      meanUs := ?_
      minUs := headD_le_headD hle hne₁ hne₂
      p50Us := hrank _
      p90Us := hrank _
      p95Us := hrank _
      p99Us := hrank _
      maxUs := getLastD_le_getLastD hlengths hle hne₁ hne₂ }
    rw [summaryOf, summaryOf, hx.sum_eq, hy.sum_eq, hlengths]
    exact div_le_div_of_nonneg_right h.sum_le_sum (Nat.cast_nonneg _)
  · intro target hmet
    rw [missesTarget_eq_false] at hmet ⊢
    exact fun htarget ↦ (hrank _).trans (hmet htarget)

/-- Two calls, of which the second run makes one slower. -/
theorem slower_never_faster_two :
    ∃ d e, summarize [3, (1 : ℝ)] = .ok d ∧ summarize [3, (2 : ℝ)] = .ok e ∧ NotSlower d e := by
  obtain ⟨d, e, hd, he, hslower, -⟩ := slower_never_faster
    (.cons le_rfl (.cons one_le_two .nil) : List.Forall₂ (· ≤ ·) [3, (1 : ℝ)] [3, 2])
    (List.cons_ne_nil _ _) (by decide)
  exact ⟨d, e, hd, he, hslower⟩

end MarketData.Ingress
