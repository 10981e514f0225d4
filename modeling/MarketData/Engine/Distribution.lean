import MarketData.Base.Exact
import MarketData.Base.OrderStatistics
import MarketData.Engine.Summary

/-!
# Latency distributions in exact arithmetic

What `percentile` and `summarize` compute when the numbers are exact. A percentile interpolates
between two ranks of the sorted latencies; the other statistics do not depend on their order.
-/

namespace MarketData

open Cpp OrderStatistics

/-! ### Percentiles -/

/-- The position of a percentile among `n` sorted values, as `percentile` computes it. -/
noncomputable def percentilePosition (n : ℕ) (p : ℝ) : ℝ :=
  clamp p 0 (literal 1) * literal ((n - 1 : ℕ) : ℚ)

/-- The value of a rank. -/
def valueAt (sorted : List ℝ) (rank : ℕ) : ℝ := sorted.getD rank 0

section

variable {n : ℕ} {p : ℝ}

private theorem literal_natCast (k : ℕ) : (literal (k : ℚ) : ℝ) = k := Rat.cast_natCast k

private theorem literal_one : (literal 1 : ℝ) = 1 := Rat.cast_one

/-- A position is not negative. -/
theorem percentilePosition_nonneg (n : ℕ) (p : ℝ) : 0 ≤ percentilePosition n p := by
  rw [percentilePosition, literal_natCast, literal_one]
  exact mul_nonneg (clamp_mem zero_le_one).1 (Nat.cast_nonneg _)

/-- A position is not behind the last rank. -/
theorem percentilePosition_le (n : ℕ) (p : ℝ) : percentilePosition n p ≤ (n - 1 : ℕ) := by
  rw [percentilePosition, literal_natCast, literal_one]
  exact mul_le_of_le_one_left (Nat.cast_nonneg _) (clamp_mem zero_le_one).2

/-- The index above a position is the index of a value. -/
theorem ceil_percentilePosition_lt (hn : n ≠ 0) (p : ℝ) : ⌈percentilePosition n p⌉₊ < n := by
  have h := Nat.ceil_le.mpr (percentilePosition_le n p)
  omega

/-- The index below a position is the index of a value. -/
theorem floor_percentilePosition_lt (hn : n ≠ 0) (p : ℝ) : ⌊percentilePosition n p⌋₊ < n :=
  (Nat.floor_le_ceil _).trans_lt (ceil_percentilePosition_lt hn p)

/-- A percentile between zero and one is not clamped. -/
theorem percentilePosition_eq (hp : 0 ≤ p) (hp' : p ≤ 1) :
    percentilePosition n p = p * (n - 1 : ℕ) := by
  rw [percentilePosition, literal_natCast, literal_one, clamp_of_mem hp hp']

/-- A higher percentile has a higher position. -/
theorem percentilePosition_mono {q : ℝ} (hp : 0 ≤ p) (hpq : p ≤ q) (hq : q ≤ 1) :
    percentilePosition n p ≤ percentilePosition n q := by
  rw [percentilePosition_eq hp (hpq.trans hq), percentilePosition_eq (hp.trans hpq) hq]
  exact mul_le_mul_of_nonneg_right hpq (Nat.cast_nonneg _)

end

private theorem valueAt_eq {sorted : List ℝ} {rank : ℕ} (h : rank < sorted.length) :
    valueAt sorted rank = sorted[rank] := by
  rw [valueAt, List.getD_eq_getElem?_getD, List.getElem?_eq_getElem h, Option.getD_some]

private theorem element_valueAt {sorted : List ℝ} {rank : ℕ} (h : rank < sorted.length) :
    element sorted rank = .ok (valueAt sorted rank) := by
  rw [element_eq_ok, List.getElem?_eq_getElem h, valueAt_eq h]

/-- A percentile is interpolated between the ranks around its position. -/
theorem percentile_eq {sorted : List ℝ} (hne : sorted ≠ []) (hlen : sorted.length < 2 ^ 64)
    (p : ℝ) :
    percentile sorted p =
      .ok (interpolate (valueAt sorted) (percentilePosition sorted.length p)) := by
  have hn : sorted.length ≠ 0 := by simpa using hne
  have hpos := percentilePosition_nonneg sorted.length p
  have hfloor := floor_percentilePosition_lt hn p
  have hceil := ceil_percentilePosition_lt hn p
  have hempty : sorted.isEmpty = false := by simpa using hne
  rw [percentile, hempty, if_neg (by decide)]
  change (Arithmetic.floorIndex (percentilePosition sorted.length p) >>= _) = _
  rw [floorIndex_eq hpos hfloor.le hlen, ok_bind]
  change (Arithmetic.ceilIndex (percentilePosition sorted.length p) >>= _) = _
  rw [ceilIndex_eq hpos hceil.le hlen, ok_bind, element_valueAt hfloor, ok_bind,
    element_valueAt hceil, ok_bind, literal_natCast]
  rfl

/-! ### Sorting -/

private theorem lt_eq_false {a b : ℝ} : Arithmetic.lt b a = false ↔ a ≤ b := by
  rw [← not_lt]
  exact decide_eq_false_iff_not

/-- Exact latencies can be sorted. -/
theorem exists_sortValues (values : List ℝ) :
    ∃ sorted, sortValues values = .ok sorted ∧ sorted.Perm values ∧
      sorted.Pairwise (· ≤ ·) := by
  have htotal : Std.Total fun a b : ℝ ↦ Arithmetic.lt b a = false :=
    ⟨fun a b ↦ by simpa only [lt_eq_false] using le_total a b⟩
  have htrans : IsTrans ℝ fun a b ↦ Arithmetic.lt b a = false :=
    ⟨fun a b c hab hbc ↦ lt_eq_false.mpr ((lt_eq_false.mp hab).trans (lt_eq_false.mp hbc))⟩
  have hnan : ¬ values.any Arithmetic.isNan = true := by simp [Arithmetic.isNan]
  refine ⟨_, if_neg hnan, List.perm_insertionSort _ _, ?_⟩
  exact (List.pairwise_insertionSort _ values).imp lt_eq_false.mp

/-- Latencies in another order are still some. -/
theorem ne_nil_of_perm {values values' : List ℝ} (h : values.Perm values') (hne : values' ≠ []) :
    values ≠ [] := by
  rintro rfl
  exact hne h.nil_eq.symm

/-- The order of the latencies does not matter to their sort. -/
theorem sortValues_eq_of_perm {values values' : List ℝ} (h : values.Perm values') :
    sortValues values = sortValues values' := by
  obtain ⟨sorted, hs, hperm, hsorted⟩ := exists_sortValues values
  obtain ⟨sorted', hs', hperm', hsorted'⟩ := exists_sortValues values'
  rw [hs, hs', (hperm.trans (h.trans hperm'.symm)).eq_of_pairwise' hsorted hsorted']

section

variable {sorted : List ℝ}

private theorem monotoneOn_valueAt (hs : sorted.Pairwise (· ≤ ·)) :
    MonotoneOn (valueAt sorted) (Set.Iio sorted.length) := by
  intro i hi j hj hij
  rw [valueAt_eq hi, valueAt_eq hj]
  rcases Nat.eq_or_lt_of_le hij with rfl | hlt
  · exact le_rfl
  · exact List.pairwise_iff_getElem.mp hs i j hi hj hlt

private theorem headD_eq (hne : sorted ≠ []) : sorted.headD 0 = valueAt sorted 0 := by
  obtain ⟨a, rest, rfl⟩ := List.exists_cons_of_ne_nil hne
  rfl

private theorem getLastD_eq (hne : sorted ≠ []) :
    sorted.getLastD 0 = valueAt sorted (sorted.length - 1) := by
  have hlt : sorted.length - 1 < sorted.length :=
    Nat.sub_lt (List.length_pos_of_ne_nil hne) Nat.one_pos
  rw [valueAt_eq hlt, List.getLastD_eq_getLast?, List.getLast?_eq_getLast_of_ne_nil hne,
    Option.getD_some, List.getLast_eq_getElem]

end

/-! ### Summaries -/

/-- The percentile of sorted latencies. -/
noncomputable def rankOf (sorted : List ℝ) (p : ℝ) : ℝ :=
  interpolate (valueAt sorted) (percentilePosition sorted.length p)

section

variable {sorted : List ℝ} (hne : sorted ≠ []) (hs : sorted.Pairwise (· ≤ ·))

include hne

private theorem ranks_lt (p : ℝ) : ⌊percentilePosition sorted.length p⌋₊ < sorted.length ∧
    ⌈percentilePosition sorted.length p⌉₊ < sorted.length := by
  have hn : sorted.length ≠ 0 := by simpa using hne
  exact ⟨floor_percentilePosition_lt hn p, ceil_percentilePosition_lt hn p⟩

include hs

private theorem rankOf_mem (p : ℝ) :
    valueAt sorted ⌊percentilePosition sorted.length p⌋₊ ≤ rankOf sorted p ∧
      rankOf sorted p ≤ valueAt sorted ⌈percentilePosition sorted.length p⌉₊ := by
  obtain ⟨hfloor, hceil⟩ := ranks_lt hne p
  have hle := monotoneOn_valueAt hs hfloor hceil (Nat.floor_le_ceil _)
  exact ⟨le_interpolate (percentilePosition_nonneg _ _) hle, interpolate_le hle⟩

private theorem headD_le_rankOf (p : ℝ) : sorted.headD 0 ≤ rankOf sorted p := by
  rw [headD_eq hne]
  calc
    valueAt sorted 0 ≤ valueAt sorted ⌊percentilePosition sorted.length p⌋₊ :=
      monotoneOn_valueAt hs (List.length_pos_of_ne_nil hne) (ranks_lt hne p).1 (Nat.zero_le _)
    _ ≤ rankOf sorted p := (rankOf_mem hne hs p).1

private theorem rankOf_le_getLastD (p : ℝ) : rankOf sorted p ≤ sorted.getLastD 0 := by
  have hceil := (ranks_lt hne p).2
  rw [getLastD_eq hne]
  calc
    rankOf sorted p ≤ valueAt sorted ⌈percentilePosition sorted.length p⌉₊ :=
      (rankOf_mem hne hs p).2
    _ ≤ valueAt sorted (sorted.length - 1) :=
      monotoneOn_valueAt hs hceil (Set.mem_Iio.mpr (by omega)) (by omega)

/-- A higher percentile is not below a lower one. -/
theorem rankOf_mono {p q : ℝ} (hp : 0 ≤ p) (hpq : p ≤ q) (hq : q ≤ 1) :
    rankOf sorted p ≤ rankOf sorted q :=
  interpolate_mono (monotoneOn_valueAt hs) (percentilePosition_nonneg _ _)
    (percentilePosition_mono hp hpq hq) (ranks_lt hne q).2

/-- The ranks up to a percentile are not above it. -/
theorem succ_floor_le_countP (p : ℝ) :
    ⌊percentilePosition sorted.length p⌋₊ + 1 ≤ sorted.countP (· ≤ rankOf sorted p) := by
  have hfloor := (ranks_lt hne p).1
  have hle := (rankOf_mem hne hs p).1
  rw [valueAt_eq hfloor] at hle
  refine (succ_le_countP_le hs hfloor).trans (List.countP_mono_left fun a _ ha ↦ ?_)
  rw [decide_eq_true_eq] at ha ⊢
  exact ha.trans hle

/-- The ranks from a percentile on are not below it. -/
theorem length_sub_ceil_le_countP (p : ℝ) :
    sorted.length - ⌈percentilePosition sorted.length p⌉₊ ≤
      sorted.countP (rankOf sorted p ≤ ·) := by
  have hceil := (ranks_lt hne p).2
  have hle := (rankOf_mem hne hs p).2
  rw [valueAt_eq hceil] at hle
  refine (length_sub_le_countP_ge hs hceil).trans (List.countP_mono_left fun a _ ha ↦ ?_)
  rw [decide_eq_true_eq] at ha ⊢
  exact hle.trans ha

end

section

variable {sorted sorted' : List ℝ} (hlen : sorted.length = sorted'.length)
  (hle : ∀ rank < sorted.length, valueAt sorted rank ≤ valueAt sorted' rank)

include hlen hle

/-- Percentiles are in the order of the ranks. -/
theorem rankOf_le_rankOf (hne : sorted ≠ []) (p : ℝ) : rankOf sorted p ≤ rankOf sorted' p := by
  obtain ⟨hfloor, hceil⟩ := ranks_lt hne p
  rw [rankOf, rankOf, ← hlen]
  exact interpolate_le_interpolate (percentilePosition_nonneg _ _) (hle _ hfloor) (hle _ hceil)

omit hlen in
/-- The least of the lower values is the lower one. -/
theorem headD_le_headD (hne : sorted ≠ []) (hne' : sorted' ≠ []) :
    sorted.headD 0 ≤ sorted'.headD 0 := by
  rw [headD_eq hne, headD_eq hne']
  exact hle 0 (List.length_pos_of_ne_nil hne)

/-- The greatest of the lower values is the lower one. -/
theorem getLastD_le_getLastD (hne : sorted ≠ []) (hne' : sorted' ≠ []) :
    sorted.getLastD 0 ≤ sorted'.getLastD 0 := by
  rw [getLastD_eq hne, getLastD_eq hne', ← hlen]
  exact hle _ (Nat.sub_lt (List.length_pos_of_ne_nil hne) Nat.one_pos)

end

/-- The ranks of two lists, one below the other, are in this order. -/
theorem valueAt_le_valueAt {xs ys sorted sorted' : List ℝ} (h : List.Forall₂ (· ≤ ·) xs ys)
    (hs : sorted.Pairwise (· ≤ ·)) (hs' : sorted'.Pairwise (· ≤ ·)) (hx : sorted.Perm xs)
    (hy : sorted'.Perm ys) {rank : ℕ} (hrank : rank < sorted.length) :
    valueAt sorted rank ≤ valueAt sorted' rank := by
  have hrank' : rank < sorted'.length := by rwa [hy.length_eq, ← h.length_eq, ← hx.length_eq]
  rw [valueAt_eq hrank, valueAt_eq hrank']
  exact rank_le_rank h hs hs' hx hy hrank hrank'

private theorem accumulate_eq (values : List ℝ) : accumulate values = values.sum :=
  List.sum_eq_foldl.symm

private theorem squaredDeviations_eq (mean : ℝ) (values : List ℝ) :
    squaredDeviations mean values = (values.map (fun value ↦ (value - mean) ^ 2)).sum := by
  rw [List.sum_eq_foldl, List.foldl_map]
  simp only [pow_two]
  rfl

/-- The mean of the squared deviations from the mean. -/
noncomputable def meanSquaredDeviation (values : List ℝ) : ℝ :=
  (values.map (fun value ↦ (value - values.sum / values.length) ^ 2)).sum / values.length

/-- The summary of sorted latencies. -/
noncomputable def summaryOf (sorted : List ℝ) : LatencyDistribution ℝ where
  samples := UInt64.ofNat sorted.length
  meanUs := sorted.sum / sorted.length
  minUs := sorted.headD 0
  p50Us := rankOf sorted (50 / 100)
  p90Us := rankOf sorted (90 / 100)
  p95Us := rankOf sorted (95 / 100)
  p99Us := rankOf sorted (99 / 100)
  maxUs := sorted.getLastD 0
  stddevUs := Real.sqrt (meanSquaredDeviation sorted)

/-- The summary of latencies is the one of their sort. -/
theorem summarize_eq {values sorted : List ℝ} (hne : values ≠ []) (hlen : values.length < 2 ^ 64)
    (h : sortValues values = .ok sorted) (hperm : sorted.Perm values) :
    summarize values = .ok (summaryOf sorted) := by
  have hne' := ne_nil_of_perm hperm hne
  have hlen' : sorted.length < 2 ^ 64 := by rwa [hperm.length_eq]
  have hempty : ¬ values.isEmpty = true := by simpa using hne
  have hliteral : ∀ q : ℚ, (literal q : ℝ) = q := fun _ ↦ rfl
  rw [summarize, if_neg hempty, h, ok_bind]
  simp only [percentile_eq hne' hlen', ok_bind, accumulate_eq, squaredDeviations_eq, hliteral]
  simp only [summaryOf, rankOf, meanSquaredDeviation]
  push_cast
  rfl

/-! ### The law of a summary -/

/-- A distribution summarizes latencies: it counts them, holds their least, their greatest and
their mean, its percentiles are in order between them, and its deviation is the one of the
latencies. -/
structure Summarizes (values : List ℝ) (d : LatencyDistribution ℝ) : Prop where
  samples : d.samples.toNat = values.length
  least : IsLeast {value | value ∈ values} d.minUs
  greatest : IsGreatest {value | value ∈ values} d.maxUs
  min_le_p50 : d.minUs ≤ d.p50Us
  p50_le_p90 : d.p50Us ≤ d.p90Us
  p90_le_p95 : d.p90Us ≤ d.p95Us
  p95_le_p99 : d.p95Us ≤ d.p99Us
  p99_le_max : d.p99Us ≤ d.maxUs
  min_le_mean : d.minUs ≤ d.meanUs
  mean_le_max : d.meanUs ≤ d.maxUs
  mean : d.meanUs = values.sum / values.length
  stddev : 0 ≤ d.stddevUs ∧ d.stddevUs ^ 2 = meanSquaredDeviation values

private theorem isLeast_headD {sorted : List ℝ} (hne : sorted ≠ []) (hs : sorted.Pairwise (· ≤ ·)) :
    IsLeast {value | value ∈ sorted} (sorted.headD 0) := by
  obtain ⟨a, rest, rfl⟩ := List.exists_cons_of_ne_nil hne
  refine ⟨List.mem_cons_self, fun b hb ↦ ?_⟩
  rcases List.mem_cons.mp hb with rfl | hb
  · exact le_rfl
  · exact List.rel_of_pairwise_cons hs hb

private theorem isGreatest_getLastD {sorted : List ℝ} (hne : sorted ≠ [])
    (hs : sorted.Pairwise (· ≤ ·)) : IsGreatest {value | value ∈ sorted} (sorted.getLastD 0) := by
  have hlt : sorted.length - 1 < sorted.length :=
    Nat.sub_lt (List.length_pos_of_ne_nil hne) Nat.one_pos
  rw [getLastD_eq hne]
  constructor
  · rw [valueAt_eq hlt]
    exact List.getElem_mem hlt
  · intro b hb
    obtain ⟨i, hi, rfl⟩ := List.getElem_of_mem hb
    rw [← valueAt_eq hi]
    exact monotoneOn_valueAt hs hi hlt (by omega)

private theorem length_pos {values : List ℝ} (hne : values ≠ []) : (0 : ℝ) < values.length :=
  Nat.cast_pos.mpr (List.length_pos_of_ne_nil hne)

private theorem le_mean {values : List ℝ} (hne : values ≠ []) {low : ℝ}
    (h : ∀ value ∈ values, low ≤ value) : low ≤ values.sum / values.length := by
  rw [le_div_iff₀ (length_pos hne)]
  have hsum := List.card_nsmul_le_sum values low h
  rwa [nsmul_eq_mul, mul_comm] at hsum

private theorem mean_le {values : List ℝ} (hne : values ≠ []) {high : ℝ}
    (h : ∀ value ∈ values, value ≤ high) : values.sum / values.length ≤ high := by
  rw [div_le_iff₀ (length_pos hne)]
  have hsum := List.sum_le_card_nsmul values high h
  rwa [nsmul_eq_mul, mul_comm] at hsum

private theorem meanSquaredDeviation_eq_of_perm {values values' : List ℝ}
    (h : values.Perm values') : meanSquaredDeviation values = meanSquaredDeviation values' := by
  rw [meanSquaredDeviation, meanSquaredDeviation, h.sum_eq, h.length_eq, (h.map _).sum_eq]

private theorem meanSquaredDeviation_nonneg (values : List ℝ) :
    0 ≤ meanSquaredDeviation values := by
  refine div_nonneg (List.sum_nonneg ?_) (Nat.cast_nonneg _)
  intro x hx
  obtain ⟨value, -, rfl⟩ := List.mem_map.mp hx
  exact sq_nonneg _

private theorem summarizes_summaryOf {values sorted : List ℝ} (hne : values ≠ [])
    (hlen : values.length < 2 ^ 64) (hperm : sorted.Perm values)
    (hs : sorted.Pairwise (· ≤ ·)) : Summarizes values (summaryOf sorted) := by
  have hne' := ne_nil_of_perm hperm hne
  have hmem : {value | value ∈ sorted} = {value | value ∈ values} :=
    Set.ext fun _ ↦ hperm.mem_iff
  have hleast := isLeast_headD hne' hs
  have hgreatest := isGreatest_getLastD hne' hs
  refine {
    samples := ?_
    least := hmem ▸ hleast
    greatest := hmem ▸ hgreatest
    min_le_p50 := headD_le_rankOf hne' hs _
    p50_le_p90 := rankOf_mono hne' hs (by norm_num) (by norm_num) (by norm_num)
    p90_le_p95 := rankOf_mono hne' hs (by norm_num) (by norm_num) (by norm_num)
    p95_le_p99 := rankOf_mono hne' hs (by norm_num) (by norm_num) (by norm_num)
    p99_le_max := rankOf_le_getLastD hne' hs _
    min_le_mean := le_mean hne' fun _ hv ↦ hleast.2 hv
    mean_le_max := mean_le hne' fun _ hv ↦ hgreatest.2 hv
    mean := ?_
    stddev := ⟨Real.sqrt_nonneg _, ?_⟩ }
  · rw [summaryOf, hperm.length_eq, UInt64.toNat_ofNat', Nat.mod_eq_of_lt hlen]
  · rw [summaryOf, hperm.sum_eq, hperm.length_eq]
  · rw [summaryOf, Real.sq_sqrt (meanSquaredDeviation_nonneg _),
      meanSquaredDeviation_eq_of_perm hperm]

/-- Every non-empty vector of latencies is summarized, in every order alike, and every percentile
reads values inside it. -/
theorem summary_law {values : List ℝ} (hne : values ≠ []) (hlen : values.length < 2 ^ 64) :
    (∃ d, summarize values = .ok d ∧ Summarizes values d ∧
      ∀ values', values'.Perm values → summarize values' = .ok d) ∧
    ∀ p : ℝ, ∃ lower upper v,
      Arithmetic.floorIndex (percentilePosition values.length p) = .ok lower ∧
      Arithmetic.ceilIndex (percentilePosition values.length p) = .ok upper ∧
      lower < values.length ∧ upper < values.length ∧ percentile values p = .ok v := by
  obtain ⟨sorted, hsort, hperm, hs⟩ := exists_sortValues values
  refine ⟨⟨_, summarize_eq hne hlen hsort hperm, summarizes_summaryOf hne hlen hperm hs, ?_⟩, ?_⟩
  · intro values' hperm'
    exact summarize_eq (ne_nil_of_perm hperm' hne) (by rwa [hperm'.length_eq])
      ((sortValues_eq_of_perm hperm').trans hsort) (hperm.trans hperm'.symm)
  · intro p
    have hn : values.length ≠ 0 := by simpa using hne
    have hfloor := floor_percentilePosition_lt hn p
    have hceil := ceil_percentilePosition_lt hn p
    have hpos := percentilePosition_nonneg values.length p
    exact ⟨_, _, _, floorIndex_eq hpos hfloor.le hlen, ceilIndex_eq hpos hceil.le hlen, hfloor,
      hceil, percentile_eq hne hlen p⟩

/-- Three latencies in any order. -/
theorem summary_law_three :
    ∃ d, summarize [3, 1, (2 : ℝ)] = .ok d ∧ summarize [1, 2, (3 : ℝ)] = .ok d ∧
      Summarizes [3, 1, 2] d := by
  obtain ⟨⟨d, hd, hsummarizes, horder⟩, -⟩ :=
    summary_law (List.cons_ne_nil (3 : ℝ) [1, 2]) (by decide)
  refine ⟨d, hd, horder _ ?_, hsummarizes⟩
  exact (List.perm_append_comm : ([1, (2 : ℝ)] ++ [3]).Perm ([3] ++ [1, 2]))

end MarketData
