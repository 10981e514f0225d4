import MarketData.Comparator.Compiled
import MarketData.Comparator.Context
import MarketData.Engine.Artifact
import MarketData.Engine.Calls
import MarketData.Engine.Rounded
import MarketData.Json.Compact

/-!
# The regression gate on documents of the benchmark

What the gate decides about two measured runs, through the six decimals of their documents, the
reader of the comparator and the arithmetic of the gate.
-/

namespace MarketData.Pipeline

open ByteText Cpp Comparator Ieee

/-! ### Measured runs -/

/-- What a document of the benchmark was written from. -/
structure Measured where
  build : Build
  options : RunOptions
  stats : InferenceStats

namespace Measured

/-- The document. -/
def document (m : Measured) : Bytes := formatMetricsJson m.build m.options m.stats

/-- The distribution of a scope. -/
def distribution (m : Measured) (scope : Bytes) : Option LatencyDistribution :=
  if scope = ascii "e2e" then some m.stats.endToEnd else m.stats.deviceCompute

/-- The statistic that two runs are compared by, where it was measured. -/
def statistic (m : Measured) (scope metric : Bytes) : Option Double := do
  let d ← m.distribution scope
  let named ← (statistics d).find? fun named ↦ ascii named.1 = metric
  return named.2

/-- The context of a run. -/
def context (m : Measured) : Bytes × Bytes × UInt64 × UInt64 × Bool :=
  (m.stats.backend, m.stats.runtime.deviceName, m.options.inputSize, m.options.batchSize,
    m.stats.cudaGraph)

/-- The reader of the comparator reads the document exactly, up to its decimals. -/
structure Readable (m : Measured) : Prop where
  finite : FiniteNumbers m.options m.stats
  inputSize : m.options.inputSize.toNat ≤ 2 ^ 53
  batchSize : m.options.batchSize.toNat ≤ 2 ^ 53
  device : m.stats.runtime.deviceName ≠ []
  backendText : Escapable m.stats.backend
  deviceText : Escapable m.stats.runtime.deviceName

/-- The decision about two statistics. -/
def decision (a : Arguments) (x y : Double) : ℕ :=
  if (y.roundDecimals 6).le
      (limit (x.roundDecimals 6) a.maxRegressionPercent a.absoluteToleranceUs) then 0 else 1

/-- The exit code that two runs should have. -/
def verdict (a : Arguments) (baseline candidate : Measured) : ℕ :=
  match baseline.statistic a.scope a.metric, candidate.statistic a.scope a.metric with
  | some x, some y =>
    if a.allowContextChange = false ∧ baseline.context ≠ candidate.context then 4
    else decision a x y
  | _, _ => 2

end Measured

/-- The arguments name a scope and a metric that the comparator supports, and two files. -/
structure Supported (a : Arguments) : Prop where
  baselinePath : a.baselinePath ≠ []
  candidatePath : a.candidatePath ≠ []
  scope : a.scope = ascii "e2e" ∨ a.scope = ascii "device"
  metric : a.metric ∈ validMetrics

/-! ### Reading -/

private theorem find?_statistics {metric : Bytes} (hm : metric ∈ validMetrics)
    (d : LatencyDistribution) :
    ∃ name x, (statistics d).find? (fun named ↦ ascii named.1 = metric) = some (name, x) ∧
      (name, x) ∈ statistics d ∧ ascii name = metric := by
  rw [← names_statistics d, List.mem_map] at hm
  obtain ⟨named, hmem, hname⟩ := hm
  have hsome : ((statistics d).find? fun named ↦ ascii named.1 = metric).isSome := by
    rw [List.find?_isSome]
    exact ⟨named, hmem, by simpa using hname⟩
  obtain ⟨found, hfound⟩ := Option.isSome_iff_exists.mp hsome
  exact ⟨found.1, found.2, hfound, List.mem_of_find?_eq_some hfound,
    by simpa using List.find?_some hfound⟩

private theorem parseMetrics_cases {m : Measured} (h : m.Readable) {a : Arguments}
    (ha : Supported a) :
    (∃ x, m.statistic a.scope a.metric = some x ∧ x.isFinite = true ∧
      parseMetrics m.document a.scope a.metric = .ok (encodedMetrics m.options m.stats x)) ∨
    (m.statistic a.scope a.metric = none ∧
      ∃ what, parseMetrics m.document a.scope a.metric = .error (.exception what)) := by
  have hread : ∀ x : Double, x.isFinite = true →
      readMetrics m.options m.stats x = .ok (encodedMetrics m.options m.stats x) := by
    intro x hx
    rw [readMetrics_ok hx h.inputSize h.batchSize h.device, readString_escapable h.backendText,
      readString_escapable h.deviceText]
    rfl
  have hmeasured : ∀ d, m.distribution a.scope = some d → (∀ x ∈ d.numbers, x.isFinite = true) →
      (∀ named ∈ statistics d, parseMetrics m.document a.scope (ascii named.1) =
        readMetrics m.options m.stats named.2) →
      ∃ x, m.statistic a.scope a.metric = some x ∧ x.isFinite = true ∧
        parseMetrics m.document a.scope a.metric =
          .ok (encodedMetrics m.options m.stats x) := by
    intro d hd hfinite hparse
    obtain ⟨name, x, hfound, hmem, hname⟩ := find?_statistics ha.metric d
    have hx : x.isFinite = true := isFinite_statistic hfinite hmem
    refine ⟨x, ?_, hx, ?_⟩
    · simp [Measured.statistic, hd, hfound]
    · rw [← hname, hparse _ hmem, hread x hx]
  rw [Measured.document, formatMetricsJson_document] at hmeasured ⊢
  rcases ha.scope with hs | hs
  · left
    refine hmeasured m.stats.endToEnd (if_pos hs) h.finite.endToEnd fun named hmem ↦ ?_
    rw [hs]
    exact parseMetrics_endToEnd _ _ _ _ hmem
  · have hne : a.scope ≠ ascii "e2e" := by
      rw [hs]
      decide
    have hdistribution : m.distribution a.scope = m.stats.deviceCompute := if_neg hne
    cases hd : m.stats.deviceCompute with
    | none =>
      right
      refine ⟨by simp [Measured.statistic, hdistribution, hd], ?_⟩
      rw [hs]
      exact ⟨_, parseMetrics_noDevice _ _ _ _ _ hd⟩
    | some d =>
      left
      refine hmeasured d (hdistribution.trans hd) (h.finite.deviceCompute hd) fun named hmem ↦ ?_
      rw [hs]
      exact parseMetrics_device _ _ _ _ hd hmem

private theorem Measured.Readable.isFinite {m : Measured} (h : m.Readable) {a : Arguments}
    (ha : Supported a) {x : Double} (hx : m.statistic a.scope a.metric = some x) :
    x.isFinite = true := by
  rcases parseMetrics_cases h ha with ⟨y, hy, hf, -⟩ | ⟨hnone, -⟩
  · rw [hy] at hx
    rwa [← Option.some.inj hx]
  · rw [hnone] at hx
    cases hx

/-! ### The decision -/

section

variable {files : Bytes → FileContents} {selfTest : Checked Nat} {args : List Bytes}
  {a : Arguments} {m m' : Measured}

private theorem contextDifferences_encoded (x y : Double) :
    contextDifferences (encodedMetrics m.options m.stats x)
      (encodedMetrics m'.options m'.stats y) = [] ↔ m.context = m'.context := by
  simp [contextDifferences_eq_nil, encodedMetrics, Measured.context]

/-- The gate decides about two runs from their measured statistics: it ends with two where a
statistic was not measured, with four where the contexts differ, and otherwise compares the
statistics as they are written. -/
theorem exitCode_measured (hargs : parseArguments {} args = .ok (.compare a)) (ha : Supported a)
    (hm : m.Readable) (hm' : m'.Readable) (hb : files a.baselinePath = .text m.document)
    (hc : files a.candidatePath = .text m'.document) :
    exitCode files selfTest args = .ok (m.verdict a m') := by
  have hread : ∀ {path text}, files path = .text text → readFile files path = .ok text :=
    fun h ↦ readFile_eq_ok.mpr h
  have hrejected : ∀ what, compareRuns files a a.maxRegressionPercent a.absoluteToleranceUs =
      .error (.exception what) → exitCode files selfTest args = .ok 2 := by
    intro what h
    rw [exitCode, hargs, ok_bind]
    dsimp only
    rw [h]
    rfl
  have hpaths : ¬ (a.baselinePath = [] ∨ a.candidatePath = []) :=
    not_or.mpr ⟨ha.baselinePath, ha.candidatePath⟩
  have hscope : ¬ (a.scope ≠ ascii "e2e" ∧ a.scope ≠ ascii "device") := by
    rintro ⟨he, hd⟩
    exact ha.scope.elim he hd
  rcases parseMetrics_cases hm ha with ⟨x, hx, -, hbaseline⟩ | ⟨hx, what, hbaseline⟩
  · rcases parseMetrics_cases hm' ha with ⟨y, hy, -, hcandidate⟩ | ⟨hy, what, hcandidate⟩
    · have haccepted : Accepted files a (encodedMetrics m.options m.stats x)
          (encodedMetrics m'.options m'.stats y) := by
        refine ⟨ha.baselinePath, ha.candidatePath, ha.scope, ha.metric, ?_, ?_⟩
        · rw [hread hb, ok_bind, hbaseline]
        · rw [hread hc, ok_bind, hcandidate]
      rw [haccepted.exitCode_eq hargs, Measured.verdict, hx, hy]
      simp only [ne_eq, contextDifferences_encoded]
      rfl
    · rw [Measured.verdict, hx, hy]
      refine hrejected what ?_
      simp only [compareRuns, throwUnless, if_pos hpaths, if_pos hscope, if_pos ha.metric, ok_bind,
        hread hb, hbaseline, hread hc, hcandidate]
      rfl
  · rw [Measured.verdict, hx]
    refine hrejected what ?_
    simp only [compareRuns, throwUnless, if_pos hpaths, if_pos hscope, if_pos ha.metric, ok_bind,
      hread hb, hbaseline]
    rfl

end

/-! ### The decision about what was measured -/

/-- How far a written statistic may be from the measured one: half a unit of the sixth decimal, and
the rounding of what is read. -/
def drift (x : ℚ) : ℚ := 1 / (2 * 10 ^ 6) + (|x| + 1 / (2 * 10 ^ 6)) / 2 ^ 53 + 1 / 2 ^ 1075

private theorem exists_roundDecimals {x : Double} (hx : x.isFinite = true) :
    ∃ z, x.roundDecimals 6 = .round binary64 z (Json.fixedValue 6 x) := by
  cases x with
  | nan => cases hx
  | infinite s => cases hx
  | finite s n => exact ⟨s, rfl⟩

private theorem isFinite_roundDecimals {x : Double} (hx : x.isFinite = true) :
    (x.roundDecimals 6).isFinite = true := by
  cases x with
  | nan => cases hx
  | infinite s => cases hx
  | finite s n =>
    have h0 : (0 : ℚ) ≤ roundHalfEven (n.toRat * 10 ^ 6) / 10 ^ 6 := by positivity
    have habs : ∀ q : ℚ, 0 ≤ q → |if s then -q else q| = q := by
      intro q hq
      cases s <;> simp [abs_of_nonneg hq]
    rw [Number.roundDecimals, Number.isFinite_round, habs _ h0]
    exact roundUnits_decimals_lt (by decide) 6 n

private theorem abs_roundDecimals_sub_le {x : Double} (hx : x.isFinite = true) :
    |(x.roundDecimals 6).toRat - x.toRat| ≤ drift x.toRat := by
  have hf := isFinite_roundDecimals hx
  obtain ⟨z, hz⟩ := exists_roundDecimals hx
  have hdecimal : |Json.fixedValue 6 x - x.toRat| ≤ 1 / (2 * 10 ^ 6) :=
    Json.abs_fixedValue_sub_le hx
  rw [hz] at hf ⊢
  have hround : |(Number.round binary64 z (Json.fixedValue 6 x)).toRat - Json.fixedValue 6 x| ≤
      |Json.fixedValue 6 x| / 2 ^ 53 + 1 / 2 ^ 1075 := Number.abs_toRat_round_sub_le hf
  have hsize : |Json.fixedValue 6 x| ≤ |x.toRat| + 1 / (2 * 10 ^ 6) := by
    have htriangle := abs_add_le (Json.fixedValue 6 x - x.toRat) x.toRat
    rw [sub_add_cancel] at htriangle
    linarith
  have hscaled : |Json.fixedValue 6 x| / 2 ^ 53 ≤ (|x.toRat| + 1 / (2 * 10 ^ 6)) / 2 ^ 53 :=
    div_le_div_of_nonneg_right hsize (by positivity)
  have htriangle := abs_sub_le (Number.round binary64 z (Json.fixedValue 6 x)).toRat
    (Json.fixedValue 6 x) x.toRat
  rw [drift]
  generalize (1 : ℚ) / 2 ^ 1075 = least at hround ⊢
  linarith

private theorem roundDecimals_mono {x y : Double} (hx : x.isFinite = true) (hy : y.isFinite = true)
    (h : y.toRat ≤ x.toRat) : (y.roundDecimals 6).le (x.roundDecimals 6) = true := by
  obtain ⟨z, hz⟩ := exists_roundDecimals hx
  obtain ⟨w, hw⟩ := exists_roundDecimals hy
  rw [hz, hw]
  exact Number.round_le_round (Json.fixedValue_mono hy hx h)

private theorem nonNegative_roundDecimals {x : Double} (hx : x.isFinite = true)
    (h0 : 0 ≤ x.toRat) : NonNegative (x.roundDecimals 6) := by
  obtain ⟨z, hz⟩ := exists_roundDecimals hx
  have hzero : Json.fixedValue 6 (Number.zero : Double) = 0 := by decide +kernel
  have hfixed : 0 ≤ Json.fixedValue 6 x := by
    rw [← hzero]
    exact Json.fixedValue_mono rfl hx (by rw [Number.toRat_zero]; exact h0)
  refine ⟨isFinite_roundDecimals hx, ?_⟩
  rw [hz]
  exact Number.toRat_round_nonneg hfixed

private theorem exactLimit_mono {b b' r t : ℚ} (hr : 0 ≤ r) (h : b ≤ b') :
    limit b r t ≤ limit b' r t := by
  have hmul : b * (1 + r / 100) ≤ b' * (1 + r / 100) :=
    mul_le_mul_of_nonneg_right h (by positivity)
  exact add_le_add_left hmul t

private theorem sub_slack_mono {e e' : ℚ} (h : e ≤ e') : e - slack e ≤ e' - slack e' := by
  have hscaled : (e' - e) / 2 ^ 50 ≤ e' - e :=
    div_le_self (sub_nonneg.mpr h) (one_le_pow₀ (by norm_num))
  rw [sub_div] at hscaled
  rw [slack, slack]
  generalize (1 : ℚ) / 2 ^ 1073 = least
  linarith

private theorem add_slack_mono {e e' : ℚ} (h : e ≤ e') : e + slack e ≤ e' + slack e' := by
  have hscaled : e / 2 ^ 50 ≤ e' / 2 ^ 50 := div_le_div_of_nonneg_right h (by positivity)
  rw [slack, slack]
  generalize (1 : ℚ) / 2 ^ 1073 = least
  linarith

section

variable {files : Bytes → FileContents} {selfTest : Checked Nat} {args : List Bytes}
  {a : Arguments} {m m' : Measured} {x y : Double}

private theorem exitCode_of_statistics (hargs : parseArguments {} args = .ok (.compare a))
    (ha : Supported a) (hm : m.Readable) (hm' : m'.Readable)
    (hb : files a.baselinePath = .text m.document) (hc : files a.candidatePath = .text m'.document)
    (hcontext : a.allowContextChange = true ∨ m.context = m'.context)
    (hx : m.statistic a.scope a.metric = some x) (hy : m'.statistic a.scope a.metric = some y) :
    exitCode files selfTest args = .ok (Measured.decision a x y) := by
  have hnot : ¬ (a.allowContextChange = false ∧ m.context ≠ m'.context) := by
    rintro ⟨hallow, hdiffer⟩
    rcases hcontext with h | h
    · rw [hallow] at h
      cases h
    · exact hdiffer h
  rw [exitCode_measured hargs ha hm hm' hb hc, Measured.verdict, hx, hy]
  exact congrArg Except.ok (if_neg hnot)

private theorem exitCode_of_le (hargs : parseArguments {} args = .ok (.compare a))
    (ha : Supported a) (hm : m.Readable) (hm' : m'.Readable)
    (hb : files a.baselinePath = .text m.document) (hc : files a.candidatePath = .text m'.document)
    (hcontext : a.allowContextChange = true ∨ m.context = m'.context)
    (hx : m.statistic a.scope a.metric = some x) (hy : m'.statistic a.scope a.metric = some y)
    (h0 : 0 ≤ x.toRat) (hle : y.toRat ≤ x.toRat) : exitCode files selfTest args = .ok 0 := by
  obtain ⟨hr, ht⟩ := budgeted_parse hargs budgeted_default
  have hxf : x.isFinite = true := hm.isFinite ha hx
  have hyf : y.isFinite = true := hm'.isFinite ha hy
  rw [exitCode_of_statistics hargs ha hm hm' hb hc hcontext hx hy, Measured.decision,
    if_pos (Number.le_of_le_of_le (roundDecimals_mono hxf hyf hle)
      (le_limit (nonNegative_roundDecimals hxf h0) hr ht))]

/-- The gate in terms of what was measured, where the contexts may differ or agree: a candidate
that is not slower passes under every budget, and the exact limit decides about every candidate
that is further from it than what is lost in the documents and in the arithmetic of the gate. -/
theorem regression_band (hargs : parseArguments {} args = .ok (.compare a)) (ha : Supported a)
    (hm : m.Readable) (hm' : m'.Readable) (hb : files a.baselinePath = .text m.document)
    (hc : files a.candidatePath = .text m'.document)
    (hcontext : a.allowContextChange = true ∨ m.context = m'.context)
    (hx : m.statistic a.scope a.metric = some x) (hy : m'.statistic a.scope a.metric = some y)
    (h0 : 0 ≤ x.toRat) :
    (y.toRat ≤ x.toRat → exitCode files selfTest args = .ok 0) ∧
    (∀ e, e = limit (x.toRat - drift x.toRat) a.maxRegressionPercent.toRat
        a.absoluteToleranceUs.toRat → y.toRat + drift y.toRat ≤ e - slack e →
      exitCode files selfTest args = .ok 0) ∧
    (∀ e, e = limit (x.toRat + drift x.toRat) a.maxRegressionPercent.toRat
        a.absoluteToleranceUs.toRat → e + slack e < y.toRat - drift y.toRat →
      exitCode files selfTest args = .ok 1) := by
  obtain ⟨hr, ht⟩ := budgeted_parse hargs budgeted_default
  have hxf : x.isFinite = true := hm.isFinite ha hx
  have hyf : y.isFinite = true := hm'.isFinite ha hy
  have hbaseline := nonNegative_roundDecimals hxf h0
  have hxdrift := abs_le.mp (abs_roundDecimals_sub_le hxf)
  have hydrift := abs_le.mp (abs_roundDecimals_sub_le hyf)
  refine ⟨exitCode_of_le hargs ha hm hm' hb hc hcontext hx hy h0, ?_, ?_⟩
  all_goals rw [exitCode_of_statistics hargs ha hm hm' hb hc hcontext hx hy, Measured.decision]
  · rintro e rfl hle
    rw [if_pos]
    refine le_limit_of_le hbaseline hr ht (isFinite_roundDecimals hyf) ?_
    have hlimit := sub_slack_mono (exactLimit_mono (t := a.absoluteToleranceUs.toRat)
      hr.toRat_nonneg (by linarith : x.toRat - drift x.toRat ≤ (x.roundDecimals 6).toRat))
    linarith
  · rintro e rfl hlt
    rw [if_neg]
    refine ne_true_of_eq_false (not_le_limit_of_lt hbaseline hr ht (isFinite_roundDecimals hyf) ?_)
    have hlimit := add_slack_mono (exactLimit_mono (t := a.absoluteToleranceUs.toRat)
      hr.toRat_nonneg (by linarith : (x.roundDecimals 6).toRat ≤ x.toRat + drift x.toRat))
    linarith

end

/-! ### The decision about what was timed -/

private theorem elapsedUs_nonneg (start stop : ℕ) : 0 ≤ (elapsedUs start stop).toRat := by
  rcases awayFromZero_elapsedUs start stop with h | ⟨-, h | h⟩
  · rw [h]
    exact le_rfl
  · exact h.ge
  · exact le_trans (by positivity) h

private theorem elapsedUs_mono {start stop start' stop' : ℕ} (h : stop - start ≤ stop' - start') :
    (elapsedUs start stop).le (elapsedUs start' stop') = true := by
  have hl : (literal 1000 : Double).isFinite = true ∧ 0 < (literal 1000 : Double).toRat := by
    decide +kernel
  have hround : ∀ {n n' : ℕ}, n ≤ n' → (Number.ofNat n : Double).le (Number.ofNat n') = true := by
    intro n n' hn
    rw [Number.ofNat, Number.ofNat]
    exact Number.round_le_round (Nat.cast_le.mpr hn)
  unfold elapsedUs
  generalize (literal 1000 : Double) = unit at hl ⊢
  exact Number.div_mono (hround h) hl.1 hl.2

private theorem measuredTimes_nonneg {clock : SteadyClock} {calls : ℕ} :
    ∀ x ∈ measuredTimes clock calls, 0 ≤ x.toRat := by
  intro x hx
  obtain ⟨call, -, rfl⟩ := List.mem_map.mp hx
  exact elapsedUs_nonneg _ _

private theorem measuredTimes_mono {clock clock' : SteadyClock} {calls : ℕ}
    (h : ∀ call < calls, clock'.now (2 * call + 1) - clock'.now (2 * call) ≤
      clock.now (2 * call + 1) - clock.now (2 * call)) :
    List.Forall₂ (fun x y ↦ x.le y = true) (measuredTimes clock' calls)
      (measuredTimes clock calls) := by
  rw [measuredTimes, measuredTimes, List.forall₂_map_left_iff, List.forall₂_map_right_iff,
    List.forall₂_same]
  intro call hcall
  exact elapsedUs_mono (h call (List.mem_range.mp hcall))

section

variable {σ τ : Type} {engine : InferenceEngine σ} {engine' : InferenceEngine τ}
  {clock clock' : SteadyClock} {s : σ} {s' : τ}
  {files : Bytes → FileContents} {selfTest : Checked Nat} {args : List Bytes}
  {a : Arguments} {m m' : Measured}

/-- A candidate that measures every call of the benchmark no slower than the baseline passes the
gate on the mean and on the greatest latency under every budget: nothing on the way from the clock
to the exit code turns it into a regression. -/
theorem not_slower_passes (hargs : parseArguments {} args = .ok (.compare a)) (ha : Supported a)
    (hscope : a.scope = ascii "e2e") (hmetric : a.metric = ascii "mean" ∨ a.metric = ascii "max")
    (hm : m.Readable) (hm' : m'.Readable) (hb : files a.baselinePath = .text m.document)
    (hc : files a.candidatePath = .text m'.document)
    (hcontext : a.allowContextChange = true ∨ m.context = m'.context)
    (hrun : runBenchmark engine clock m.options s = .ok m.stats)
    (hrun' : runBenchmark engine' clock' m'.options s' = .ok m'.stats)
    (hcalls : m'.options.iterations = m.options.iterations)
    (hfaster : ∀ call < m.options.iterations.toNat,
      clock'.now (2 * call + 1) - clock'.now (2 * call) ≤
        clock.now (2 * call + 1) - clock.now (2 * call)) :
    exitCode files selfTest args = .ok 0 := by
  obtain ⟨hzero, hsummary, -⟩ := statistics_eq engine clock m.options s hrun
  obtain ⟨-, hsummary', -⟩ := statistics_eq engine' clock' m'.options s' hrun'
  rw [hcalls] at hsummary'
  have hlength : ∀ clock, (measuredTimes clock m.options.iterations.toNat).length =
      m.options.iterations.toNat := by
    intro clock
    rw [measuredTimes, List.length_map, List.length_range]
  have hne : ∀ clock, measuredTimes clock m.options.iterations.toNat ≠ [] := by
    intro clock hnil
    have h0 := hlength clock
    rw [hnil, List.length_nil] at h0
    exact hzero (UInt64.toNat_inj.mp h0.symm)
  have hlt : ∀ clock, (measuredTimes clock m.options.iterations.toNat).length < 2 ^ 64 := by
    intro clock
    rw [hlength]
    exact UInt64.toNat_lt _
  have hmean : m.stats.endToEnd.meanUs.isFinite = true :=
    hm.finite.endToEnd _ (by simp [LatencyDistribution.numbers])
  have hmean' : m'.stats.endToEnd.meanUs.isFinite = true :=
    hm'.finite.endToEnd _ (by simp [LatencyDistribution.numbers])
  obtain ⟨hmeans, -, hmaxes⟩ := summarize_mono (hne clock') (hlt clock')
    (measuredTimes_mono hfaster) hsummary' hsummary hmean' hmean
  obtain ⟨hmean0, hmax0⟩ := summarize_nonneg (hne clock) (hlt clock) measuredTimes_nonneg hsummary
    hmean
  have hstatistic : ∀ m : Measured, m.statistic (ascii "e2e") (ascii "mean") =
      some m.stats.endToEnd.meanUs ∧
      m.statistic (ascii "e2e") (ascii "max") = some m.stats.endToEnd.maxUs := by
    intro m
    simp [Measured.statistic, Measured.distribution, statistics, ascii_inj]
  rcases hmetric with hmetric | hmetric
  · refine exitCode_of_le hargs ha hm hm' hb hc hcontext ?_ ?_ hmean0 hmeans
    · rw [hscope, hmetric, (hstatistic m).1]
    · rw [hscope, hmetric, (hstatistic m').1]
  · refine exitCode_of_le hargs ha hm hm' hb hc hcontext ?_ ?_ hmax0 hmaxes
    · rw [hscope, hmetric, (hstatistic m).2]
    · rw [hscope, hmetric, (hstatistic m').2]

end

/-! ### The short run -/

/-- The short run. -/
def sampleMeasured : Measured := ⟨{}, {}, sampleStats⟩

private theorem readable_sampleMeasured : sampleMeasured.Readable :=
  ⟨by decide +kernel, by decide, by decide, by decide, by decide, by decide⟩

private theorem supported_sampleArguments : Supported sampleArguments :=
  ⟨by decide, by decide, .inl rfl, by decide⟩

/-- The short run passes against itself. -/
theorem regression_band_sample :
    exitCode (fun _ ↦ .text sampleMeasured.document) (.ok 0) sampleCommand = .ok 0 :=
  (regression_band (x := doubleOf 3) (y := doubleOf 3) parseArguments_sample
    supported_sampleArguments readable_sampleMeasured readable_sampleMeasured rfl rfl (.inr rfl)
    (by decide +kernel) (by decide +kernel) (by decide +kernel)).1 le_rfl

/-! ### Two runs of one call -/

/-- An engine on a device with a name. -/
def namedEngine : InferenceEngine Unit :=
  { constantEngine 0 with runtimeMetadata := fun _ ↦ { deviceName := ascii "gpu" } }

/-- A clock that advances by two microseconds from reading to reading. -/
def slowClock : SteadyClock := ⟨fun n ↦ 2000 * n, fun _ _ h ↦ Nat.mul_le_mul_left _ h⟩

/-- The short command line, on the mean. -/
def meanCommand : List Bytes := sampleCommand ++ [ascii "--metric", ascii "mean"]

private theorem exists_ok {α : Type} {x : Checked α} {p : α → Prop} [DecidablePred p]
    (h : x.toOption.any (fun a ↦ decide (p a)) = true) : ∃ a, x = .ok a ∧ p a := by
  cases x with
  | error e => cases h
  | ok a => exact ⟨a, rfl, of_decide_eq_true h⟩

-- The run of one call, as far as the gate depends on it.
private def Named (stats : InferenceStats) : Prop :=
  FiniteNumbers identityOptions stats ∧ stats.runtime.deviceName = ascii "gpu" ∧
    stats.backend = ascii "tensorrt-gpu" ∧ stats.cudaGraph = false

private instance : DecidablePred Named := fun _ ↦ inferInstanceAs (Decidable (_ ∧ _))

private theorem readable_named {stats : InferenceStats} (h : Named stats) :
    Measured.Readable ⟨{}, identityOptions, stats⟩ ∧
      Measured.context ⟨{}, identityOptions, stats⟩ =
        (ascii "tensorrt-gpu", ascii "gpu", 1, 1, false) := by
  obtain ⟨hfinite, hdevice, hbackend, hgraph⟩ := h
  have hone : (1 : UInt64).toNat ≤ 2 ^ 53 := by decide
  refine ⟨⟨hfinite, hone, hone, ?_, ?_, ?_⟩, ?_⟩
  · rw [hdevice]
    decide
  · rw [hbackend]
    decide
  · rw [hdevice]
    decide
  · rw [Measured.context, hdevice, hbackend, hgraph]
    rfl

private theorem parseArguments_mean (a : Arguments) :
    parseArguments a meanCommand = .ok (.compare { a with
      baselinePath := ascii "a.json"
      candidatePath := ascii "b.json"
      metric := ascii "mean" }) := rfl

/-- A run of one call passes against a run at half the speed. -/
theorem not_slower_passes_named :
    ∃ stats stats', runBenchmark namedEngine slowClock identityOptions () = .ok stats ∧
      runBenchmark namedEngine tickingClock identityOptions () = .ok stats' ∧
      exitCode (fun path ↦ .text (formatMetricsJson {} identityOptions
        (if path = ascii "a.json" then stats else stats'))) (.ok 0) meanCommand = .ok 0 := by
  obtain ⟨stats, hrun, hstats⟩ : ∃ stats,
      runBenchmark namedEngine slowClock identityOptions () = .ok stats ∧ Named stats :=
    exists_ok (by decide +kernel)
  obtain ⟨stats', hrun', hstats'⟩ : ∃ stats,
      runBenchmark namedEngine tickingClock identityOptions () = .ok stats ∧ Named stats :=
    exists_ok (by decide +kernel)
  obtain ⟨hreadable, hcontext⟩ := readable_named hstats
  obtain ⟨hreadable', hcontext'⟩ := readable_named hstats'
  have hfaster : ∀ call < identityOptions.iterations.toNat,
      tickingClock.now (2 * call + 1) - tickingClock.now (2 * call) ≤
        slowClock.now (2 * call + 1) - slowClock.now (2 * call) := by
    decide
  refine ⟨stats, stats', hrun, hrun', ?_⟩
  exact not_slower_passes (parseArguments_mean {}) ⟨by decide, by decide, .inl rfl, by decide⟩ rfl
    (.inl rfl) hreadable hreadable' rfl rfl (.inr (hcontext.trans hcontext'.symm)) hrun hrun' rfl
    hfaster

end MarketData.Pipeline
