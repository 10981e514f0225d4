import MarketData.Base.Bounds
import MarketData.Engine.Benchmark
import MarketData.Engine.WellFormed

/-!
# The artifact of a run

Which documents of finished runs are JSON. The throughputs of a run are always finite: a
measured time is zero or at least a nanosecond. The largest error is infinite when an
output element that is compared is, and a NaN among them leaves it as it is.
-/

namespace MarketData

open ByteText Cpp Json Ieee.Number

variable {σ : Type} {engine : InferenceEngine σ} {clock : SteadyClock} {build : Build}
  {options : RunOptions} {s : σ} {stats : InferenceStats}

/-! ### Calls -/

/-- The session behind all calls of a run that finishes. -/
def lastSession (engine : InferenceEngine σ) (options : RunOptions) (s : σ) : Session σ :=
  (Session.next engine (benchmarkInput options.totalInput))^[
    options.warmup.toNat + options.iterations.toNat] (firstSession engine options s)

/-- What every call keeps holds of the session behind all of them. -/
theorem lastSession_invariant {P : Session σ → Prop} (hfirst : P (firstSession engine options s))
    (hnext : ∀ session, P session →
      P (session.next engine (benchmarkInput options.totalInput))) :
    P (lastSession engine options s) :=
  Function.Iterate.rec P hfirst hnext _

/-- The output elements of the last call that the validation compares. -/
def comparedOutput (engine : InferenceEngine σ) (options : RunOptions) (s : σ) : List Single :=
  let last := lastSession engine options s
  last.output.take (min options.totalInput last.outputElements).toNat

private theorem infer_eq_ok {input : List Single} {what : Bytes} {a b : Session σ}
    (h : infer engine input what a = .ok b) : b = a.next engine input := by
  obtain ⟨_, -, hb⟩ := bind_eq_ok.mp h
  exact (Except.ok.inj hb).symm

/-- Two readings of the clock are equal or at least a nanosecond apart. -/
theorem awayFromZero_elapsedUs (start stop : Nat) : (elapsedUs start stop).AwayFromZero 10 := by
  have hl : (literal 1000 : Double).isFinite = true ∧ (literal 1000 : Double).toRat = 1000 := by
    decide +kernel
  have hn : (ofNat (stop - start) : Double).AwayFromZero 0 := by
    apply awayFromZero_round (Nat.zero_le _)
    rcases Nat.eq_zero_or_pos (stop - start) with h | h
    · left
      exact_mod_cast h
    · right
      rw [pow_zero, div_one]
      exact_mod_cast h
  refine (hn.div (j := 10) (by decide) hl.1 ?_ ?_)
  · rw [hl.2]
    norm_num
  · rw [hl.2]
    norm_num

private theorem measure_eq_ok {input : List Single} {m m' : Measurement σ}
    (h : measure engine clock input m = .ok m') :
    m'.session = m.session.next engine input ∧
      ∃ x : Double, x.AwayFromZero 10 ∧ m'.endToEnd = m.endToEnd ++ [x] := by
  obtain ⟨session, hs, h⟩ := bind_eq_ok.mp h
  obtain rfl := Except.ok.inj h
  exact ⟨infer_eq_ok hs, _, awayFromZero_elapsedUs _ _, rfl⟩

/-- The calls of a run that finishes, and the latencies it has measured. -/
theorem runCalls_eq_ok {m : Measurement σ} (h : runCalls engine clock options s = .ok m) :
    m.session = lastSession engine options s ∧
      m.endToEnd.length = options.iterations.toNat ∧ ∀ x ∈ m.endToEnd, x.AwayFromZero 10 := by
  obtain ⟨session, hs, hm⟩ := bind_eq_ok.mp h
  have hwarm : session = (Session.next engine (benchmarkInput options.totalInput))^[
      0 + options.warmup.toNat] (firstSession engine options s) := by
    refine repeatTimes_invariant (p := fun k b ↦ b = _^[k] _) rfl ?_ hs
    rintro k a b rfl hb
    rw [infer_eq_ok hb, Function.iterate_succ_apply']
  have hrun := repeatTimes_invariant (k := 0) (p := fun k (m : Measurement σ) ↦
    m.session = (Session.next engine (benchmarkInput options.totalInput))^[k] session ∧
      m.endToEnd.length = k ∧ ∀ x ∈ m.endToEnd, x.AwayFromZero 10)
    ⟨rfl, rfl, by simp⟩ ?_ hm
  · obtain ⟨hsession, hlength, haway⟩ := hrun
    refine ⟨?_, by simpa using hlength, haway⟩
    rw [hsession, hwarm, ← Function.iterate_add_apply, lastSession]
    congr 1
    omega
  · rintro k a b ⟨hsession, hlength, haway⟩ hb
    obtain ⟨hnext, x, hx, hend⟩ := measure_eq_ok hb
    refine ⟨?_, ?_, ?_⟩
    · rw [hnext, hsession, Function.iterate_succ_apply']
    · rw [hend, List.length_append, hlength]
      rfl
    · rw [hend]
      simpa [or_imp, forall_and] using ⟨haway, hx⟩

/-! ### Throughputs -/

private theorem isFinite_ofNat {n : Nat} (hn : n ≤ 2 ^ 64) :
    (ofNat n : Double).isFinite = true ∧ |(ofNat n : Double).toRat| ≤ 2 ^ 64 := by
  have hle : |(n : ℚ)| ≤ 2 ^ 64 := by
    rw [abs_of_nonneg (Nat.cast_nonneg n)]
    exact_mod_cast hn
  exact ⟨isFinite_round_of_le (by decide) hle, abs_toRat_round_le (by decide) hle⟩

private theorem one_le_ofNat {n : Nat} (hn : n ≤ 2 ^ 64) (h : 1 ≤ n) :
    1 ≤ (ofNat n : Double).toRat := by
  have h1 : (1 : ℚ) / 2 ^ 0 ≤ n := by simpa using h
  simpa [ofNat] using le_toRat_round (Nat.zero_le _) (isFinite_ofNat hn).1 h1

private theorem awayFromZero_accumulate {values : List Double}
    (h : ∀ x ∈ values, x.AwayFromZero 10) : (accumulate values).AwayFromZero 10 := by
  have hfold : ∀ (values : List Double) (sum : Double), (∀ x ∈ values, x.AwayFromZero 10) →
      sum.AwayFromZero 10 → (values.foldl (· + ·) sum).AwayFromZero 10 := by
    intro values
    induction values with
    | nil => exact fun sum _ hsum ↦ hsum
    | cons x values ih =>
      intro sum h hsum
      exact ih _ (fun y hy ↦ h y (by simp [hy])) (hsum.add (by decide) (h x (by simp)))
  exact hfold values 0 h (.inr ⟨rfl, .inl toRat_zero⟩)

/-- The measured time of a run is zero or away from zero. -/
theorem awayFromZero_totalSeconds {values : List Double} {d : LatencyDistribution}
    (hne : values ≠ []) (hlt : values.length < 2 ^ 64) (h : ∀ x ∈ values, x.AwayFromZero 10)
    (hd : summarize values = .ok d) : (totalSeconds d).AwayFromZero 94 := by
  obtain ⟨sorted, hperm, hsamples, hmean⟩ := summarize_eq_ok hne hd
  have hl : (literal (10 ^ 6) : Double).isFinite = true ∧
      (literal (10 ^ 6) : Double).toRat = 10 ^ 6 := by
    decide +kernel
  have hcount : doubleOf d.samples = ofNat values.length := by
    rw [hsamples, doubleOf, UInt64.toNat_ofNat_of_lt' (by simpa [UInt64.size] using hlt)]
  have hn := isFinite_ofNat hlt.le
  have h1 := one_le_ofNat hlt.le (List.length_pos_iff.mpr hne)
  have hsum := awayFromZero_accumulate (fun x hx ↦ h x (hperm.mem_iff.mp hx))
  have hm : d.meanUs.AwayFromZero 74 := by
    rw [hmean]
    exact hsum.div (j := 64) (by decide) hn.1 (zero_lt_one.trans_le h1) ((le_abs_self _).trans hn.2)
  rw [totalSeconds, hcount]
  refine (hm.mul (by decide) hn.1 h1).div (j := 20) (by decide) hl.1 ?_ ?_
  · rw [hl.2]
    norm_num
  · rw [hl.2]
    norm_num

/-- A rate of an amount below a power of two is finite. -/
theorem isFinite_throughput {amount seconds : Double} (ha : amount.isFinite = true)
    (hle : |amount.toRat| ≤ 2 ^ 128) (hs : seconds.AwayFromZero 94) :
    (throughput amount seconds).isFinite = true := by
  unfold throughput
  split
  · next hpos => exact hs.isFinite_div (by decide) ha hle hpos
  · rfl

private theorem isFinite_doubleOf_mul (a b : UInt64) :
    (doubleOf a * doubleOf b).isFinite = true ∧ |(doubleOf a * doubleOf b).toRat| ≤ 2 ^ 128 :=
  have ha := isFinite_ofNat a.toNat_lt.le
  have hb := isFinite_ofNat b.toNat_lt.le
  isFinite_mul (j := 64) (k := 64) (by decide) ha.1 hb.1 ha.2 hb.2

/-! ### The largest error -/

/-- An input element is finite. -/
theorem isFinite_inputElement (index : Nat) : (inputElement index).isFinite = true := by
  have hlt : index % 97 < 97 := Nat.mod_lt _ (by decide)
  obtain ⟨hf, hv⟩ := ofNat_eq (F := Ieee.binary32) (n := index % 97)
    (hlt.le.trans (by decide)) (by decide)
  obtain ⟨hf', hv'⟩ := ofNat_eq (F := Ieee.binary32) (n := 97) (by decide) (by decide)
  have haway : (ofNat 97 : Single).AwayFromZero 0 := .inr ⟨hf', .inr (by rw [hv']; norm_num)⟩
  refine haway.isFinite_div (j := 7) (by decide) hf ?_ ?_
  · rw [hv, abs_of_nonneg (Nat.cast_nonneg _)]
    exact_mod_cast hlt.le.trans (by decide : 97 ≤ 2 ^ 7)
  · rw [lt_eq isFinite_zero hf', hv', toRat_zero]
    decide

/-- The error of a finite output element is finite. -/
theorem isFinite_elementError {actual expected : Single} (ha : actual.isFinite = true)
    (he : expected.isFinite = true) : (elementError actual expected).isFinite = true := by
  have hactual := isFinite_convert (G := Ieee.binary64) (k := 128) (by decide) ha
    (abs_toRat_le (by decide))
  have hexpected := isFinite_convert (G := Ieee.binary64) (k := 128) (by decide) he
    (abs_toRat_le (by decide))
  have hsub := isFinite_sub (k := 128) (by decide) hactual.1 hexpected.1 hactual.2 hexpected.2
  rw [elementError]
  cases hd : actual.convert Ieee.binary64 - expected.convert Ieee.binary64 with
  | nan => rw [hd] at hsub; cases hsub
  | infinite s => rw [hd] at hsub; cases hsub
  | finite s m => rfl

/-- The error of an infinite output element is infinite. -/
theorem elementError_infinite (s : Bool) {expected : Single}
    (he : expected.isFinite = true) :
    elementError (.infinite s) expected = .infinite false := by
  have hexpected := (isFinite_convert (G := Ieee.binary64) (k := 128) (by decide) he
    (abs_toRat_le (by decide))).1
  rw [elementError]
  cases hc : expected.convert Ieee.binary64 with
  | nan => rw [hc] at hexpected; cases hexpected
  | infinite t => rw [hc] at hexpected; cases hexpected
  | finite t m => rfl

/-- The largest error so far: finite, or the positive infinity. -/
def ErrorBound (x : Double) : Prop := x.isFinite = true ∨ x = .infinite false

private theorem errorBound_maxOf {x : Double} (hx : ErrorBound x) (actual : Single)
    {expected : Single} (he : expected.isFinite = true) :
    ErrorBound (maxOf x (elementError actual expected)) ∧
      ((maxOf x (elementError actual expected)).isFinite = true ↔
        x.isFinite = true ∧ actual.isInfinite = false) := by
  have hmax : ∀ a b : Double, maxOf a b = if a.lt b then b else a := fun _ _ ↦ rfl
  cases actual with
  | nan =>
    -- A comparison with a NaN is false, so the largest error stays.
    have hlt : x.lt (elementError .nan expected) = false := by cases x <;> rfl
    rw [hmax, hlt]
    exact ⟨hx, by simp [isInfinite]⟩
  | infinite s =>
    rw [elementError_infinite s he, hmax]
    rcases hx with hx | rfl
    · cases x with
      | nan => cases hx
      | infinite t => cases hx
      | finite t m => exact ⟨.inr rfl, iff_of_false Bool.false_ne_true (by simp [isInfinite])⟩
    · exact ⟨.inr rfl, iff_of_false (by decide) (by simp [isInfinite])⟩
  | finite s m =>
    have hf : (elementError (.finite s m) expected).isFinite = true :=
      isFinite_elementError rfl he
    rw [hmax]
    rcases hx with hx | rfl
    · split
      · exact ⟨.inl hf, by simp [hf, hx, isInfinite]⟩
      · exact ⟨.inl hx, by simp [hx, isInfinite]⟩
    · have hlt : (Ieee.Number.infinite false).lt (elementError (.finite s m) expected) = false := by
        cases hd : elementError (.finite s m) expected with
        | nan => rw [hd] at hf; cases hf
        | infinite t => rw [hd] at hf; cases hf
        | finite t n => rfl
      rw [hlt]
      exact ⟨.inr rfl, by simp [isFinite]⟩

private theorem validateElement_eq_ok {total : UInt64} {output : List Single} {tolerance : Double}
    {v v' : OutputValidation} {index : Nat}
    (h : validateElement (benchmarkInput total) output tolerance v index = .ok v') :
    ∃ actual, output[index]? = some actual ∧
      v'.maxAbsError = maxOf v.maxAbsError (elementError actual (inputElement index)) := by
  obtain ⟨actual, ha, h⟩ := bind_eq_ok.mp h
  obtain ⟨expected, he, h⟩ := bind_eq_ok.mp h
  obtain rfl := Except.ok.inj h
  rw [element_eq_ok, benchmarkInput, List.getElem?_map, Option.map_eq_some_iff] at he
  obtain ⟨i, hi, rfl⟩ := he
  obtain ⟨hlt, hget⟩ := List.getElem?_eq_some_iff.mp hi
  rw [List.getElem_range] at hget
  subst hget
  exact ⟨actual, element_eq_ok.mp ha, rfl⟩

private theorem validateElements_eq_ok {total : UInt64} {output : List Single}
    {tolerance : Double} {start v : OutputValidation} {n : Nat} (hs : start.maxAbsError = 0)
    (h : (List.range n).foldlM (validateElement (benchmarkInput total) output tolerance) start =
      .ok v) :
    ErrorBound v.maxAbsError ∧
      (v.maxAbsError.isFinite = true ↔ ∀ x ∈ output.take n, x.isInfinite = false) := by
  induction n generalizing v with
  | zero =>
    obtain rfl := Except.ok.inj h
    rw [hs]
    exact ⟨.inl rfl, iff_of_true rfl (by simp)⟩
  | succ n ih =>
    rw [List.range_succ, List.foldlM_append] at h
    obtain ⟨before, hb, h⟩ := bind_eq_ok.mp h
    obtain ⟨after, ha, h⟩ := bind_eq_ok.mp h
    obtain rfl := Except.ok.inj h
    obtain ⟨hbound, hiff⟩ := ih hb
    obtain ⟨actual, hactual, hmax⟩ := validateElement_eq_ok ha
    obtain ⟨hbound', hiff'⟩ := errorBound_maxOf hbound actual (isFinite_inputElement n)
    rw [hmax, List.take_add_one, hactual, hiff', hiff]
    exact ⟨hbound', by simp [or_imp, forall_and]⟩

/-- The largest error of a validation is finite when no compared element is infinite. -/
theorem isFinite_maxAbsError {total elements : UInt64} {output : List Single}
    {tolerance : Double} {v : OutputValidation}
    (h : validateIdentity total output elements tolerance = .ok v) :
    v.maxAbsError.isFinite = true ↔
      ∀ x ∈ output.take (min total elements).toNat, x.isInfinite = false := by
  obtain ⟨v', hv, h⟩ := bind_eq_ok.mp h
  obtain rfl := Except.ok.inj h
  exact (validateElements_eq_ok rfl hv).2

/-! ### The document of a run -/

/-- Every latency in the statistics is finite. -/
def FiniteLatencies (stats : InferenceStats) : Prop :=
  ∀ x ∈ stats.endToEnd.numbers ++ stats.deviceCompute.toList.flatMap LatencyDistribution.numbers,
    x.isFinite = true

/-- The latencies are checked one by one. -/
instance (stats : InferenceStats) : Decidable (FiniteLatencies stats) :=
  inferInstanceAs (Decidable (∀ _ ∈ _, _))

private theorem validateRun_eq_ok {session : Session σ} {validation : Option OutputValidation}
    (hs : session = lastSession engine options s)
    (h : validateRun options session = .ok validation) :
    (options.verifyIdentity = false ∧ validation = none) ∨
      options.verifyIdentity = true ∧ ∃ v, validation = some v ∧
        (v.maxAbsError.isFinite = true ↔
          ∀ x ∈ comparedOutput engine options s, x.isInfinite = false) := by
  unfold validateRun at h
  split at h
  · next hverify =>
    right
    cases hv : validateIdentity options.totalInput session.output session.outputElements
        options.validationTolerance with
    | error e =>
      rw [hv] at h
      cases h
    | ok v =>
      rw [hv] at h
      subst hs
      exact ⟨hverify, v, (Except.ok.inj h).symm, isFinite_maxAbsError hv⟩
  · next hverify =>
    exact .inl ⟨by simpa using hverify, (Except.ok.inj h).symm⟩

private theorem iterations_ne_zero {u : Unit} (h : checkRun engine options s = .ok u) :
    options.iterations ≠ 0 := by
  obtain ⟨_, hzero, -⟩ := bind_eq_ok.mp h
  exact fun hi ↦ throwUnless_eq_ok.mp hzero (.inr (.inr hi))

/-- The throughputs of a run are finite, and the largest error is when no output element that
the validation compares is infinite. -/
theorem runBenchmark_eq_ok (h : runBenchmark engine clock options s = .ok stats) :
    stats.throughputInferencesPerSecond.isFinite = true ∧
    stats.throughputSamplesPerSecond.isFinite = true ∧
    ((options.verifyIdentity = false ∧ stats.validation = none) ∨
      options.verifyIdentity = true ∧ ∃ v, stats.validation = some v ∧
        (v.maxAbsError.isFinite = true ↔
          ∀ x ∈ comparedOutput engine options s, x.isInfinite = false)) := by
  obtain ⟨m, hm⟩ := exists_returned h
  obtain ⟨hsession, hlength, haway⟩ := runCalls_eq_ok hm.calls
  have hne : m.endToEnd ≠ [] := by
    intro hnil
    rw [hnil] at hlength
    exact iterations_ne_zero hm.checked (UInt64.toNat_inj.mp hlength.symm)
  have hseconds := awayFromZero_totalSeconds hne (hlength ▸ options.iterations.toNat_lt) haway
    hm.endToEnd
  obtain ⟨hfs, hls⟩ := isFinite_ofNat stats.endToEnd.samples.toNat_lt.le
  obtain ⟨hfp, hlp⟩ := isFinite_doubleOf_mul stats.endToEnd.samples options.batchSize
  rw [hm.inferences, hm.samples]
  exact ⟨isFinite_throughput hfs (hls.trans (by norm_num)) hseconds,
    isFinite_throughput hfp hlp hseconds, validateRun_eq_ok hsession hm.validation⟩

private theorem ne_infinite_of_lt {x : Double} (h : zero.lt x = true) :
    x.isFinite = true ↔ x ≠ .infinite false := by
  cases x with
  | nan => cases h
  | infinite s =>
    cases s with
    | false => simp [isFinite]
    | true => cases h
  | finite s m => simp [isFinite]

private theorem target_iff (x : Double) :
    (∀ y ∈ (if zero.lt x then [x] else []), y.isFinite = true) ↔ x ≠ .infinite false := by
  split
  · next h => simpa using ne_infinite_of_lt h
  · next h =>
    apply iff_of_true (by simp)
    rintro rfl
    exact h rfl

/-- The document of a run with finite latencies is a JSON object exactly when the target is not
infinite and, under validation, the tolerance is finite and the last call left no infinity
among the output elements that are compared. -/
theorem isObjectText_runBenchmark (h : runBenchmark engine clock options s = .ok stats)
    (hl : FiniteLatencies stats) :
    IsObjectText (formatMetricsJson build options stats) ↔
      options.targetLatencyUs ≠ .infinite false ∧
      (options.verifyIdentity = true → options.validationTolerance.isFinite = true ∧
        ∀ x ∈ comparedOutput engine options s, x.isInfinite = false) := by
  obtain ⟨hi, hs, hv⟩ := runBenchmark_eq_ok h
  obtain ⟨he, hd⟩ := List.forall_mem_append.mp hl
  rw [isObjectText_formatMetricsJson, printed, List.forall_mem_append, List.forall_mem_append,
    List.forall_mem_cons, List.forall_mem_cons, List.forall_mem_append, target_iff,
    and_iff_right he, and_iff_right hd, and_iff_right hi, and_iff_right hs]
  rcases hv with ⟨hverify, hnone⟩ | ⟨hverify, v, hsome, hmax⟩
  · simp [hverify, hnone]
  · simp only [hverify, hsome, Option.toList_some, List.flatMap_cons, List.flatMap_nil,
      List.append_nil, List.forall_mem_cons, hmax, List.not_mem_nil, false_imp_iff, implies_true,
      and_true, true_imp_iff]
    exact and_comm

/-! ### Two runs of one call -/

/-- An engine that fills its output buffer with one value. -/
def constantEngine (value : Single) : InferenceEngine Unit where
  inferInto _ _ output _ :=
    ⟨true, List.replicate output.length value, UInt64.ofNat output.length, ()⟩
  inputElementsPerBatch _ := 1
  outputElementsPerBatch _ := 1
  backendName _ := ascii "tensorrt-gpu"
  length_output _ _ _ _ := List.length_replicate

/-- A clock that advances by a microsecond from reading to reading. -/
def tickingClock : SteadyClock := ⟨fun n ↦ 1000 * n, fun _ _ h ↦ Nat.mul_le_mul_left _ h⟩

/-- One call on one element, validated. -/
def identityOptions : RunOptions where
  inputSize := 1
  iterations := 1
  warmup := 0
  verifyIdentity := true

/-- A run whose statistics are computed. -/
theorem exists_run (value : Single) {p : InferenceStats → Prop} [DecidablePred p]
    (h : (runBenchmark (constantEngine value) tickingClock identityOptions ()).toOption.any
      (fun stats ↦ decide (p stats)) = true) :
    ∃ stats, runBenchmark (constantEngine value) tickingClock identityOptions () = .ok stats ∧
      p stats := by
  cases hrun : runBenchmark (constantEngine value) tickingClock identityOptions () with
  | error e =>
    rw [hrun] at h
    cases h
  | ok stats =>
    rw [hrun] at h
    exact ⟨stats, rfl, of_decide_eq_true h⟩

/-- The document of a run whose engine repeats its input is a JSON object. -/
theorem isObjectText_runBenchmark_zero :
    ∃ stats, runBenchmark (constantEngine 0) tickingClock identityOptions () = .ok stats ∧
      IsObjectText (formatMetricsJson {} identityOptions stats) := by
  obtain ⟨stats, h, hl⟩ := exists_run 0 (p := FiniteLatencies) (by decide +kernel)
  exact ⟨stats, h, (isObjectText_runBenchmark h hl).mpr (by decide +kernel)⟩

/-- An infinity in the output ends up in the document, which is then no JSON object. -/
theorem infinite_output_not_object :
    ∃ stats, runBenchmark (constantEngine (.infinite false)) tickingClock identityOptions () =
        .ok stats ∧ FiniteLatencies stats ∧
      ¬ IsObjectText (formatMetricsJson {} identityOptions stats) := by
  obtain ⟨stats, h, hl, hp⟩ := exists_run (.infinite false)
    (p := fun stats ↦ FiniteLatencies stats ∧
      ¬ ∀ x ∈ printed identityOptions stats, x.isFinite = true) (by decide +kernel)
  exact ⟨stats, h, hl, fun hj ↦ hp ((isObjectText_formatMetricsJson _ _ _).mp hj)⟩

end MarketData
