import MarketData.Pipeline.Verdicts

/-!
# What the exposition says about a run

The fields of a snapshot against the statistics it was written from, the validation
metrics, and the samples that claim to be device timings. A validated run loses its
element count, and a device objective without device timings is reported with the end to
end percentile under the device label.
-/

namespace MarketData.Pipeline

open ByteText Cpp Exporter Ingress Prometheus

/-! ### Fields of a snapshot -/

/-- A number as the writer rounds it. -/
def rounded (x : Double) : Double := x.roundDecimals 6

/-- A distribution as the writer rounds it. -/
def roundedDistribution (d : LatencyDistribution) : Distribution where
  samples := d.samples
  mean := rounded d.meanUs
  minimum := rounded d.minUs
  p50 := rounded d.p50Us
  p90 := rounded d.p90Us
  p95 := rounded d.p95Us
  p99 := rounded d.p99Us
  maximum := rounded d.maxUs
  stddev := rounded d.stddevUs

/-- The fields of a snapshot that hold no free-form string are those of the run. -/
structure Encoded (options : RunOptions) (stats : InferenceStats) (s : Snapshot) : Prop where
  samples : s.samples = stats.endToEnd.samples
  inputSize : s.inputSize = options.inputSize
  batchSize : s.batchSize = options.batchSize
  fallbackUsed : s.fallbackUsed = options.fallbackUsed
  cudaGraph : s.cudaGraph = stats.cudaGraph
  throughputIps : s.throughputIps = rounded stats.throughputInferencesPerSecond
  throughputSamplesPerSecond :
    s.throughputSamplesPerSecond = rounded stats.throughputSamplesPerSecond
  endToEnd : s.endToEnd = roundedDistribution stats.endToEnd
  deviceCompute : s.deviceCompute = stats.deviceCompute.map roundedDistribution
  validationPassed : s.validationPassed = stats.validation.map OutputValidation.passed
  sloScope : s.sloScope = scopeName options.targetScope
  sloTargetUs : s.sloTargetUs =
    if Ieee.Number.zero.lt options.targetLatencyUs then some (rounded options.targetLatencyUs)
    else none
  sloObservedP99Us : s.sloObservedP99Us =
    (selectedDistribution options stats).map (fun d ↦ rounded d.p99Us)
  sloPassed : s.sloPassed =
    if options.targetLatencyUs.le .zero then none
    else some (((selectedDistribution options stats).map
      (fun d ↦ d.p99Us.le options.targetLatencyUs)).getD false)

private theorem readDouble_finite {x : Double} (h : x.isFinite = true) :
    readDouble x = .ok (rounded x) := if_pos h

private theorem readDistribution_finite {d : LatencyDistribution}
    (hf : ∀ x ∈ d.numbers, x.isFinite = true) (hs : d.samples.toNat ≤ 2 ^ 53) :
    readDistribution d = .ok (roundedDistribution d) := by
  simp only [LatencyDistribution.numbers, List.forall_mem_cons] at hf
  obtain ⟨hmean, hmin, h50, h90, h95, h99, hmax, hstddev, -⟩ := hf
  simp only [readDistribution, unsignedOf_doubleOf _ hs, readDouble_finite hmean,
    readDouble_finite hmin, readDouble_finite h50, readDouble_finite h90, readDouble_finite h95,
    readDouble_finite h99, readDouble_finite hmax, readDouble_finite hstddev, ok_bind]
  rfl

section

variable {build : Build} {options : RunOptions} {stats : InferenceStats}

private theorem readDeviceCompute_finite (hn : FiniteNumbers options stats)
    (hi : ExactIntegers options stats) :
    readDeviceCompute stats.deviceCompute = .ok (stats.deviceCompute.map roundedDistribution) := by
  cases hd : stats.deviceCompute with
  | none => rfl
  | some d =>
    rw [readDeviceCompute, readDistribution_finite (hn.deviceCompute hd) (hi.deviceCompute hd)]
    rfl

private theorem readTarget_finite (h : options.targetLatencyUs.isFinite = true) :
    readTarget options.targetLatencyUs =
      .ok (if Ieee.Number.zero.lt options.targetLatencyUs then
        some (rounded options.targetLatencyUs) else none) := by
  rw [readTarget, readDouble_finite h]
  split <;> rfl

private theorem readObserved_finite (hn : FiniteNumbers options stats) :
    readObserved (selectedDistribution options stats) =
      .ok ((selectedDistribution options stats).map (fun d ↦ rounded d.p99Us)) := by
  unfold selectedDistribution
  split
  · cases hs : stats.deviceCompute with
    | none => rfl
    | some d =>
      rw [readObserved, readDouble_finite
        (hn.deviceCompute hs _ (by simp [LatencyDistribution.numbers]))]
      rfl
  · rw [readObserved, readDouble_finite (hn.endToEnd _ (by simp [LatencyDistribution.numbers]))]
    rfl

private theorem sloVerdict_eq (target : Double) (selected : Option LatencyDistribution) :
    sloVerdict target selected =
      if target.le .zero then none
      else some ((selected.map (fun d ↦ d.p99Us.le target)).getD false) := by
  unfold sloVerdict
  cases selected <;> rfl

private theorem readDevice_named {name : Bytes} (h : name ≠ []) :
    readDevice name = .ok (readString name) := if_neg h

/-- The snapshot of a run with finite numbers, exact integers and a device name. -/
def runSnapshot (build : Build) (options : RunOptions) (stats : InferenceStats) : Snapshot where
  version := readString build.version
  revision := readString build.revision
  model := readString options.modelPath
  backend := readString stats.backend
  backendVersion := (readOptionalString stats.runtime.backendVersion).getD (ascii "unknown")
  device := readString stats.runtime.deviceName
  samples := stats.endToEnd.samples
  inputSize := options.inputSize
  batchSize := options.batchSize
  fallbackUsed := options.fallbackUsed
  cudaGraph := stats.cudaGraph
  throughputIps := rounded stats.throughputInferencesPerSecond
  throughputSamplesPerSecond := rounded stats.throughputSamplesPerSecond
  endToEnd := roundedDistribution stats.endToEnd
  deviceCompute := stats.deviceCompute.map roundedDistribution
  validationPassed := stats.validation.map OutputValidation.passed
  validationElements := none
  sloScope := scopeName options.targetScope
  sloTargetUs := if Ieee.Number.zero.lt options.targetLatencyUs then
    some (rounded options.targetLatencyUs) else none
  sloObservedP99Us := (selectedDistribution options stats).map (fun d ↦ rounded d.p99Us)
  sloPassed := sloVerdict options.targetLatencyUs (selectedDistribution options stats)

/-- The exporter reads that snapshot. -/
theorem agrees_runSnapshot (hn : FiniteNumbers options stats) (hi : ExactIntegers options stats)
    (hd : stats.runtime.deviceName ≠ []) :
    Agrees build options stats (runSnapshot build options stats) :=
  ⟨rfl, rfl, rfl, rfl, rfl, readDevice_named hd, unsignedOf_doubleOf _ hi.endToEnd,
    unsignedOf_doubleOf _ hi.inputSize, unsignedOf_doubleOf _ hi.batchSize, rfl, rfl,
    readDouble_finite hn.inferences, readDouble_finite hn.samples,
    readDistribution_finite hn.endToEnd hi.endToEnd, readDeviceCompute_finite hn hi, rfl, rfl, rfl,
    readTarget_finite hn.target, readObserved_finite hn, rfl⟩

/-- Whatever bytes the strings of a run hold, the exporter reads every other field as it was
written. -/
theorem parseSnapshot_encoded (hn : FiniteNumbers options stats)
    (hi : ExactIntegers options stats) (hd : stats.runtime.deviceName ≠ []) :
    ∃ s, parseSnapshot (formatMetricsJson build options stats) = .ok s ∧
      Encoded options stats s :=
  ⟨runSnapshot build options stats, parseSnapshot_eq_ok.mpr (agrees_runSnapshot hn hi hd),
    rfl, rfl, rfl, rfl, rfl, rfl, rfl, rfl, rfl, rfl, rfl, rfl, rfl, sloVerdict_eq _ _⟩

end

/-- A run whose strings hold quotes, braces, control characters and text that looks like a field. -/
def hostileStats : InferenceStats :=
  { sampleStats with
    backend := ascii "\"\x7d, \"samples\": 9, \x7b\"" ++ [backslash, 0, 1, 255]
    runtime := { deviceName := ascii "\\\", \"slo\": \x7b\"passed\": false\x7d" } }

/-- The hostile strings change no field. -/
theorem parseSnapshot_encoded_hostile :
    ∃ s, parseSnapshot (formatMetricsJson {} {} hostileStats) = .ok s ∧
      Encoded {} hostileStats s :=
  parseSnapshot_encoded (by decide +kernel) (by decide +kernel) (by decide)

/-! ### Validation -/

/-- What an exposition should say about the validation of a run. -/
structure ReportsValidation (stats : InferenceStats) (exposition : Bytes) : Prop where
  enabled : scraped exposition "marketdata_inference_validation_enabled" = some (ascii "1") ↔
    stats.validation.isSome = true
  pass : scraped exposition "marketdata_inference_validation_pass" = some (ascii "1") ↔
    ∃ v, stats.validation = some v ∧ v.passed = true
  elements : scraped exposition "marketdata_inference_validation_elements" =
    some (printUnsigned ((stats.validation.map OutputValidation.comparedElements).getD 0))

private theorem printUnsigned_inj {m n : UInt64} : printUnsigned m = printUnsigned n ↔ m = n := by
  constructor
  · intro h
    have hn := congrArg numeral h
    rw [printUnsigned, printUnsigned, numeral_decimal, numeral_decimal] at hn
    exact UInt64.toNat_inj.mp hn
  · exact congrArg printUnsigned

/-- The exposition reports the validation of a run exactly when no element was compared: the
reader looks for the count under a name the writer does not use. -/
theorem reportsValidation_iff {build : Build} {options : RunOptions} {stats : InferenceStats}
    {s : Snapshot} (h : parseSnapshot (formatMetricsJson build options stats) = .ok s)
    (t : Double) :
    ReportsValidation stats (renderSnapshot s t) ↔
      ∀ v ∈ stats.validation, v.comparedElements = 0 := by
  have ha := parseSnapshot_eq_ok.mp h
  have he : scraped (renderSnapshot s t) "marketdata_inference_validation_elements" =
      some (printUnsigned 0) := by
    rw [scraped_renderSnapshot s t (by decide), samples_verdictLines, ha.validationElements]
    simp [valueOf_cons]
  have hcount : ((stats.validation.map OutputValidation.comparedElements).getD 0 = 0 ↔
      ∀ v ∈ stats.validation, v.comparedElements = 0) := by
    cases stats.validation <;> simp
  rw [← hcount]
  constructor
  · intro hr
    have hz := he.symm.trans hr.elements
    exact (printUnsigned_inj.mp (Option.some.inj hz)).symm
  · intro hz
    refine ⟨?_, ?_, by rw [he, hz]⟩
    · rw [scraped_renderSnapshot s t (by decide), samples_verdictLines, ha.validationPassed]
      cases stats.validation <;> simp [valueOf_cons, printFlag_eq_one]
    · rw [scraped_renderSnapshot s t (by decide), samples_verdictLines, ha.validationPassed]
      cases stats.validation <;> simp [valueOf_cons, printFlag_eq_one]

/-- The short run was validated without a compared element. -/
theorem reportsValidation_sample :
    ReportsValidation sampleStats (renderSnapshot sampleSnapshot .zero) ↔
      ∀ v ∈ sampleStats.validation, v.comparedElements = 0 :=
  reportsValidation_iff parseSnapshot_sample .zero

/-- The short run with 128 compared elements. -/
def validatedStats : InferenceStats :=
  { sampleStats with validation := some { passed := true, comparedElements := 128 } }

/-- The exposition of the validated run reports no element. -/
theorem validated_elements_lost :
    parseSnapshot (formatMetricsJson {} {} validatedStats) = .ok sampleSnapshot ∧
      ¬ ReportsValidation validatedStats (renderSnapshot sampleSnapshot .zero) := by
  have h : parseSnapshot (formatMetricsJson {} {} validatedStats) = .ok sampleSnapshot := by
    rw [parseSnapshot_formatMetricsJson]
    decide +kernel
  refine ⟨h, fun hr ↦ ?_⟩
  have he := hr.elements
  rw [scraped_renderSnapshot _ _ (by decide), samples_verdictLines] at he
  revert he
  decide +kernel

/-! ### Device timings -/

/-- The samples that show a device distribution: its own and the objective's. -/
def deviceSamples (d : Distribution) : List Sample :=
  samples (distributionLines (ascii "device_compute") d) ++
    [⟨ascii "marketdata_inference_slo_observed_p99_us", [scopeLabel (ascii "device_compute")],
      printGeneral d.p99⟩]

/-- Every observed latency under the device label comes from the device distribution. -/
def DeviceTimed (stats : InferenceStats) (exposition : Bytes) : Prop :=
  ∀ all, read exposition = some all → ∀ sample ∈ all,
    scopeLabel (ascii "device_compute") ∈ sample.labels →
    sample.name ≠ ascii "marketdata_inference_slo_target_us" →
    ∃ d d', stats.deviceCompute = some d ∧ readDistribution d = .ok d' ∧ sample ∈ deviceSamples d'

private theorem scope_ne_runLines {s : Snapshot} {t : Double} :
    ∀ sample ∈ samples (runLines s t), ∀ scope, scopeLabel scope ∉ sample.labels := by
  simp only [runLines, samples_append, samples_gauge, samples_header, List.nil_append,
    List.forall_mem_append, List.forall_mem_singleton, List.not_mem_nil, not_false_eq_true,
    implies_true, false_implies, and_true]
  simp [scopeLabel, ascii_inj]

private theorem scope_distributionLines {scope : Bytes} {d : Distribution} :
    ∀ sample ∈ samples (distributionLines scope d), ∀ other, scopeLabel other ∈ sample.labels →
      other = scope := by
  simp [samples, distributionLines, sampleLine, scopeLabel, quantileLabel, ascii_inj]

private theorem endToEnd_ne_deviceCompute : ascii "device_compute" ≠ ascii "end_to_end" := by
  decide

private theorem deviceSamples_of_mem {s : Snapshot} {t : Double} {sample : Sample}
    (h : sample ∈ samples (snapshotLines s t))
    (hl : scopeLabel (ascii "device_compute") ∈ sample.labels)
    (hn : sample.name ≠ ascii "marketdata_inference_slo_target_us") :
    (∃ d, s.deviceCompute = some d ∧
        sample ∈ samples (distributionLines (ascii "device_compute") d)) ∨
      (s.sloScope = ascii "device_compute" ∧
        sample = ⟨ascii "marketdata_inference_slo_observed_p99_us", [scopeLabel s.sloScope],
          printGeneral (s.sloObservedP99Us.getD s.endToEnd.p99)⟩) := by
  simp only [snapshotLines, samples_append, List.mem_append] at h
  rcases h with h | h | h | h
  · exact absurd hl (scope_ne_runLines _ h _)
  · exact absurd (scope_distributionLines _ h _ hl) endToEnd_ne_deviceCompute
  · unfold deviceLines at h
    cases hd : s.deviceCompute with
    | none =>
      rw [hd] at h
      cases h
    | some d =>
      rw [hd] at h
      simp only [samples_append, samples_gauge, List.mem_append, List.mem_singleton] at h
      rcases h with h | rfl
      · exact .inl ⟨d, rfl, h⟩
      · cases hl
  · rw [samples_verdictLines] at h
    simp only [List.mem_cons, List.not_mem_nil, or_false] at h
    rcases h with rfl | rfl | rfl | rfl | rfl | rfl | rfl
    · cases hl
    · cases hl
    · cases hl
    · cases hl
    · exact absurd rfl hn
    · refine .inr ⟨?_, rfl⟩
      exact ((Prod.mk.inj (List.mem_singleton.mp hl)).2).symm
    · cases hl

private theorem scopeName_eq_deviceCompute {scope : LatencyScope} :
    scopeName scope = ascii "device_compute" ↔ scope = .deviceCompute := by
  cases scope <;> decide

private theorem readObserved_some {d : LatencyDistribution} {d' : Distribution}
    (h : readDistribution d = .ok d') : readObserved (some d) = .ok (some d'.p99) := by
  simp only [readDistribution, bind_eq_ok] at h
  obtain ⟨_, -, _, -, _, -, _, -, _, -, _, -, p99, h99, _, -, _, -, hok⟩ := h
  obtain rfl := Except.ok.inj hok
  rw [readObserved, h99]
  rfl

private theorem readDeviceCompute_some {stats : InferenceStats} {d : Distribution}
    (h : readDeviceCompute stats.deviceCompute = .ok (some d)) :
    ∃ written, stats.deviceCompute = some written ∧ readDistribution written = .ok d := by
  cases hs : stats.deviceCompute with
  | none =>
    rw [hs] at h
    cases h
  | some written =>
    rw [hs, readDeviceCompute] at h
    cases hr : readDistribution written with
    | error e =>
      rw [hr] at h
      cases h
    | ok d' =>
      rw [hr] at h
      obtain rfl := Option.some.inj (Except.ok.inj h)
      exact ⟨written, rfl, hr⟩

/-- Every observed latency under the device label is a device timing exactly when the run has
device timings or no device objective. -/
theorem deviceTimed_iff {build : Build} {options : RunOptions} {stats : InferenceStats}
    {s : Snapshot} (h : parseSnapshot (formatMetricsJson build options stats) = .ok s)
    (t : Double) :
    DeviceTimed stats (renderSnapshot s t) ↔
      ¬ (options.targetScope = .deviceCompute ∧ stats.deviceCompute = none) := by
  have ha := parseSnapshot_eq_ok.mp h
  have hread := read_renderSnapshot s t
  constructor
  · rintro hdt ⟨hscope, hnone⟩
    -- the objective's own sample carries the device label
    have hmem : (⟨ascii "marketdata_inference_slo_observed_p99_us", [scopeLabel s.sloScope],
        printGeneral (s.sloObservedP99Us.getD s.endToEnd.p99)⟩ : Sample) ∈
        samples (snapshotLines s t) := by
      simp [snapshotLines, samples_append, samples_verdictLines]
    have hl : s.sloScope = ascii "device_compute" := by
      rw [ha.sloScope, scopeName_eq_deviceCompute]
      exact hscope
    obtain ⟨d, _, hd, -⟩ := hdt _ hread _ hmem (by simp [hl]) (by simp [ascii_inj])
    rw [hnone] at hd
    cases hd
  · intro hn all hall sample hm hl hname
    rw [hread] at hall
    obtain rfl := Option.some.inj hall
    rcases deviceSamples_of_mem hm hl hname with ⟨d', hd', hmem⟩ | ⟨hscope, rfl⟩
    · obtain ⟨d, hd, hr⟩ := readDeviceCompute_some (hd' ▸ ha.deviceCompute)
      exact ⟨d, d', hd, hr, List.mem_append_left _ hmem⟩
    · have hdevice : options.targetScope = .deviceCompute := by
        rw [← scopeName_eq_deviceCompute, ← ha.sloScope]
        exact hscope
      have hc := ha.deviceCompute
      have ho := ha.sloObservedP99Us
      cases hd : stats.deviceCompute with
      | none => exact absurd ⟨hdevice, hd⟩ hn
      | some d =>
        rw [hd] at hc
        cases hr : readDistribution d with
        | error e =>
          rw [readDeviceCompute, hr] at hc
          cases hc
        | ok d' =>
          simp only [selectedDistribution, hdevice, hd, readObserved_some hr] at ho
          refine ⟨d, d', rfl, hr, List.mem_append_right _ ?_⟩
          rw [← Except.ok.inj ho, hscope]
          exact List.mem_singleton.mpr rfl

/-- The short run has device timings. -/
theorem deviceTimed_sample :
    DeviceTimed sampleStats (renderSnapshot sampleSnapshot .zero) ↔
      ¬ (({} : RunOptions).targetScope = .deviceCompute ∧ sampleStats.deviceCompute = none) :=
  deviceTimed_iff parseSnapshot_sample .zero

/-- The short run on a backend without device timings. -/
def hostStats : InferenceStats := { sampleStats with deviceCompute := none }

/-- What the exporter reads for it under a device objective. -/
def hostSnapshot : Snapshot :=
  { sampleSnapshot with
    deviceCompute := none
    sloScope := ascii "device_compute"
    sloObservedP99Us := none }

/-- Under a device objective the end to end percentile carries the device label. -/
theorem host_percentile_as_device :
    parseSnapshot (formatMetricsJson {} { targetScope := .deviceCompute } hostStats) =
        .ok hostSnapshot ∧
      (⟨ascii "marketdata_inference_slo_observed_p99_us", [scopeLabel (ascii "device_compute")],
        printGeneral (rounded hostStats.endToEnd.p99Us)⟩ : Sample) ∈
        (read (renderSnapshot hostSnapshot .zero)).getD [] ∧
      ¬ DeviceTimed hostStats (renderSnapshot hostSnapshot .zero) := by
  have h : parseSnapshot (formatMetricsJson {} { targetScope := .deviceCompute } hostStats) =
      .ok hostSnapshot := by
    rw [parseSnapshot_formatMetricsJson]
    decide +kernel
  have hp : rounded hostStats.endToEnd.p99Us = doubleOf 3 := by decide +kernel
  have hm : (⟨ascii "marketdata_inference_slo_observed_p99_us",
      [scopeLabel (ascii "device_compute")],
      printGeneral (rounded hostStats.endToEnd.p99Us)⟩ : Sample) ∈
      samples (snapshotLines hostSnapshot .zero) := by
    rw [hp]
    simp [snapshotLines, samples_append, samples_verdictLines, hostSnapshot, sampleSnapshot]
  refine ⟨h, by rw [read_renderSnapshot]; exact hm, fun hdt ↦ ?_⟩
  obtain ⟨d, _, hd, -⟩ := hdt _ (read_renderSnapshot _ _) _ hm (by simp) (by simp [ascii_inj])
  cases hd

end MarketData.Pipeline
