import MarketData.Engine.Types

/-!
# Metrics document writer

`escape_json`, `write_distribution`, `scope_name` and `format_metrics_json` of
`src/benchmark.cpp`. The stream prints floating point values with `std::fixed` and six
decimals.
-/

namespace MarketData

open ByteText Cpp

/-- A lower-case hexadecimal digit. -/
def hexDigitByte (d : Nat) : UInt8 := if d < 10 then digitByte d else UInt8.ofNat (87 + d)

/-- One byte inside `escape_json`. -/
def escapeByte (c : UInt8) : Bytes :=
  if c = quote then [backslash, quote]
  else if c = backslash then [backslash, backslash]
  else if c = 8 then ascii "\\b"
  else if c = 12 then ascii "\\f"
  else if c = 10 then ascii "\\n"
  else if c = 13 then ascii "\\r"
  else if c = 9 then ascii "\\t"
  else if c < 0x20 then
    ascii "\\u00" ++ [hexDigitByte (c.toNat / 16), hexDigitByte (c.toNat % 16)]
  else [c]

/-- `escape_json`, `src/benchmark.cpp:65–87`: the bytes of a string with quotes, backslashes and
control characters escaped. -/
def escapeJson (value : Bytes) : Bytes := value.flatMap escapeByte

/-- `operator<<` of a `double` under `std::fixed` and `std::setprecision(6)`: six decimals. -/
def printDouble (x : Double) : Bytes := Ieee.formatFixed 6 x

/-- The branch `flag ? "true" : "false"`. -/
def printBool (flag : Bool) : Bytes := if flag then ascii "true" else ascii "false"

/-! In the texts below `\x7b` and `\x7d` are the braces. -/

/-- `write_distribution`, `src/benchmark.cpp:89–102`: the object with the statistics of one scope.
-/
def writeDistribution (distribution : LatencyDistribution) (indent : Nat) : Bytes :=
  let pad := List.replicate indent blank
  stream [ascii "\x7b\n",
    pad, ascii "  \"samples\": ", printUnsigned distribution.samples, ascii ",\n",
    pad, ascii "  \"mean\": ", printDouble distribution.meanUs, ascii ",\n",
    pad, ascii "  \"min\": ", printDouble distribution.minUs, ascii ",\n",
    pad, ascii "  \"p50\": ", printDouble distribution.p50Us, ascii ",\n",
    pad, ascii "  \"p90\": ", printDouble distribution.p90Us, ascii ",\n",
    pad, ascii "  \"p95\": ", printDouble distribution.p95Us, ascii ",\n",
    pad, ascii "  \"p99\": ", printDouble distribution.p99Us, ascii ",\n",
    pad, ascii "  \"max\": ", printDouble distribution.maxUs, ascii ",\n",
    pad, ascii "  \"stddev\": ", printDouble distribution.stddevUs, ascii "\n",
    pad, ascii "\x7d"]

/-- `scope_name`, `src/benchmark.cpp:104–106`: the name of a scope in the documents. -/
def scopeName (scope : LatencyScope) : Bytes :=
  match scope with
  | .deviceCompute => ascii "device_compute"
  | .endToEnd => ascii "end_to_end"

/-- The branch written for each runtime string: `null` when it is empty. -/
def writeOptionalString (value : Bytes) : Bytes :=
  if value = [] then ascii "null" else stream [ascii "\"", escapeJson value, ascii "\""]

/-- The branch written for the device memory: `null` when it is zero. -/
def writeDeviceMemory (bytes : UInt64) : Bytes :=
  if bytes = 0 then ascii "null" else printUnsigned bytes

/-- The branch written for the device distribution. -/
def writeDeviceCompute (distribution : Option LatencyDistribution) : Bytes :=
  match distribution with
  | some distribution => writeDistribution distribution 4
  | none => ascii "null"

/-- The branch written for the validation. -/
def writeValidation (tolerance : Double) (validation : Option OutputValidation) : Bytes :=
  match validation with
  | some validation => stream [ascii "\x7b\n",
      ascii "    \"kind\": \"identity\",\n",
      ascii "    \"tolerance\": ", printDouble tolerance, ascii ",\n",
      ascii "    \"compared_elements\": ", printUnsigned validation.comparedElements, ascii ",\n",
      ascii "    \"mismatches\": ", printUnsigned validation.mismatches, ascii ",\n",
      ascii "    \"max_abs_error\": ", printDouble validation.maxAbsError, ascii ",\n",
      ascii "    \"passed\": ", printBool validation.passed, ascii "\n",
      ascii "  \x7d"]
  | none => ascii "null"

/-- The distribution the target scope selects, when it is available. -/
def selectedDistribution (options : RunOptions) (stats : InferenceStats) :
    Option LatencyDistribution :=
  match options.targetScope with
  | .deviceCompute => stats.deviceCompute
  | .endToEnd => some stats.endToEnd

/-- The branch written for the target: `null` when none is set. -/
def writeTarget (target : Double) : Bytes :=
  if Ieee.Number.zero.lt target then printDouble target else ascii "null"

/-- The branch written for the observed percentile: `null` without a distribution. -/
def writeObserved (selected : Option LatencyDistribution) : Bytes :=
  match selected with
  | some selected => printDouble selected.p99Us
  | none => ascii "null"

/-- The branch written for the verdict: `null` when no target is set. -/
def writeSloPassed (target : Double) (selected : Option LatencyDistribution) : Bytes :=
  if target.le .zero then ascii "null"
  else
    match selected with
    | some selected => printBool (selected.p99Us.le target)
    | none => ascii "false"

/-- `format_metrics_json`, `src/benchmark.cpp:202–322`: the metrics document of a run. -/
def formatMetricsJson (build : Build) (options : RunOptions) (stats : InferenceStats) : Bytes :=
  let selected := selectedDistribution options stats
  let target := options.targetLatencyUs
  stream [ascii "\x7b\n",
    ascii "  \"schema_version\": 2,\n",
    ascii "  \"build\": \x7b\n",
    ascii "    \"version\": \"", escapeJson build.version, ascii "\",\n",
    ascii "    \"revision\": \"", escapeJson build.revision, ascii "\"\n",
    ascii "  \x7d,\n",
    ascii "  \"model\": \"", escapeJson options.modelPath, ascii "\",\n",
    ascii "  \"backend\": \"", escapeJson stats.backend, ascii "\",\n",
    ascii "  \"requested_backend\": \"", escapeJson options.requestedBackend, ascii "\",\n",
    ascii "  \"fallback_used\": ", printBool options.fallbackUsed, ascii ",\n",
    ascii "  \"cuda_graph\": ", printBool stats.cudaGraph, ascii ",\n",
    ascii "  \"environment\": \x7b\n",
    ascii "    \"backend_version\": ", writeOptionalString stats.runtime.backendVersion,
    ascii ",\n    \"device\": ", writeOptionalString stats.runtime.deviceName,
    ascii ",\n    \"compute_capability\": ", writeOptionalString stats.runtime.computeCapability,
    ascii ",\n    \"cuda_runtime\": ", writeOptionalString stats.runtime.cudaRuntimeVersion,
    ascii ",\n    \"cuda_driver\": ", writeOptionalString stats.runtime.cudaDriverVersion,
    ascii ",\n    \"device_memory_bytes\": ", writeDeviceMemory stats.runtime.deviceMemoryBytes,
    ascii "\n  \x7d,\n",
    ascii "  \"samples\": ", printUnsigned stats.endToEnd.samples, ascii ",\n",
    ascii "  \"input_size\": ", printUnsigned options.inputSize, ascii ",\n",
    ascii "  \"batch_size\": ", printUnsigned options.batchSize, ascii ",\n",
    ascii "  \"latency_us\": \x7b\n",
    ascii "    \"end_to_end\": ", writeDistribution stats.endToEnd 4,
    ascii ",\n    \"device_compute\": ", writeDeviceCompute stats.deviceCompute,
    ascii "\n  \x7d,\n",
    ascii "  \"mean_us\": ", printDouble stats.endToEnd.meanUs, ascii ",\n",
    ascii "  \"min_us\": ", printDouble stats.endToEnd.minUs, ascii ",\n",
    ascii "  \"p50_us\": ", printDouble stats.endToEnd.p50Us, ascii ",\n",
    ascii "  \"p90_us\": ", printDouble stats.endToEnd.p90Us, ascii ",\n",
    ascii "  \"p95_us\": ", printDouble stats.endToEnd.p95Us, ascii ",\n",
    ascii "  \"p99_us\": ", printDouble stats.endToEnd.p99Us, ascii ",\n",
    ascii "  \"max_us\": ", printDouble stats.endToEnd.maxUs, ascii ",\n",
    ascii "  \"stddev_us\": ", printDouble stats.endToEnd.stddevUs, ascii ",\n",
    ascii "  \"throughput_ips\": ", printDouble stats.throughputInferencesPerSecond, ascii ",\n",
    ascii "  \"throughput_samples_per_second\": ",
      printDouble stats.throughputSamplesPerSecond, ascii ",\n",
    ascii "  \"validation\": ",
      writeValidation options.validationTolerance stats.validation,
    ascii ",\n",
    ascii "  \"slo\": \x7b\n",
    ascii "    \"scope\": \"", scopeName options.targetScope, ascii "\",\n",
    ascii "    \"target_us\": ", writeTarget target,
    ascii ",\n    \"observed_p99_us\": ", writeObserved selected,
    ascii ",\n    \"passed\": ", writeSloPassed target selected,
    ascii "\n  \x7d\n\x7d\n"]

/-! ### The numbers of a document -/

/-- The floating point numbers of a distribution. -/
def LatencyDistribution.numbers (d : LatencyDistribution) : List Double :=
  [d.meanUs, d.minUs, d.p50Us, d.p90Us, d.p95Us, d.p99Us, d.maxUs, d.stddevUs]

/-- The floating point numbers that a document is written from. -/
def numbers (options : RunOptions) (stats : InferenceStats) : List Double :=
  options.targetLatencyUs :: options.validationTolerance ::
    stats.throughputInferencesPerSecond :: stats.throughputSamplesPerSecond ::
    (stats.endToEnd.numbers ++ (stats.deviceCompute.toList.flatMap LatencyDistribution.numbers ++
      stats.validation.toList.map OutputValidation.maxAbsError))

/-- The integers that a document is written from. -/
def integers (options : RunOptions) (stats : InferenceStats) : List UInt64 :=
  options.inputSize :: options.batchSize :: stats.endToEnd.samples ::
    stats.runtime.deviceMemoryBytes ::
    (stats.deviceCompute.toList.map LatencyDistribution.samples ++
      (stats.validation.toList.map OutputValidation.comparedElements ++
        stats.validation.toList.map OutputValidation.mismatches))

/-- Every floating point number is finite. -/
def FiniteNumbers (options : RunOptions) (stats : InferenceStats) : Prop :=
  ∀ x ∈ numbers options stats, x.isFinite = true

/-- A `double` holds every integer. -/
def ExactIntegers (options : RunOptions) (stats : InferenceStats) : Prop :=
  ∀ n ∈ integers options stats, n.toNat ≤ 2 ^ 53

section

variable {options : RunOptions} {stats : InferenceStats}

/-- The target is finite. -/
theorem FiniteNumbers.target (h : FiniteNumbers options stats) :
    options.targetLatencyUs.isFinite = true := h _ (by simp [numbers])

/-- The throughput in calls is finite. -/
theorem FiniteNumbers.inferences (h : FiniteNumbers options stats) :
    stats.throughputInferencesPerSecond.isFinite = true := h _ (by simp [numbers])

/-- The throughput in samples is finite. -/
theorem FiniteNumbers.samples (h : FiniteNumbers options stats) :
    stats.throughputSamplesPerSecond.isFinite = true := h _ (by simp [numbers])

/-- The end to end latencies are finite. -/
theorem FiniteNumbers.endToEnd (h : FiniteNumbers options stats) :
    ∀ x ∈ stats.endToEnd.numbers, x.isFinite = true := fun x hx ↦ h x (by simp [numbers, hx])

/-- The device latencies are finite. -/
theorem FiniteNumbers.deviceCompute (h : FiniteNumbers options stats) {d : LatencyDistribution}
    (hd : stats.deviceCompute = some d) : ∀ x ∈ d.numbers, x.isFinite = true :=
  fun x hx ↦ h x (by simp [numbers, hd, hx])

/-- The input size is exact. -/
theorem ExactIntegers.inputSize (h : ExactIntegers options stats) :
    options.inputSize.toNat ≤ 2 ^ 53 := h _ (by simp [integers])

/-- The batch size is exact. -/
theorem ExactIntegers.batchSize (h : ExactIntegers options stats) :
    options.batchSize.toNat ≤ 2 ^ 53 := h _ (by simp [integers])

/-- The end to end sample count is exact. -/
theorem ExactIntegers.endToEnd (h : ExactIntegers options stats) :
    stats.endToEnd.samples.toNat ≤ 2 ^ 53 := h _ (by simp [integers])

/-- The device sample count is exact. -/
theorem ExactIntegers.deviceCompute (h : ExactIntegers options stats) {d : LatencyDistribution}
    (hd : stats.deviceCompute = some d) : d.samples.toNat ≤ 2 ^ 53 :=
  h _ (by simp [integers, hd])

end

/-- The written numbers are checked one by one. -/
instance (options : RunOptions) (stats : InferenceStats) :
    Decidable (FiniteNumbers options stats) := inferInstanceAs (Decidable (∀ _ ∈ _, _))

/-- The written integers are checked one by one. -/
instance (options : RunOptions) (stats : InferenceStats) :
    Decidable (ExactIntegers options stats) := inferInstanceAs (Decidable (∀ _ ∈ _, _))

end MarketData
