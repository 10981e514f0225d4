import MarketData.Base.Arithmetic

/-!
# Options and statistics of a benchmark run

`include/marketdata_infer/engine.h`: the records that the driver, the benchmark and the
metrics writer share, with their default values. A `size_t` is a 64-bit word.
-/

namespace MarketData

open ByteText Cpp

/-- `enum class BackendHint`, `include/marketdata_infer/engine.h:11–15`: which backend the caller
prefers. -/
inductive BackendHint where
  | auto
  | tensorRT
  | mock
deriving DecidableEq

/-- `enum class LatencyScope`, `include/marketdata_infer/engine.h:17–20`: which latency the
objective is about. -/
inductive LatencyScope where
  | endToEnd
  | deviceCompute
deriving DecidableEq

/-- The literal `1e-6`. -/
def oneMillionth : Double := .round Ieee.binary64 false (1 / 10 ^ 6)

/-- `struct RunOptions`, `include/marketdata_infer/engine.h:22–38`: what a benchmark is asked to
do. -/
structure RunOptions where
  modelPath : Bytes := ascii "mock"
  inputSize : UInt64 := 512
  batchSize : UInt64 := 1
  iterations : UInt64 := 200
  warmup : UInt64 := 20
  targetLatencyUs : Double := .zero
  metricsPath : Bytes := []
  backend : BackendHint := .auto
  targetScope : LatencyScope := .endToEnd
  allowMockFallback : Bool := false
  fallbackUsed : Bool := false
  verifyIdentity : Bool := false
  useCudaGraph : Bool := false
  validationTolerance : Double := oneMillionth
  requestedBackend : Bytes := ascii "auto"

/-- `struct LatencyDistribution`, `include/marketdata_infer/engine.h:40–50`, over the type of its
numbers: the statistics of the measured latencies. -/
structure LatencyDistribution (α : Type := Double) [Zero α] where
  samples : UInt64 := 0
  meanUs : α := 0
  minUs : α := 0
  p50Us : α := 0
  p90Us : α := 0
  p95Us : α := 0
  p99Us : α := 0
  maxUs : α := 0
  stddevUs : α := 0

/-- `struct OutputValidation`, `include/marketdata_infer/engine.h:52–57`: what the comparison of
the output with the input found. -/
structure OutputValidation where
  passed : Bool := false
  comparedElements : UInt64 := 0
  mismatches : UInt64 := 0
  maxAbsError : Double := .zero

/-- `struct RuntimeMetadata`, `include/marketdata_infer/engine.h:59–66`: the backend and the
device that a run had. -/
structure RuntimeMetadata where
  backendVersion : Bytes := []
  deviceName : Bytes := []
  computeCapability : Bytes := []
  cudaRuntimeVersion : Bytes := []
  cudaDriverVersion : Bytes := []
  deviceMemoryBytes : UInt64 := 0

/-- `struct InferenceStats`, `include/marketdata_infer/engine.h:68–78`: the result of a benchmark.
-/
structure InferenceStats where
  endToEnd : LatencyDistribution := {}
  deviceCompute : Option LatencyDistribution := none
  validation : Option OutputValidation := none
  cudaGraph : Bool := false
  runtime : RuntimeMetadata := {}
  throughputInferencesPerSecond : Double := .zero
  throughputSamplesPerSecond : Double := .zero
  inputElementsPerBatch : UInt64 := 0
  backend : Bytes := []

/-- The compile-time macros `MD_PROJECT_VERSION` and `MD_BUILD_REVISION`. -/
structure Build where
  version : Bytes := ascii "unknown"
  revision : Bytes := ascii "unknown"

/-! ### A short run -/

/-- Four latencies of equal length. -/
def sampleDistribution (us : UInt64) : LatencyDistribution where
  samples := 4
  meanUs := doubleOf us
  minUs := doubleOf us
  p50Us := doubleOf us
  p90Us := doubleOf us
  p95Us := doubleOf us
  p99Us := doubleOf us
  maxUs := doubleOf us

/-- Statistics of a short run with a device distribution and a validation. -/
def sampleStats : InferenceStats where
  endToEnd := sampleDistribution 3
  deviceCompute := some (sampleDistribution 1)
  validation := some { passed := true }
  runtime := { deviceName := ascii "gpu \"0\"" }
  backend := ascii "tensorrt-gpu"

end MarketData
