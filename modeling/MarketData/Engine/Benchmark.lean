import MarketData.Engine.Summary

/-!
# Benchmark

`run_benchmark` of `src/benchmark.cpp`. An engine is any state machine that answers calls
and writes within the buffer it is given. Time is read from a clock that counts
nanoseconds and never goes back.
-/

namespace MarketData

open ByteText Cpp

/-- The answer to one call of `infer_into`, `include/marketdata_infer/engine.h:85–90`. -/
structure Inference (σ : Type) where
  ok : Bool
  output : List Single
  outputElements : UInt64
  engine : σ

/-- `class InferenceEngine`: what `run_benchmark` calls, with the default answers of the base
class. A call sees the input, the output buffer and the last reported element count. -/
structure InferenceEngine (σ : Type) where
  inferInto : σ → List Single → List Single → UInt64 → Inference σ
  inputElementsPerBatch : σ → UInt64
  outputElementsPerBatch : σ → UInt64
  backendName : σ → Bytes
  lastDeviceLatencyUs : σ → Option Double := fun _ ↦ none
  cudaGraphEnabled : σ → Bool := fun _ ↦ false
  runtimeMetadata : σ → RuntimeMetadata := fun _ ↦ {}
  length_output : ∀ s input output elements,
    (inferInto s input output elements).output.length = output.length

/-- `std::chrono::steady_clock`: the reading of every call of `now`, in nanoseconds, never earlier
than the one before. -/
structure SteadyClock where
  now : Nat → Nat
  monotone : Monotone now

/-- The engine with the output buffer and the element count it last reported. -/
structure Session (σ : Type) where
  engine : σ
  output : List Single
  outputElements : UInt64

variable {σ : Type} (engine : InferenceEngine σ)

/-- The session behind one call. -/
def Session.next (input : List Single) (s : Session σ) : Session σ :=
  let answer := engine.inferInto s.engine input s.output s.outputElements
  ⟨answer.engine, answer.output, answer.outputElements⟩

/-- One call, which throws when the engine refuses. -/
def infer (input : List Single) (what : Bytes) (s : Session σ) : Checked (Session σ) := do
  throwUnless ((engine.inferInto s.engine input s.output s.outputElements).ok = true) what
  .ok (s.next engine input)

/-- The latencies of the calls measured so far, and the session behind them. -/
structure Measurement (σ : Type) where
  session : Session σ
  endToEnd : List Double
  device : List Double

/-- `std::chrono::duration<double, std::micro>` of two readings: the time between them in
microseconds. -/
def elapsedUs (start stop : Nat) : Double :=
  Ieee.Number.ofNat (stop - start) / literal 1000

/-- One iteration of the measuring loop. Every iteration reads the clock twice. -/
def measure (clock : SteadyClock) (input : List Single) (m : Measurement σ) :
    Checked (Measurement σ) := do
  let start := clock.now (2 * m.endToEnd.length)
  let session ← infer engine input (ascii "Inference failed during benchmark") m.session
  let stop := clock.now (2 * m.endToEnd.length + 1)
  .ok {
    session
    endToEnd := m.endToEnd ++ [elapsedUs start stop]
    device := m.device ++ (engine.lastDeviceLatencyUs session.engine).toList }

/-- The value of one input element. -/
def inputElement (index : Nat) : Single := Ieee.Number.ofNat (index % 97) / Ieee.Number.ofNat 97

/-- The input of every call. -/
def benchmarkInput (totalInput : UInt64) : List Single :=
  (List.range totalInput.toNat).map inputElement

/-- The error of one output element. -/
def elementError (actual expected : Single) : Double :=
  Ieee.Number.abs (actual.convert Ieee.binary64 - expected.convert Ieee.binary64)

/-- The comparison of one output element with its input element. -/
def compareElement (tolerance : Double) (actual expected : Single) (v : OutputValidation) :
    OutputValidation :=
  let error := elementError actual expected
  { v with
    maxAbsError := maxOf v.maxAbsError error
    mismatches := if tolerance.lt error then v.mismatches + 1 else v.mismatches }

/-- One iteration of the validation loop. -/
def validateElement (input output : List Single) (tolerance : Double) (v : OutputValidation)
    (index : Nat) : Checked OutputValidation := do
  let actual ← element output index
  let expected ← element input index
  .ok (compareElement tolerance actual expected v)

/-- The validation of the last output. -/
def validateIdentity (totalInput : UInt64) (output : List Single) (outputElements : UInt64)
    (tolerance : Double) : Checked OutputValidation := do
  let compared := min totalInput outputElements
  let mismatches := if outputElements < totalInput then totalInput - outputElements
    else outputElements - totalInput
  let v ← (List.range compared.toNat).foldlM
    (validateElement (benchmarkInput totalInput) output tolerance)
    { comparedElements := compared, mismatches }
  .ok { v with passed := decide (v.mismatches = 0) }

/-- The input elements of one call. -/
def RunOptions.totalInput (options : RunOptions) : UInt64 := options.inputSize * options.batchSize

/-- The elements of the output buffer: as many as the engine declares, else as the input has. -/
def outputCapacity (options : RunOptions) (s : σ) : UInt64 :=
  if engine.outputElementsPerBatch s = 0 then options.totalInput
  else engine.outputElementsPerBatch s

/-- The session before the first call. -/
def firstSession (options : RunOptions) (s : σ) : Session σ :=
  ⟨s, List.replicate (outputCapacity engine options s).toNat 0, 0⟩

/-- The measured time in seconds. -/
def totalSeconds (endToEnd : LatencyDistribution) : Double :=
  endToEnd.meanUs * doubleOf endToEnd.samples / literal (10 ^ 6)

/-- A rate, which stays zero when no time was measured. -/
def throughput (amount seconds : Double) : Double :=
  if Ieee.Number.zero.lt seconds then amount / seconds else 0

/-- The checks before the first call. -/
def checkRun (options : RunOptions) (s : σ) : Checked Unit := do
  throwUnless (¬ (options.inputSize = 0 ∨ options.batchSize = 0 ∨ options.iterations = 0))
    (ascii "Input size, batch size, and iterations must be greater than zero")
  throwUnless (¬ UInt64.ofNat (2 ^ 64 - 1) / options.batchSize < options.inputSize)
    (ascii "Input size multiplied by batch size overflows size_t")
  throwUnless (¬ (engine.inputElementsPerBatch s ≠ 0 ∧
    options.totalInput ≠ engine.inputElementsPerBatch s))
    (ascii "Input element count must exactly match the fixed TensorRT input shape")
  throwUnless (outputCapacity engine options s ≠ 0) (ascii "Engine reported zero output capacity")

/-- The calls of a run: warmup, then the measured iterations. -/
def runCalls (clock : SteadyClock) (options : RunOptions) (s : σ) : Checked (Measurement σ) := do
  let input := benchmarkInput options.totalInput
  let session ← repeatTimes (infer engine input (ascii "Warmup inference failed"))
    options.warmup.toNat (firstSession engine options s)
  repeatTimes (measure engine clock input) options.iterations.toNat ⟨session, [], []⟩

/-- The summary of the device latencies, when the engine reported any. -/
def summarizeDevice (latencies : List Double) : Checked (Option LatencyDistribution) :=
  if latencies.isEmpty then .ok none else some <$> summarize latencies

/-- The validation, when the options ask for it. -/
def validateRun (options : RunOptions) (session : Session σ) : Checked (Option OutputValidation) :=
  if options.verifyIdentity then
    some <$> validateIdentity options.totalInput session.output session.outputElements
      options.validationTolerance
  else .ok none

/-- `run_benchmark`, `src/benchmark.cpp:110–200`: the checks of the sizes, the warmup and the
measured calls, their statistics and the validation of the last output. -/
def runBenchmark (clock : SteadyClock) (options : RunOptions) (s : σ) :
    Checked InferenceStats := do
  checkRun engine options s
  let m ← runCalls engine clock options s
  let endToEnd ← summarize m.endToEnd
  let deviceCompute ← summarizeDevice m.device
  let validation ← validateRun options m.session
  let seconds := totalSeconds endToEnd
  let state := m.session.engine
  .ok {
    endToEnd
    deviceCompute
    validation
    cudaGraph := engine.cudaGraphEnabled state
    runtime := engine.runtimeMetadata state
    throughputInferencesPerSecond := throughput (doubleOf endToEnd.samples) seconds
    throughputSamplesPerSecond :=
      throughput (doubleOf endToEnd.samples * doubleOf options.batchSize) seconds
    inputElementsPerBatch := options.totalInput
    backend := engine.backendName state }

/-! ### Runs that return -/

/-- What is behind the statistics of a run: it passes its checks, makes all its calls, and
summarizes what they measured. -/
structure Returned (clock : SteadyClock) (options : RunOptions) (s : σ) (m : Measurement σ)
    (stats : InferenceStats) : Prop where
  checked : checkRun engine options s = .ok ()
  calls : runCalls engine clock options s = .ok m
  endToEnd : summarize m.endToEnd = .ok stats.endToEnd
  deviceCompute : summarizeDevice m.device = .ok stats.deviceCompute
  validation : validateRun options m.session = .ok stats.validation
  inferences : stats.throughputInferencesPerSecond =
    throughput (doubleOf stats.endToEnd.samples) (totalSeconds stats.endToEnd)
  samples : stats.throughputSamplesPerSecond =
    throughput (doubleOf stats.endToEnd.samples * doubleOf options.batchSize)
      (totalSeconds stats.endToEnd)
  cudaGraph : stats.cudaGraph = engine.cudaGraphEnabled m.session.engine
  backend : stats.backend = engine.backendName m.session.engine

/-- What is behind the statistics of a benchmark that returns. -/
theorem exists_returned {engine : InferenceEngine σ} {clock : SteadyClock}
    {options : RunOptions} {s : σ} {stats : InferenceStats}
    (h : runBenchmark engine clock options s = .ok stats) :
    ∃ m, Returned engine clock options s m stats := by
  obtain ⟨_, hcheck, hcalls⟩ := bind_eq_ok.mp h
  obtain ⟨m, hm, hsummary⟩ := bind_eq_ok.mp hcalls
  obtain ⟨endToEnd, hend, hdevice⟩ := bind_eq_ok.mp hsummary
  obtain ⟨deviceCompute, hcompute, hvalidation⟩ := bind_eq_ok.mp hdevice
  obtain ⟨validation, hv, hstats⟩ := bind_eq_ok.mp hvalidation
  obtain rfl := Except.ok.inj hstats
  exact ⟨m, hcheck, hm, hend, hcompute, hv, rfl, rfl, rfl, rfl⟩

end MarketData
