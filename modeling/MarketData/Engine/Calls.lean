import MarketData.Base.Logged
import MarketData.Engine.Benchmark

/-!
# The calls of a run

`run_benchmark` once more, with a record of the calls of `infer_into`: which calls are made before
it returns or throws, and what the latencies that it summarizes were measured around.
-/

namespace MarketData

open ByteText Cpp

variable {σ : Type} (engine : InferenceEngine σ) (clock : SteadyClock) (options : RunOptions)
  (s : σ)

/-! ### The recorded run -/

/-- One call, recorded as the session that it is made in. -/
def recordedInfer (input : List Single) (what : Bytes) (session : Session σ) :
    Logged (Session σ) (Session σ) :=
  ⟨[session], infer engine input what session⟩

/-- One iteration of the measuring loop. -/
def recordedMeasure (input : List Single) (m : Measurement σ) :
    Logged (Session σ) (Measurement σ) := do
  let start := clock.now (2 * m.endToEnd.length)
  let session ← recordedInfer engine input (ascii "Inference failed during benchmark") m.session
  let stop := clock.now (2 * m.endToEnd.length + 1)
  .silent (.ok {
    session
    endToEnd := m.endToEnd ++ [elapsedUs start stop]
    device := m.device ++ (engine.lastDeviceLatencyUs session.engine).toList })

/-- The calls of a run. -/
def recordedCalls : Logged (Session σ) (Measurement σ) := do
  let input := benchmarkInput options.totalInput
  let session ← Logged.repeatTimes (recordedInfer engine input (ascii "Warmup inference failed"))
    options.warmup.toNat (firstSession engine options s)
  Logged.repeatTimes (recordedMeasure engine clock input) options.iterations.toNat ⟨session, [], []⟩

/-- `run_benchmark`, `src/benchmark.cpp:110–200`, with a log of the calls that it makes. -/
def recordedBenchmark : Logged (Session σ) InferenceStats := do
  .silent (checkRun engine options s)
  let m ← recordedCalls engine clock options s
  let endToEnd ← .silent (summarize m.endToEnd)
  let deviceCompute ← .silent (summarizeDevice m.device)
  let validation ← .silent (validateRun options m.session)
  let seconds := totalSeconds endToEnd
  let state := m.session.engine
  .silent (.ok {
    endToEnd
    deviceCompute
    validation
    cudaGraph := engine.cudaGraphEnabled state
    runtime := engine.runtimeMetadata state
    throughputInferencesPerSecond := throughput (doubleOf endToEnd.samples) seconds
    throughputSamplesPerSecond :=
      throughput (doubleOf endToEnd.samples * doubleOf options.batchSize) seconds
    inputElementsPerBatch := options.totalInput
    backend := engine.backendName state })

private theorem result_recordedMeasure (input : List Single) (m : Measurement σ) :
    (recordedMeasure engine clock input m).result = measure engine clock input m := by
  simp only [recordedMeasure, Logged.result_bind]
  rfl

private theorem result_recordedCalls :
    (recordedCalls engine clock options s).result = runCalls engine clock options s := by
  simp only [recordedCalls, Logged.result_bind, Logged.result_repeatTimes, result_recordedMeasure]
  rfl

/-- The record does not change the run. -/
theorem result_recordedBenchmark :
    (recordedBenchmark engine clock options s).result = runBenchmark engine clock options s := by
  simp only [recordedBenchmark, Logged.result_bind, Logged.result_silent, result_recordedCalls]
  rfl

/-! ### Sessions -/

/-- The session in which a call of the run is made. -/
def sessionOf (call : Nat) : Session σ :=
  (Session.next engine (benchmarkInput options.totalInput))^[call] (firstSession engine options s)

/-- The engine accepts a call. -/
def accepts (input : List Single) (session : Session σ) : Bool :=
  (engine.inferInto session.engine input session.output session.outputElements).ok

/-- A call of the run succeeds. -/
def succeeds (call : Nat) : Bool :=
  accepts engine (benchmarkInput options.totalInput) (sessionOf engine options s call)

/-- The measured times: each call between two readings of the clock. -/
def measuredTimes (calls : Nat) : List Double :=
  (List.range calls).map fun call ↦ elapsedUs (clock.now (2 * call)) (clock.now (2 * call + 1))

/-- The latencies that the engine reports after some calls in a row. -/
def latenciesFrom (input : List Single) (session : Session σ) (calls : Nat) : List Double :=
  (List.range calls).filterMap fun call ↦
    engine.lastDeviceLatencyUs ((Session.next engine input)^[call + 1] session).engine

/-- The latencies that the engine reports after the measured calls. -/
def reportedLatencies : List Double :=
  latenciesFrom engine (benchmarkInput options.totalInput)
    (sessionOf engine options s options.warmup.toNat) options.iterations.toNat

/-- The measurement behind one more call. -/
def Measurement.next (input : List Single) (m : Measurement σ) : Measurement σ :=
  let session := m.session.next engine input
  { session
    endToEnd := m.endToEnd ++ [elapsedUs (clock.now (2 * m.endToEnd.length))
      (clock.now (2 * m.endToEnd.length + 1))]
    device := m.device ++ (engine.lastDeviceLatencyUs session.engine).toList }

private theorem iterate_next (input : List Single) (session : Session σ) (calls : Nat) :
    (Measurement.next engine clock input)^[calls] ⟨session, [], []⟩ =
      ⟨(Session.next engine input)^[calls] session, measuredTimes clock calls,
        latenciesFrom engine input session calls⟩ := by
  induction calls with
  | zero => rfl
  | succ calls ih =>
    have htimes : measuredTimes clock (calls + 1) = measuredTimes clock calls ++
        [elapsedUs (clock.now (2 * calls)) (clock.now (2 * calls + 1))] := by
      rw [measuredTimes, List.range_succ, List.map_append]
      rfl
    have hlength : (measuredTimes clock calls).length = calls := by simp [measuredTimes]
    have hlatencies : latenciesFrom engine input session (calls + 1) =
        latenciesFrom engine input session calls ++ (engine.lastDeviceLatencyUs
          ((Session.next engine input)^[calls + 1] session).engine).toList := by
      rw [latenciesFrom, List.range_succ, List.filterMap_append, List.filterMap_cons]
      cases engine.lastDeviceLatencyUs ((Session.next engine input)^[calls + 1] session).engine <;>
        rfl
    rw [Function.iterate_succ_apply', ih, htimes, hlatencies, Function.iterate_succ_apply',
      Measurement.next, hlength]

/-! ### The two loops -/

private theorem steps_recordedInfer (input : List Single) (what : Bytes) :
    Logged.Steps (recordedInfer engine input what) id (accepts engine input)
      (Session.next engine input) (.exception what) where
  log _ := rfl
  result session := by
    rw [recordedInfer, infer, throwUnless]
    cases h : accepts engine input session with
    | true =>
      rw [accepts] at h
      rw [if_pos h]
      rfl
    | false =>
      rw [accepts] at h
      rw [if_neg (by rw [h]; exact Bool.false_ne_true)]
      rfl

private theorem steps_recordedMeasure (input : List Single) :
    Logged.Steps (recordedMeasure engine clock input) Measurement.session
      (fun m ↦ accepts engine input m.session) (Measurement.next engine clock input)
      (.exception (ascii "Inference failed during benchmark")) := by
  have hinfer := steps_recordedInfer engine input (ascii "Inference failed during benchmark")
  have hmeasure : ∀ m, recordedMeasure engine clock input m = ⟨[m.session],
      if accepts engine input m.session then .ok (m.next engine clock input)
      else .error (.exception (ascii "Inference failed during benchmark"))⟩ := by
    intro m
    have hresult := hinfer.result m.session
    cases h : accepts engine input m.session with
    | true =>
      rw [h] at hresult
      rw [recordedMeasure, Logged.bind_of_ok _ hresult]
      rfl
    | false =>
      rw [h] at hresult
      rw [recordedMeasure, Logged.bind_of_error _ hresult]
      rfl
  constructor
  · intro m
    rw [hmeasure]
  · intro m
    rw [hmeasure]

/-- What a failed call of the run throws. -/
def failureText (call : Nat) : Bytes :=
  if call < options.warmup.toNat then ascii "Warmup inference failed"
  else ascii "Inference failed during benchmark"

/-- The calls that the run makes when none fails. -/
def callCount : Nat := options.warmup.toNat + options.iterations.toNat

private theorem sessionOf_add (call later : Nat) :
    (Session.next engine (benchmarkInput options.totalInput))^[later]
        (sessionOf engine options s call) = sessionOf engine options s (call + later) := by
  rw [sessionOf, sessionOf, ← Function.iterate_add_apply, Nat.add_comm]

private theorem map_range_add {α : Type} (f : Nat → α) (a b : Nat) :
    (List.range a).map f ++ (List.range b).map (fun j ↦ f (a + j)) =
      (List.range (a + b)).map f := by
  rw [List.range_add, List.map_append, List.map_map]
  rfl

private theorem forall_lt_add {p : Nat → Prop} {a b : Nat} (ha : ∀ j < a, p j)
    (hb : ∀ j < b, p (a + j)) (j : Nat) (hj : j < a + b) : p j := by
  by_cases h : j < a
  · exact ha j h
  · have := hb (j - a) (by omega)
    rwa [Nat.add_sub_cancel' (by omega)] at this

private theorem warmup_eq :
    ((∀ call < options.warmup.toNat, succeeds engine options s call = true) ∧
      Logged.repeatTimes (recordedInfer engine (benchmarkInput options.totalInput)
          (ascii "Warmup inference failed")) options.warmup.toNat (firstSession engine options s) =
        ⟨(List.range options.warmup.toNat).map (sessionOf engine options s),
          .ok (sessionOf engine options s options.warmup.toNat)⟩) ∨
    ∃ last < options.warmup.toNat, (∀ call < last, succeeds engine options s call = true) ∧
      succeeds engine options s last = false ∧
      Logged.repeatTimes (recordedInfer engine (benchmarkInput options.totalInput)
          (ascii "Warmup inference failed")) options.warmup.toNat (firstSession engine options s) =
        ⟨(List.range (last + 1)).map (sessionOf engine options s),
          .error (.exception (ascii "Warmup inference failed"))⟩ :=
  Logged.repeatTimes_of_steps (steps_recordedInfer engine _ _) _ _

private theorem measuring_eq :
    ((∀ call < options.iterations.toNat,
        succeeds engine options s (options.warmup.toNat + call) = true) ∧
      Logged.repeatTimes (recordedMeasure engine clock (benchmarkInput options.totalInput))
          options.iterations.toNat ⟨sessionOf engine options s options.warmup.toNat, [], []⟩ =
        ⟨(List.range options.iterations.toNat).map
            fun call ↦ sessionOf engine options s (options.warmup.toNat + call),
          .ok ⟨sessionOf engine options s (callCount options),
            measuredTimes clock options.iterations.toNat, reportedLatencies engine options s⟩⟩) ∨
    ∃ last < options.iterations.toNat,
      (∀ call < last, succeeds engine options s (options.warmup.toNat + call) = true) ∧
      succeeds engine options s (options.warmup.toNat + last) = false ∧
      Logged.repeatTimes (recordedMeasure engine clock (benchmarkInput options.totalInput))
          options.iterations.toNat ⟨sessionOf engine options s options.warmup.toNat, [], []⟩ =
        ⟨(List.range (last + 1)).map
            fun call ↦ sessionOf engine options s (options.warmup.toNat + call),
          .error (.exception (ascii "Inference failed during benchmark"))⟩ := by
  have hsession : ∀ call,
      ((Measurement.next engine clock (benchmarkInput options.totalInput))^[call]
        ⟨sessionOf engine options s options.warmup.toNat, [], []⟩).session =
          sessionOf engine options s (options.warmup.toNat + call) := by
    intro call
    rw [iterate_next]
    exact sessionOf_add engine options s _ call
  have hloop := Logged.repeatTimes_of_steps
    (steps_recordedMeasure engine clock (benchmarkInput options.totalInput))
    options.iterations.toNat ⟨sessionOf engine options s options.warmup.toNat, [], []⟩
  simp only [hsession] at hloop
  rw [iterate_next, sessionOf_add] at hloop
  exact hloop

/-- The calls of a run end with the first that fails, or when all are made. -/
theorem recordedCalls_eq :
    ((∀ call < callCount options, succeeds engine options s call = true) ∧
      recordedCalls engine clock options s =
        ⟨(List.range (callCount options)).map (sessionOf engine options s),
          .ok ⟨sessionOf engine options s (callCount options),
            measuredTimes clock options.iterations.toNat, reportedLatencies engine options s⟩⟩) ∨
    ∃ last < callCount options, (∀ call < last, succeeds engine options s call = true) ∧
      succeeds engine options s last = false ∧
      recordedCalls engine clock options s =
        ⟨(List.range (last + 1)).map (sessionOf engine options s),
          .error (.exception (failureText options last))⟩ := by
  rcases warmup_eq engine options s with ⟨hwarm, hrun⟩ | ⟨last, hlast, hbefore, hfails, hrun⟩
  · rw [recordedCalls, Logged.bind_of_ok _ (congrArg Logged.result hrun), hrun]
    rcases measuring_eq engine clock options s with
      ⟨hall, hrun'⟩ | ⟨last, hlast, hbefore, hfails, hrun'⟩
    · refine .inl ⟨forall_lt_add hwarm hall, ?_⟩
      rw [hrun', map_range_add, callCount]
    · refine .inr ⟨options.warmup.toNat + last, by rw [callCount]; omega,
        forall_lt_add hwarm hbefore, hfails, ?_⟩
      rw [hrun', map_range_add, failureText, if_neg (by omega), Nat.add_assoc]
  · refine .inr ⟨last, by rw [callCount]; omega, hbefore, hfails, ?_⟩
    rw [recordedCalls, Logged.bind_of_error _ (congrArg Logged.result hrun), hrun, failureText,
      if_pos hlast]

/-- A run that finishes its calls has made all of them with success. -/
theorem runCalls_all {m : Measurement σ} (h : runCalls engine clock options s = .ok m) :
    (∀ call < callCount options, succeeds engine options s call = true) ∧
      m.session = sessionOf engine options s (callCount options) := by
  rw [← result_recordedCalls] at h
  rcases recordedCalls_eq engine clock options s with ⟨hall, hrun⟩ | ⟨last, -, -, -, hrun⟩
  · rw [hrun] at h
    obtain rfl := Except.ok.inj h
    exact ⟨hall, rfl⟩
  · rw [hrun] at h
    cases h

/-! ### The checks -/

/-- The input elements of one call, as a natural number. -/
def elementCount : Nat := options.inputSize.toNat * options.batchSize.toNat

/-- The run is refused: a size is zero, the element count is no `size_t`, or the engine expects
another. -/
def Rejected : Prop :=
  (options.inputSize = 0 ∨ options.batchSize = 0 ∨ options.iterations = 0) ∨
    2 ^ 64 ≤ elementCount options ∨
    engine.inputElementsPerBatch s ≠ 0 ∧
      (engine.inputElementsPerBatch s).toNat ≠ elementCount options

/-- What a refused run throws. -/
def rejectionText : Bytes :=
  if options.inputSize = 0 ∨ options.batchSize = 0 ∨ options.iterations = 0 then
    ascii "Input size, batch size, and iterations must be greater than zero"
  else if 2 ^ 64 ≤ elementCount options then
    ascii "Input size multiplied by batch size overflows size_t"
  else ascii "Input element count must exactly match the fixed TensorRT input shape"

section

variable {options}

private theorem batch_pos
    (h : ¬ (options.inputSize = 0 ∨ options.batchSize = 0 ∨ options.iterations = 0)) :
    0 < options.batchSize.toNat :=
  Nat.pos_of_ne_zero fun hb ↦ h (.inr (.inl (UInt64.toNat_inj.mp hb)))

private theorem toNat_totalInput (h : elementCount options < 2 ^ 64) :
    options.totalInput.toNat = elementCount options := by
  rw [RunOptions.totalInput, UInt64.toNat_mul, ← elementCount, Nat.mod_eq_of_lt h]

private theorem outputCapacity_ne_zero (hinput : options.inputSize ≠ 0)
    (hbatch : options.batchSize ≠ 0) (h : elementCount options < 2 ^ 64) :
    outputCapacity engine options s ≠ 0 := by
  unfold outputCapacity
  split
  · intro hzero
    have htotal := toNat_totalInput h
    rw [hzero, elementCount, eq_comm, UInt64.toNat_zero, Nat.mul_eq_zero] at htotal
    rcases htotal with hzero | hzero
    · exact hinput (UInt64.toNat_inj.mp hzero)
    · exact hbatch (UInt64.toNat_inj.mp hzero)
  · assumption

end

private theorem checkRun_of_rejected (h : Rejected engine options s) :
    checkRun engine options s = .error (.exception (rejectionText options)) := by
  rw [checkRun, rejectionText]
  by_cases hzero : options.inputSize = 0 ∨ options.batchSize = 0 ∨ options.iterations = 0
  · rw [throwUnless, if_neg (not_not.mpr hzero), if_pos hzero]
    rfl
  · have hguard := product_overflows_iff (a := options.inputSize) (batch_pos hzero)
    rw [throwUnless, if_pos hzero, if_neg hzero, ok_bind]
    by_cases hoverflow : 2 ^ 64 ≤ elementCount options
    · rw [throwUnless, if_neg (not_not.mpr (hguard.mpr hoverflow)),
        if_pos hoverflow]
      rfl
    · have hmismatch : engine.inputElementsPerBatch s ≠ 0 ∧
          options.totalInput ≠ engine.inputElementsPerBatch s := by
        obtain ⟨hne, hother⟩ := (h.resolve_left hzero).resolve_left hoverflow
        refine ⟨hne, fun heq ↦ hother ?_⟩
        rw [← heq, toNat_totalInput (not_le.mp hoverflow)]
      rw [throwUnless, if_pos fun hlt ↦ hoverflow (hguard.mp hlt), ok_bind,
        throwUnless, if_neg (not_not.mpr hmismatch), if_neg hoverflow]
      rfl

private theorem checkRun_of_not_rejected (h : ¬ Rejected engine options s) :
    checkRun engine options s = .ok () := by
  obtain ⟨hzero, h⟩ := not_or.mp h
  obtain ⟨hoverflow, hmatch⟩ := not_or.mp h
  have hguard := product_overflows_iff (a := options.inputSize) (batch_pos hzero)
  have hcapacity : outputCapacity engine options s ≠ 0 :=
    outputCapacity_ne_zero engine s (fun hi ↦ hzero (.inl hi)) (fun hb ↦ hzero (.inr (.inl hb)))
      (not_le.mp hoverflow)
  have hmatch' : ¬ (engine.inputElementsPerBatch s ≠ 0 ∧
      options.totalInput ≠ engine.inputElementsPerBatch s) := by
    rintro ⟨hne, hother⟩
    refine hmatch ⟨hne, fun heq ↦ hother (UInt64.toNat_inj.mp ?_)⟩
    rw [toNat_totalInput (not_le.mp hoverflow), heq]
  rw [checkRun, throwUnless, if_pos hzero, ok_bind, throwUnless,
    if_pos fun hlt ↦ hoverflow (hguard.mp hlt), ok_bind, throwUnless,
    if_pos hmatch', ok_bind, throwUnless, if_pos hcapacity]

/-- The checks pass exactly when the run is not refused. -/
theorem checkRun_eq_ok : checkRun engine options s = .ok () ↔ ¬ Rejected engine options s := by
  refine ⟨fun h hrejected ↦ ?_, checkRun_of_not_rejected engine options s⟩
  rw [checkRun_of_rejected engine options s hrejected] at h
  cases h

/-! ### The law of a run -/

/-- The calls and the statistics of a run: a refused run makes no call, a run with a failing call
throws right behind it, and the distributions of a run that returns summarize the times and the
reported latencies of the measured calls alone. -/
structure TraceLaw (run : Logged (Session σ) InferenceStats) : Prop where
  rejected : Rejected engine options s → run = ⟨[], .error (.exception (rejectionText options))⟩
  failed : ¬ Rejected engine options s → ∀ last < callCount options,
    (∀ call < last, succeeds engine options s call = true) →
    succeeds engine options s last = false →
      run = ⟨(List.range (last + 1)).map (sessionOf engine options s),
        .error (.exception (failureText options last))⟩
  finished : ¬ Rejected engine options s →
    (∀ call < callCount options, succeeds engine options s call = true) →
      run.log = (List.range (callCount options)).map (sessionOf engine options s)
  endToEnd : ∀ stats, run.result = .ok stats →
    summarize (measuredTimes clock options.iterations.toNat) = .ok stats.endToEnd ∧
      stats.endToEnd.samples = options.iterations
  deviceCompute : ∀ stats, run.result = .ok stats →
    (reportedLatencies engine options s = [] → stats.deviceCompute = none) ∧
    (reportedLatencies engine options s ≠ [] → ∃ d, stats.deviceCompute = some d ∧
      summarize (reportedLatencies engine options s) = .ok d ∧ d.samples ≤ options.iterations)

private theorem log_recordedBenchmark (h : checkRun engine options s = .ok ()) :
    (recordedBenchmark engine clock options s).log =
      (recordedCalls engine clock options s).log := by
  have hcheck : (Logged.silent (checkRun engine options s) : Logged (Session σ) Unit).result =
      .ok () := h
  rw [recordedBenchmark, Logged.bind_of_ok _ hcheck, Logged.log_silent, List.nil_append]
  refine Logged.log_bind_of_silent _ fun m ↦ ?_
  refine (Logged.log_bind_of_silent _ fun endToEnd ↦ ?_).trans rfl
  refine (Logged.log_bind_of_silent _ fun deviceCompute ↦ ?_).trans rfl
  exact (Logged.log_bind_of_silent _ fun validation ↦ rfl).trans rfl

private theorem recordedBenchmark_of_error {e : Failure}
    (hcheck : checkRun engine options s = .ok ())
    (h : (recordedCalls engine clock options s).result = .error e) :
    recordedBenchmark engine clock options s =
      ⟨(recordedCalls engine clock options s).log, .error e⟩ := by
  have hcheck : (Logged.silent (checkRun engine options s) : Logged (Session σ) Unit).result =
      .ok () := hcheck
  rw [recordedBenchmark, Logged.bind_of_ok _ hcheck, Logged.bind_of_error _ h]
  rfl

/-- The statistics of a run that returns are those of all its calls. -/
theorem statistics_eq {stats : InferenceStats}
    (h : runBenchmark engine clock options s = .ok stats) :
    options.iterations ≠ 0 ∧
      summarize (measuredTimes clock options.iterations.toNat) = .ok stats.endToEnd ∧
      summarizeDevice (reportedLatencies engine options s) = .ok stats.deviceCompute := by
  obtain ⟨m, hm, hend, hcompute, hzero⟩ : ∃ m, runCalls engine clock options s = .ok m ∧
      summarize m.endToEnd = .ok stats.endToEnd ∧
      summarizeDevice m.device = .ok stats.deviceCompute ∧ options.iterations ≠ 0 := by
    obtain ⟨m, h⟩ := exists_returned h
    have hzero := (checkRun_eq_ok engine options s).mp h.checked
    exact ⟨m, h.calls, h.endToEnd, h.deviceCompute, fun hi ↦ hzero (.inl (.inr (.inr hi)))⟩
  rw [← result_recordedCalls] at hm
  rcases recordedCalls_eq engine clock options s with ⟨-, hrun⟩ | ⟨last, -, -, -, hrun⟩
  · rw [hrun] at hm
    obtain rfl := Except.ok.inj hm
    exact ⟨hzero, hend, hcompute⟩
  · rw [hrun] at hm
    cases hm

private theorem run_of_rejected (h : Rejected engine options s) :
    recordedBenchmark engine clock options s =
      ⟨[], .error (.exception (rejectionText options))⟩ := by
  have hcheck : (Logged.silent (checkRun engine options s) : Logged (Session σ) Unit).result =
      .error (.exception (rejectionText options)) := checkRun_of_rejected engine options s h
  rw [recordedBenchmark, Logged.bind_of_error _ hcheck]
  rfl

private theorem run_of_failure (h : ¬ Rejected engine options s) {last : Nat}
    (hlast : last < callCount options)
    (hbefore : ∀ call < last, succeeds engine options s call = true)
    (hfails : succeeds engine options s last = false) :
    recordedBenchmark engine clock options s =
      ⟨(List.range (last + 1)).map (sessionOf engine options s),
        .error (.exception (failureText options last))⟩ := by
  rcases recordedCalls_eq engine clock options s with
    ⟨hall, -⟩ | ⟨last', -, hbefore', hfails', hrun⟩
  · rw [hall last hlast] at hfails
    cases hfails
  -- There is only one first failure.
  have hsame : last' = last := by
    rcases Nat.lt_trichotomy last' last with hlt | heq | hlt
    · rw [hbefore last' hlt] at hfails'
      cases hfails'
    · exact heq
    · rw [hbefore' last hlt] at hfails
      cases hfails
  subst hsame
  rw [recordedBenchmark_of_error engine clock options s
    (checkRun_of_not_rejected engine options s h) (congrArg Logged.result hrun), hrun]

private theorem log_of_finished (h : ¬ Rejected engine options s)
    (hall : ∀ call < callCount options, succeeds engine options s call = true) :
    (recordedBenchmark engine clock options s).log =
      (List.range (callCount options)).map (sessionOf engine options s) := by
  rw [log_recordedBenchmark engine clock options s (checkRun_of_not_rejected engine options s h)]
  rcases recordedCalls_eq engine clock options s with ⟨-, hrun⟩ | ⟨last, hlast, -, hfails, -⟩
  · rw [hrun]
  · rw [hall last hlast] at hfails
    cases hfails

private theorem samples_measuredTimes {d : LatencyDistribution} (h : options.iterations ≠ 0)
    (hd : summarize (measuredTimes clock options.iterations.toNat) = .ok d) :
    d.samples = options.iterations := by
  have hlength : (measuredTimes clock options.iterations.toNat).length =
      options.iterations.toNat := by simp [measuredTimes]
  have hne : measuredTimes clock options.iterations.toNat ≠ [] := by
    intro hnil
    rw [hnil] at hlength
    exact h (UInt64.toNat_inj.mp hlength.symm)
  obtain ⟨-, -, hsamples, -⟩ := summarize_eq_ok hne hd
  rw [hsamples, hlength, UInt64.ofNat_toNat]

private theorem samples_reportedLatencies {d : LatencyDistribution}
    (hne : reportedLatencies engine options s ≠ [])
    (hd : summarize (reportedLatencies engine options s) = .ok d) :
    d.samples ≤ options.iterations := by
  obtain ⟨-, -, hsamples, -⟩ := summarize_eq_ok hne hd
  have hle : (reportedLatencies engine options s).length ≤ options.iterations.toNat :=
    (List.length_filterMap_le _ _).trans List.length_range.le
  rw [hsamples, UInt64.le_iff_toNat_le, UInt64.toNat_ofNat',
    Nat.mod_eq_of_lt (hle.trans_lt options.iterations.toNat_lt)]
  exact hle

/-- Every run obeys the law, for every engine, clock and choice of options. -/
theorem benchmark_trace :
    (recordedBenchmark engine clock options s).result = runBenchmark engine clock options s ∧
      TraceLaw engine clock options s (recordedBenchmark engine clock options s) := by
  have hresult := result_recordedBenchmark engine clock options s
  refine ⟨hresult, {
    rejected := run_of_rejected engine clock options s
    failed := fun h _ hlast hbefore hfails ↦
      run_of_failure engine clock options s h hlast hbefore hfails
    finished := log_of_finished engine clock options s
    endToEnd := fun stats hstats ↦ ?_
    deviceCompute := fun stats hstats ↦ ?_ }⟩
  · obtain ⟨hiterations, hend, -⟩ := statistics_eq engine clock options s (hresult ▸ hstats)
    exact ⟨hend, samples_measuredTimes clock options hiterations hend⟩
  · obtain ⟨-, -, hdevice⟩ := statistics_eq engine clock options s (hresult ▸ hstats)
    constructor
    · intro hnil
      rw [hnil] at hdevice
      exact (Except.ok.inj hdevice).symm
    · intro hne
      rw [summarizeDevice, if_neg (by simpa using hne)] at hdevice
      obtain ⟨d, hd, hsome⟩ := map_eq_ok.mp hdevice
      exact ⟨d, hsome.symm, hd, samples_reportedLatencies engine options s hne hd⟩

end MarketData
