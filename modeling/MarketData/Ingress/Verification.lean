import MarketData.Engine.Inference
import MarketData.Ingress.Driver

/-!
# What the exit status says of the network

The driver on a TensorRT engine with the identity validation. Its engine is behind one load and at
most one capture of a graph, so the exit status is about the network that was loaded.
-/

namespace MarketData.Ingress

open ByteText CommandLine Cpp Ledger TensorRT

/-- The calls before the benchmark. -/
def callsOf (options : RunOptions) : List Call :=
  .load options.modelPath :: if options.useCudaGraph then [.enableCudaGraph] else []

/-- There is an output element for every input element, and none is off by more than the
tolerance. -/
structure Matches (options : RunOptions) (answer : List Single) : Prop where
  length : answer.length = options.totalInput.toNat
  close : ∀ index < options.totalInput.toNat,
    exceedsTolerance options.validationTolerance answer index = false

variable {host : Host} {resolved : BackendHint} {options options' : RunOptions} {engine : Backend}

/-! ### The engine of the driver -/

private theorem fallback_isMock
    (h : useMockFallback host resolved options = (options', some engine)) :
    engine.isMock = true := by
  unfold useMockFallback at h
  split at h
  · cases h
  · split at h
    · cases h
    · next fallback hmake =>
      obtain ⟨hrest, hmock⟩ := Backend.make_eq_some hmake
      obtain rfl := Option.some.inj (Option.ite_none_right_eq_some.mp (Prod.mk.inj h).2).2
      rw [(Backend.load_resting host.libraries hrest options.modelPath).2]
      exact hmock.mpr rfl

private theorem make_tensorRT (h : Backend.make host.withTensorRT resolved false = some engine)
    (hclass : engine.isMock = false) : engine = .tensorRT {} := by
  unfold Backend.make at h
  split at h
  · exact (Option.some.inj h).symm
  · split at h
    · obtain rfl := Option.some.inj h
      cases hclass
    · cases h

private theorem selectEngine_calls
    (h : selectEngine host resolved options = .ok (options', engine))
    (hclass : engine.isMock = false) :
    options' = options ∧
      engine = .tensorRT (reached host.libraries [.load options.modelPath]) := by
  unfold selectEngine at h
  split at h
  · split at h
    · next hfallback =>
      obtain ⟨rfl, rfl⟩ := Prod.mk.inj (Except.ok.inj h)
      rw [fallback_isMock hfallback] at hclass
      cases hclass
    · cases h
  · next first hmake =>
    dsimp only at h
    split at h
    · obtain ⟨rfl, rfl⟩ := Prod.mk.inj (Except.ok.inj h)
      obtain ⟨hrest, -⟩ := Backend.make_eq_some hmake
      rw [(Backend.load_resting host.libraries hrest options.modelPath).2] at hclass
      obtain rfl := make_tensorRT hmake hclass
      exact ⟨rfl, rfl⟩
    · split at h
      · next hfallback =>
        obtain ⟨rfl, rfl⟩ := Prod.mk.inj (Except.ok.inj h)
        rw [fallback_isMock hfallback] at hclass
        cases hclass
      · cases h

private theorem enableGraph_isMock {engine' : Backend}
    (h : enableGraph host options engine = .ok engine') (hclass : engine'.isMock = false) :
    engine.isMock = false := by
  cases engine with
  | tensorRT s => rfl
  | mock s =>
    unfold enableGraph at h
    split at h
    · cases h
    · obtain rfl := Except.ok.inj h
      cases hclass

private theorem enableGraph_calls {engine' : Backend} {calls : List Call}
    (h : enableGraph host options (.tensorRT (reached host.libraries calls)) = .ok engine') :
    engine' = .tensorRT (reached host.libraries
      (calls ++ if options.useCudaGraph then [.enableCudaGraph] else [])) := by
  unfold enableGraph at h
  split at h
  · next huse =>
    dsimp only at h
    split at h
    · obtain rfl := Except.ok.inj h
      rw [if_pos huse, reached_concat]
      rfl
    · cases h
  · next huse =>
    obtain rfl := Except.ok.inj h
    rw [if_neg huse, List.append_nil]

/-- A TensorRT engine that is ready to run is behind one load, and one capture where a graph is
asked for. -/
theorem prepare_calls (h : prepare host options = .ok (options', engine))
    (hclass : engine.isMock = false) :
    engine = .tensorRT (reached host.libraries (callsOf options')) := by
  unfold prepare at h
  dsimp only at h
  cases hselect : selectEngine host (resolveBackend options)
      { options with requestedBackend := backendName (resolveBackend options) } with
  | error e =>
    rw [hselect] at h
    cases h
  | ok selected =>
    obtain ⟨options₁, engine₁⟩ := selected
    rw [hselect] at h
    dsimp only [bind, Except.bind] at h
    split at h
    · cases h
    · next engine₂ hgraph =>
      obtain ⟨rfl, rfl⟩ := Prod.mk.inj (Except.ok.inj h)
      obtain ⟨rfl, rfl⟩ := selectEngine_calls hselect (enableGraph_isMock hgraph hclass)
      exact enableGraph_calls hgraph

/-! ### The status -/

private theorem targetExitCode_ne_five (options : RunOptions) (stats : InferenceStats) :
    targetExitCode options stats ≠ 5 := by
  unfold targetExitCode
  repeat' split
  all_goals decide

private theorem no_mismatches_iff {mismatches : UInt64} {answer : List Single}
    (h : mismatches.toNat =
      (options.totalInput.toNat - answer.length) + (answer.length - options.totalInput.toNat) +
        (List.range (min options.totalInput.toNat answer.length)).countP
          (exceedsTolerance options.validationTolerance answer)) :
    mismatches = 0 ↔ Matches options answer := by
  rw [← UInt64.toNat_inj, h, UInt64.toNat_zero]
  constructor
  · intro hzero
    have hlength : answer.length = options.totalInput.toNat := by omega
    refine ⟨hlength, fun index hindex ↦ ?_⟩
    have hnone := List.countP_eq_zero.mp (Nat.eq_zero_of_add_eq_zero hzero).2 index
      (List.mem_range.mpr (by omega))
    simpa using hnone
  · rintro ⟨hlength, hclose⟩
    rw [List.countP_eq_zero.mpr fun index hindex ↦ ?_]
    · omega
    · rw [hclose index (by have := List.mem_range.mp hindex; omega)]
      exact Bool.false_ne_true

/-- A driver on a TensorRT engine that validates ends with five exactly when its document is written
and the network that was loaded does not repeat the input within the tolerance, and it ends with
zero only if the network does. -/
theorem status_verifies {args : List Bytes} {stats : InferenceStats}
    {net : ℕ → List Single → List Single} {written : ℕ → List Single} {d : Device}
    (hmain : main host args = .ok (.measured options stats))
    (hbackend : stats.backend = ascii "tensorrt-gpu") (hverify : options.verifyIdentity = true)
    (hinput : ∀ n ≥ (reached host.libraries (callsOf options)).answered, written n =
      tensorOf (reached host.libraries (callsOf options)) (benchmarkInput options.totalInput))
    (hd : After ⟨host.libraries, net, written⟩ (lastSession (Backend.asEngine host.libraries)
      options (.tensorRT (reached host.libraries (callsOf options)))).engine.log d) :
    ∃ answer, answerOf ⟨host.libraries, net, written⟩ (reached host.libraries (callsOf options))
        (benchmarkInput options.totalInput) = some answer ∧
      ((Outcome.measured options stats).status host = 5 ↔
        (options.metricsPath = [] ∨ host.file options.metricsPath = .written) ∧
          ¬ Matches options answer) ∧
      ((Outcome.measured options stats).status host = 0 → Matches options answer) := by
  obtain ⟨given, engine, hparse, hprepare, hrun⟩ := main_measured hmain
  have hready := prepared_prepare (fallbackUsed_parse hparse) hprepare
  have hclass : engine.isMock = false := by
    rw [(Backend.runBenchmark_alike hready.resting hrun).1] at hbackend
    cases engine with
    | tensorRT s => rfl
    | mock s => simp [Backend.backendName, ascii_inj] at hbackend
  obtain rfl := prepare_calls hprepare hclass
  obtain ⟨answer, v, hanswer, hv, hcount, hpassed⟩ :=
    @Backend.validated_answer ⟨host.libraries, net, written⟩ host.clock options (callsOf options) d
      stats hverify hrun hinput hd
  have hmatches := no_mismatches_iff hcount
  refine ⟨answer, hanswer, ?_⟩
  rw [Outcome.status, exitCode, verdictExitCode, hv]
  by_cases hfile : options.metricsPath ≠ [] ∧ host.file options.metricsPath ≠ .written
  · rw [if_pos hfile]
    refine ⟨⟨fun h ↦ absurd h (by decide), fun h ↦ ?_⟩, fun h ↦ absurd h (by decide)⟩
    exact absurd h.1 (not_or.mpr hfile)
  · have hwritten : options.metricsPath = [] ∨ host.file options.metricsPath = .written := by
      by_contra hnot
      exact hfile (not_or.mp hnot)
    rw [if_neg hfile]
    dsimp only
    by_cases hzero : v.mismatches = 0
    · rw [hpassed, if_pos (decide_eq_true hzero)]
      have hmatch := hmatches.mp hzero
      exact ⟨⟨fun h ↦ absurd h (targetExitCode_ne_five options stats),
        fun h ↦ absurd hmatch h.2⟩, fun _ ↦ hmatch⟩
    · rw [hpassed, if_neg (by simpa using hzero)]
      exact ⟨⟨fun _ ↦ ⟨hwritten, fun hmatch ↦ hzero (hmatches.mpr hmatch)⟩, fun _ ↦ rfl⟩,
        fun h ↦ absurd h (by decide)⟩

/-! ### A verified network -/

/-- A build with TensorRT, on libraries that do not fail. -/
def deviceHost : Host where
  withTensorRT := true
  libraries := zeroWorld.libraries
  clock := tickingClock
  file _ := .written

/-- One call on one element through a graph, with the validation. -/
def verifyArguments : List Bytes :=
  [ascii "--backend", ascii "tensorrt", ascii "--model", ascii "model.engine",
    ascii "--verify-identity", ascii "--cuda-graph", ascii "--input-size", ascii "1",
    ascii "--iterations", ascii "1", ascii "--warmup", ascii "0"]

/-- A driver that ends with zero has verified its network. -/
theorem status_verifies_zero :
    ∃ options stats answer, main deviceHost verifyArguments = .ok (.measured options stats) ∧
      (Outcome.measured options stats).status deviceHost = 0 ∧
      answerOf zeroWorld (reached zeroWorld.libraries (callsOf options))
        (benchmarkInput options.totalInput) = some answer ∧
      Matches options answer := by
  obtain ⟨options, stats, hmain, hdocument⟩ :=
    @exists_measured deviceHost verifyArguments (fun document ↦
      decide (document.2.backend = ascii "tensorrt-gpu") && document.1.verifyIdentity &&
      decide (tensorOf (reached zeroWorld.libraries (callsOf document.1))
        (benchmarkInput document.1.totalInput) = [0]) &&
      (Device.followAll zeroWorld (lastSession (Backend.asEngine zeroWorld.libraries) document.1
        (.tensorRT (reached zeroWorld.libraries (callsOf document.1)))).engine.log).isSome &&
      decide ((Outcome.measured document.1 document.2).status deviceHost = 0)) (by decide +kernel)
  simp only [Bool.and_eq_true, decide_eq_true_eq] at hdocument
  obtain ⟨⟨⟨⟨hbackend, hverify⟩, hinput⟩, hdevice⟩, hstatus⟩ := hdocument
  obtain ⟨d, hd⟩ := Option.isSome_iff_exists.mp hdevice
  obtain ⟨answer, hanswer, -, hmatch⟩ := status_verifies hmain hbackend hverify
    (fun _ _ ↦ hinput.symm) (after_followAll hd)
  exact ⟨options, stats, answer, hmain, hstatus, hanswer, hmatch hstatus⟩

end MarketData.Ingress
