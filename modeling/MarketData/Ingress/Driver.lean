import MarketData.Engine.Backends
import MarketData.Ingress.Arguments
import MarketData.Ingress.Main

/-!
# The benchmark driver

`main` of `src/main.cpp`: the arguments, the choice of the backend with its fallback, the gate of
the graph and the benchmark. A document says which backend was asked for and which one ran.
-/

namespace MarketData.Ingress

open ByteText CommandLine Cpp
open Json (HasMember)

/-- What the driver finds: its build, the libraries, the clock, and what becomes of a file that it
writes. -/
structure Host where
  build : Build := {}
  withTensorRT : Bool
  libraries : TensorRT.Libraries
  clock : SteadyClock
  file : Bytes → FileWrite

/-- An end without a document: the exit code and what is reported. -/
structure Refusal where
  code : Nat
  report : Bytes
deriving DecidableEq

/-- How the driver ends. -/
inductive Outcome where
  | help
  | refused (refusal : Refusal)
  | measured (options : RunOptions) (stats : InferenceStats)

/-- `backend_name`, `src/main.cpp:62–69`: the name of a hint in the documents and on the command
line. -/
def backendName (backend : BackendHint) : Bytes :=
  match backend with
  | .tensorRT => ascii "tensorrt"
  | .mock => ascii "mock"
  | .auto => ascii "auto"

/-- The backend behind `auto`, `src/main.cpp:136–141`. -/
def resolveBackend (options : RunOptions) : BackendHint :=
  if options.backend = .auto then
    if options.modelPath = ascii "mock" then .mock else .tensorRT
  else options.backend

variable (host : Host)

/-- `use_mock_fallback`, `src/main.cpp:144–156`: the mock backend in the place of TensorRT, where
the options permit it, and the options that say so. -/
def useMockFallback (resolved : BackendHint) (options : RunOptions) :
    RunOptions × Option Backend :=
  if options.allowMockFallback = false ∨ resolved = .mock then (options, none)
  else
    let options := { options with fallbackUsed := true }
    match Backend.make host.withTensorRT .mock false with
    | none => (options, none)
    | some fallback =>
      let answer := fallback.load host.libraries options.modelPath
      (options, if answer.1 then some answer.2 else none)

/-- The engine with its model, or the fallback. -/
def selectEngine (resolved : BackendHint) (options : RunOptions) :
    Except Refusal (RunOptions × Backend) :=
  match Backend.make host.withTensorRT resolved false with
  | none =>
    match useMockFallback host resolved options with
    | (options, some engine) => .ok (options, engine)
    | (_, none) => .error ⟨2, ascii "Requested TensorRT backend is not built. Configure with " ++
        ascii "-DMD_REQUIRE_TENSORRT=ON, or deliberately pass --allow-mock-fallback.\n"⟩
  | some engine =>
    let answer := engine.load host.libraries options.modelPath
    if answer.1 then .ok (options, answer.2)
    else
      match useMockFallback host resolved options with
      | (options, some engine) => .ok (options, engine)
      | (_, none) =>
        .error ⟨2, ascii "Backend failed to load model: " ++ options.modelPath ++ [newline]⟩

/-- The gate of the graph. -/
def enableGraph (options : RunOptions) (engine : Backend) : Except Refusal Backend :=
  if options.useCudaGraph then
    let answer := engine.enableCudaGraph host.libraries
    if answer.1 then .ok answer.2
    else .error ⟨6, ascii "CUDA graph mode was requested but is unavailable for this backend " ++
      ascii "or engine\n"⟩
  else .ok engine

/-- The engine that the options ask for, ready to run. -/
def prepare (options : RunOptions) : Except Refusal (RunOptions × Backend) := do
  let resolved := resolveBackend options
  let (options, engine) ←
    selectEngine host resolved { options with requestedBackend := backendName resolved }
  let engine ← enableGraph host options engine
  return (options, engine)

/-- The body of `main`, `src/main.cpp:76–220`. -/
def run (args : List Bytes) : Checked Outcome := do
  match ← grammar.parse args {} with
  | none => .ok .help
  | some options =>
    match prepare host options with
    | .error refusal => .ok (.refused refusal)
    | .ok (options, engine) =>
      let stats ← runBenchmark (Backend.asEngine host.libraries) host.clock options engine
      .ok (.measured options stats)

/-- `main`, `src/main.cpp:73–226`, on the arguments behind the name of the program: the parsed
options, the engine, the benchmark, the document and the exit status. -/
def main (args : List Bytes) : Checked Outcome :=
  match run host args with
  | .error (.exception what) => .ok (.refused ⟨1, ascii "Error: " ++ what ++ [newline]⟩)
  | outcome => outcome

/-- The exit status. -/
def Outcome.status : Outcome → Nat
  | .help => 0
  | .refused refusal => refusal.code
  | .measured options stats => exitCode options stats (host.file options.metricsPath)

/-- What the document is about, when there is one. -/
def Outcome.emitted : Outcome → Option (RunOptions × InferenceStats)
  | .measured options stats => some (options, stats)
  | _ => none

/-- The files behind the driver, which writes one at most. A write that fails leaves some part. -/
def Outcome.files (cut : Option Bytes) (files : Bytes → Option Bytes) :
    Outcome → Bytes → Option Bytes
  | .measured options stats =>
    if options.metricsPath = [] then files
    else
      match host.file options.metricsPath with
      | .written => Function.update files options.metricsPath
          (some (formatMetricsJson host.build options stats))
      | .openFailed => files
      | .writeFailed => Function.update files options.metricsPath cut
  | _ => files

/-! ### The backend that runs -/

/-- The engine that was selected, and what the options say of it. -/
structure Selected (resolved : BackendHint) (options options' : RunOptions) (engine : Backend) :
    Prop where
  resting : engine.Resting
  unchanged : options' = { options with fallbackUsed := options'.fallbackUsed }
  fallback : options'.fallbackUsed = true ↔ engine.isMock = true ∧ resolved = .tensorRT
  allowed : options'.fallbackUsed = true → options.allowMockFallback = true

variable {host} {resolved : BackendHint} {options options' : RunOptions} {engine : Backend}

private theorem selected_fallback (hresolved : resolved ≠ .auto)
    (h : useMockFallback host resolved options = (options', some engine)) :
    Selected resolved options options' engine := by
  unfold useMockFallback at h
  split at h
  · cases h
  · next hallowed =>
    rw [not_or, Bool.not_eq_false] at hallowed
    split at h
    · cases h
    · next fallback hmake =>
      obtain ⟨rfl, hsome⟩ := Prod.mk.inj h
      obtain ⟨hrest, hmock⟩ := Backend.make_eq_some hmake
      obtain rfl := Option.some.inj (Option.ite_none_right_eq_some.mp hsome).2
      obtain ⟨hrest', hclass⟩ := Backend.load_resting host.libraries hrest options.modelPath
      have htensorRT : resolved = .tensorRT := by
        cases resolved with
        | auto => exact absurd rfl hresolved
        | tensorRT => rfl
        | mock => exact absurd rfl hallowed.2
      exact ⟨hrest', rfl, by simp [hclass, hmock, htensorRT], fun _ ↦ hallowed.1⟩

/-- The fallback runs exactly where the mock backend stands in for TensorRT. -/
theorem selected_selectEngine (hresolved : resolved ≠ .auto) (hused : options.fallbackUsed = false)
    (h : selectEngine host resolved options = .ok (options', engine)) :
    Selected resolved options options' engine := by
  unfold selectEngine at h
  split at h
  · split at h
    · next hfallback =>
      obtain ⟨rfl, rfl⟩ := Prod.mk.inj (Except.ok.inj h)
      exact selected_fallback hresolved hfallback
    · cases h
  · next first hmake =>
    dsimp only at h
    split at h
    · obtain ⟨rfl, rfl⟩ := Prod.mk.inj (Except.ok.inj h)
      obtain ⟨hrest, hmock⟩ := Backend.make_eq_some hmake
      obtain ⟨hrest', hclass⟩ := Backend.load_resting host.libraries hrest options.modelPath
      refine ⟨hrest', rfl, ?_, by simp [hused]⟩
      rw [hused, hclass, hmock]
      simp only [Bool.false_eq_true, false_iff, not_and]
      rintro rfl h
      cases h
    · split at h
      · next hfallback =>
        obtain ⟨rfl, rfl⟩ := Prod.mk.inj (Except.ok.inj h)
        exact selected_fallback hresolved hfallback
      · cases h

private theorem resolveBackend_ne_auto (options : RunOptions) : resolveBackend options ≠ .auto := by
  unfold resolveBackend
  split
  · split <;> decide
  · assumption

private theorem enableGraph_ok {engine' : Backend} (hrest : engine.Resting)
    (h : enableGraph host options engine = .ok engine') :
    engine'.Resting ∧ engine'.isMock = engine.isMock ∧
      (options.useCudaGraph = true → engine'.cudaGraphEnabled = true) := by
  unfold enableGraph at h
  split at h
  · dsimp only at h
    split at h
    · next hok =>
      obtain rfl := Except.ok.inj h
      obtain ⟨hrest', hclass, hgraph⟩ := Backend.enableCudaGraph_resting hrest hok
      exact ⟨hrest', hclass, fun _ ↦ hgraph⟩
    · cases h
  · next hgraph =>
    obtain rfl := Except.ok.inj h
    exact ⟨hrest, rfl, fun hg ↦ absurd hg hgraph⟩

private theorem bind_ok {ε α β : Type} {x : Except ε α} {f : α → Except ε β} {b : β}
    (h : (x >>= f) = .ok b) : ∃ a, x = .ok a ∧ f a = .ok b := by
  cases x with
  | error e => cases h
  | ok a => exact ⟨a, rfl, h⟩

/-- The engine that is ready to run, and what the options say of it. -/
structure Prepared (options options' : RunOptions) (engine : Backend) : Prop where
  resting : engine.Resting
  unchanged : options' = { options with
    requestedBackend := options'.requestedBackend
    fallbackUsed := options'.fallbackUsed }
  requested : options'.requestedBackend = backendName (resolveBackend options)
  fallback : options'.fallbackUsed = true ↔
    engine.isMock = true ∧ resolveBackend options = .tensorRT
  allowed : options'.fallbackUsed = true → options.allowMockFallback = true
  graph : options.useCudaGraph = true → engine.cudaGraphEnabled = true

/-- What `main` prepares is ready to run. -/
theorem prepared_prepare (hused : options.fallbackUsed = false)
    (h : prepare host options = .ok (options', engine)) : Prepared options options' engine := by
  obtain ⟨⟨options₁, engine₁⟩, hselect, h⟩ := bind_ok h
  obtain ⟨engine₂, hgraph, h⟩ := bind_ok h
  obtain ⟨rfl, rfl⟩ := Prod.mk.inj (Except.ok.inj h)
  let asked : RunOptions :=
    { options with requestedBackend := backendName (resolveBackend options) }
  have hselected : Selected (resolveBackend options) asked options₁ engine₁ :=
    selected_selectEngine (resolveBackend_ne_auto options) hused hselect
  obtain ⟨hrest, hclass, henabled⟩ := enableGraph_ok hselected.resting hgraph
  have hrequested : options₁.requestedBackend = backendName (resolveBackend options) :=
    congrArg RunOptions.requestedBackend hselected.unchanged
  have huse := congrArg RunOptions.useCudaGraph hselected.unchanged
  refine ⟨hrest, ?_, hrequested, ?_, hselected.allowed, fun hg ↦ henabled (huse.trans hg)⟩
  · rw [hrequested]
    exact hselected.unchanged
  · rw [hclass]
    exact hselected.fallback

/-- A driver that emits a document has read its arguments and run the engine that it prepared. -/
theorem main_measured {args : List Bytes} {stats : InferenceStats}
    (h : main host args = .ok (.measured options' stats)) :
    ∃ options engine, grammar.parse args {} = .ok (some options) ∧
      prepare host options = .ok (options', engine) ∧
      runBenchmark (Backend.asEngine host.libraries) host.clock options' engine = .ok stats := by
  have hrun : run host args = .ok (.measured options' stats) := by
    unfold main at h
    split at h
    · cases h
    · exact h
  obtain ⟨parsed, hparse, hbody⟩ := bind_eq_ok.mp hrun
  cases parsed with
  | none => cases hbody
  | some options =>
    refine ⟨options, ?_⟩
    dsimp only at hbody
    split at hbody
    · cases hbody
    · next hprepare =>
      obtain ⟨stats', hstats, hbody⟩ := bind_eq_ok.mp hbody
      cases hbody
      exact ⟨_, hparse, hprepare, hstats⟩

/-- A driver that prints its help was asked to. -/
theorem parse_of_help {args : List Bytes} (h : main host args = .ok .help) :
    grammar.parse args {} = .ok none := by
  have hrun : run host args = .ok .help := by
    unfold main at h
    split at h
    · cases h
    · exact h
  obtain ⟨parsed, hparse, hbody⟩ := bind_eq_ok.mp hrun
  cases parsed with
  | none => exact hparse
  | some options =>
    dsimp only at hbody
    split at hbody
    · cases hbody
    · obtain ⟨stats, -, hbody⟩ := bind_eq_ok.mp hbody
      cases hbody

/-- A driver that is asked for help prints it. -/
theorem help_of_parse {args : List Bytes} (h : grammar.parse args {} = .ok none) :
    main host args = .ok .help := by
  rw [main, run, h]
  rfl

/-! ### The exit status -/

private theorem code_selectEngine {refusal : Refusal}
    (h : selectEngine host resolved options = .error refusal) : refusal.code = 2 := by
  unfold selectEngine at h
  split at h
  · split at h
    · cases h
    · obtain rfl := Except.error.inj h
      rfl
  · dsimp only at h
    split at h
    · cases h
    · split at h
      · cases h
      · obtain rfl := Except.error.inj h
        rfl

private theorem code_enableGraph {refusal : Refusal}
    (h : enableGraph host options engine = .error refusal) : refusal.code = 6 := by
  unfold enableGraph at h
  split at h
  · dsimp only at h
    split at h
    · cases h
    · obtain rfl := Except.error.inj h
      rfl
  · cases h

private theorem code_prepare {refusal : Refusal} (h : prepare host options = .error refusal) :
    refusal.code ≠ 0 := by
  unfold prepare at h
  dsimp only at h
  cases hselect : selectEngine host (resolveBackend options)
      { options with requestedBackend := backendName (resolveBackend options) } with
  | error e =>
    rw [hselect] at h
    obtain rfl := Except.error.inj h
    rw [code_selectEngine hselect]
    decide
  | ok selected =>
    rw [hselect] at h
    dsimp only [bind, Except.bind] at h
    split at h
    · next hgraph =>
      obtain rfl := Except.error.inj h
      rw [code_enableGraph hgraph]
      decide
    · cases h

/-- A driver that refuses does not end with zero. -/
theorem code_main {args : List Bytes} {refusal : Refusal}
    (h : main host args = .ok (.refused refusal)) : refusal.code ≠ 0 := by
  unfold main at h
  split at h
  · obtain rfl := Outcome.refused.inj (Except.ok.inj h)
    exact Nat.one_ne_zero
  · obtain ⟨parsed, -, hbody⟩ := bind_eq_ok.mp h
    cases parsed with
    | none => cases hbody
    | some options =>
      dsimp only at hbody
      split at hbody
      · next hprepare =>
        obtain rfl := Outcome.refused.inj (Except.ok.inj hbody)
        exact code_prepare hprepare
      · obtain ⟨stats, -, hbody⟩ := bind_eq_ok.mp hbody
        cases hbody

/-! ### The last argument -/

/-- A driver whose last arguments name a path that ends in a digit writes to that path only, and its
target is finite. -/
theorem main_jsonOut {args : List Bytes} {path : Bytes} {b : UInt8} {stats : InferenceStats}
    (hlast : path.getLast? = some b) (hb : isDigit b = true)
    (h : main host (args ++ [ascii "--json-out", path]) = .ok (.measured options stats)) :
    options.metricsPath = path ∧ options.targetLatencyUs.isFinite = true := by
  obtain ⟨given, engine, hparse, hprepare, -⟩ := main_measured h
  have hunchanged := (prepared_prepare (fallbackUsed_parse hparse) hprepare).unchanged
  have hpath : options.metricsPath = given.metricsPath := by rw [hunchanged]
  have htarget : options.targetLatencyUs = given.targetLatencyUs := by rw [hunchanged]
  rw [hpath, htarget]
  exact ⟨metricsPath_parse hlast hb hparse, targetLatencyUs_parse hparse⟩

/-! ### Strict selection -/

/-- The backend that the last `--backend` and the last `--model` ask for. -/
def requestedBackend (args : List Bytes) : Bytes :=
  let backend := (grammar.lastValue (ascii "--backend") args).getD (ascii "auto")
  let model := (grammar.lastValue (ascii "--model") args).getD (ascii "mock")
  if backend = ascii "auto" then if model = ascii "mock" then ascii "mock" else ascii "tensorrt"
  else backend

variable {args : List Bytes} {stats : InferenceStats}

private theorem backendName_resolveBackend (h : grammar.parse args {} = .ok (some options)) :
    backendName (resolveBackend options) = requestedBackend args := by
  have hbackend := backend_parse h
  rw [resolveBackend, requestedBackend, modelPath_parse h]
  unfold readBackend at hbackend
  split at hbackend
  · next hauto =>
    rw [hauto, if_pos rfl, if_pos (Except.ok.inj hbackend).symm]
    split <;> rfl
  · split at hbackend
    · next hname =>
      rw [hname, ← Except.ok.inj hbackend]
      rfl
    · split at hbackend
      · next hname =>
        rw [hname, ← Except.ok.inj hbackend]
        rfl
      · cases hbackend

private theorem backendName_resolved (options : RunOptions) :
    backendName (resolveBackend options) = ascii "tensorrt" ∨
      backendName (resolveBackend options) = ascii "mock" := by
  cases hresolved : resolveBackend options with
  | auto => exact absurd hresolved (resolveBackend_ne_auto options)
  | tensorRT => exact .inl rfl
  | mock => exact .inr rfl

private theorem text_requested (backend : BackendHint) :
    (stringNode (backendName backend)).text =
      ascii "\"" ++ (backendName backend ++ ascii "\"") := by
  rw [text_stringNode]
  cases backend <;> decide

private theorem text_backend (engine : Backend) :
    (stringNode engine.backendName).text =
      if engine.isMock then ascii "\"mock-cpp-cpu\"" else ascii "\"tensorrt-gpu\"" := by
  have hmock : ascii "\"" ++ (escapeJson (ascii "mock-cpp-cpu") ++ ascii "\"") =
      ascii "\"mock-cpp-cpu\"" := by decide
  have hgpu : ascii "\"" ++ (escapeJson (ascii "tensorrt-gpu") ++ ascii "\"") =
      ascii "\"tensorrt-gpu\"" := by decide
  rw [text_stringNode]
  cases engine with
  | tensorRT s => exact hgpu
  | mock s => exact hmock

private theorem text_flag (flag : Bool) :
    (boolNode flag).text = if flag then ascii "true" else ascii "false" := by cases flag <;> decide

section

variable {build : Build} {value : Bytes}

private theorem hasMember_backend (h : stats.backend = engine.backendName) :
    HasMember (formatMetricsJson build options stats) (ascii "backend") value ↔
      (if engine.isMock then ascii "\"mock-cpp-cpu\"" else ascii "\"tensorrt-gpu\"") = value := by
  rw [← text_backend, ← h]
  exact @hasMember_formatMetricsJson _ _ _ (key "backend") _ _ (by simp [rootFields])

private theorem hasMember_requestedBackend {backend : BackendHint}
    (h : options.requestedBackend = backendName backend) :
    HasMember (formatMetricsJson build options stats) (ascii "requested_backend") value ↔
      ascii "\"" ++ (backendName backend ++ ascii "\"") = value := by
  rw [← text_requested, ← h]
  exact @hasMember_formatMetricsJson _ _ _ (key "requested_backend") _ _ (by simp [rootFields])

private theorem hasMember_fallbackUsed :
    HasMember (formatMetricsJson build options stats) (ascii "fallback_used") value ↔
      (if options.fallbackUsed then ascii "true" else ascii "false") = value := by
  rw [← text_flag]
  exact @hasMember_formatMetricsJson _ _ _ (key "fallback_used") _ _ (by simp [rootFields])

private theorem hasMember_cudaGraph :
    HasMember (formatMetricsJson build options stats) (ascii "cuda_graph") value ↔
      (if stats.cudaGraph then ascii "true" else ascii "false") = value := by
  rw [← text_flag]
  exact @hasMember_formatMetricsJson _ _ _ (key "cuda_graph") _ _ (by simp [rootFields])

private theorem fallbackUsed_true :
    HasMember (formatMetricsJson build options stats) (ascii "fallback_used") (ascii "true") ↔
      options.fallbackUsed = true := by
  rw [hasMember_fallbackUsed]
  cases options.fallbackUsed <;> decide

end

/-- What a document says of the backend that ran, on the arguments of its driver. -/
structure StrictlySelected (args : List Bytes) (document : Bytes) : Prop where
  known : requestedBackend args = ascii "tensorrt" ∨ requestedBackend args = ascii "mock"
  requested : HasMember document (ascii "requested_backend")
    (ascii "\"" ++ (requestedBackend args ++ ascii "\""))
  backend : HasMember document (ascii "backend") (ascii "\"mock-cpp-cpu\"") ∨
    HasMember document (ascii "backend") (ascii "\"tensorrt-gpu\"")
  flag : HasMember document (ascii "fallback_used") (ascii "true") ∨
    HasMember document (ascii "fallback_used") (ascii "false")
  fallback : HasMember document (ascii "backend") (ascii "\"mock-cpp-cpu\"") ∧
      HasMember document (ascii "requested_backend") (ascii "\"tensorrt\"") ↔
    HasMember document (ascii "fallback_used") (ascii "true")
  allowed : HasMember document (ascii "fallback_used") (ascii "true") →
    grammar.Given (ascii "--allow-mock-fallback") args
  graph : grammar.Given (ascii "--cuda-graph") args →
    HasMember document (ascii "cuda_graph") (ascii "true")

/-- The document of a driver names the backend that its arguments ask for. The mock backend stands
in for TensorRT exactly when the document says so, and only when its option is given; a graph that
is asked for is used. -/
theorem strict_selection (h : main host args = .ok (.measured options stats)) :
    StrictlySelected args (formatMetricsJson host.build options stats) := by
  obtain ⟨given, engine, hparse, hprepare, hstats⟩ := main_measured h
  have hready := prepared_prepare (fallbackUsed_parse hparse) hprepare
  obtain ⟨hname, hgraph⟩ := Backend.runBenchmark_alike hready.resting hstats
  refine ⟨?_, ?_, ?_, ?_, ?_, ?_, ?_⟩
  · rw [← backendName_resolveBackend hparse]
    exact backendName_resolved given
  · rw [hasMember_requestedBackend hready.requested, backendName_resolveBackend hparse]
  · rw [hasMember_backend hname, hasMember_backend hname]
    cases engine.isMock <;> simp
  · rw [hasMember_fallbackUsed, hasMember_fallbackUsed]
    cases options.fallbackUsed <;> simp
  · have hmock : (if engine.isMock then ascii "\"mock-cpp-cpu\"" else ascii "\"tensorrt-gpu\"") =
        ascii "\"mock-cpp-cpu\"" ↔ engine.isMock = true := by cases engine.isMock <;> decide
    have htensorRT : ascii "\"" ++ (backendName (resolveBackend given) ++ ascii "\"") =
        ascii "\"tensorrt\"" ↔ resolveBackend given = .tensorRT := by
      cases resolveBackend given <;> decide
    rw [hasMember_backend hname, hasMember_requestedBackend hready.requested, fallbackUsed_true,
      hready.fallback, hmock, htensorRT]
  · intro hused
    exact (allowMockFallback_parse hparse).mp (hready.allowed (fallbackUsed_true.mp hused))
  · intro hgiven
    rw [hasMember_cudaGraph, hgraph, hready.graph ((useCudaGraph_parse hparse).mpr hgiven),
      if_pos rfl]

/-! ### A fallback -/

/-- Libraries in which every call fails. -/
def absentLibraries : TensorRT.Libraries where
  succeeds _ := false
  modelFile _ := none
  errorCount _ := 0
  tensorCount _ := 0
  tensorName _ := none
  tensorMode _ := .none
  tensorIsFloat _ := false
  tensorShape _ := []
  givesGraph _ := false
  elapsedMs _ := 0
  outputElement _ _ := 0
  runtimeVersion _ := none
  driverVersion _ := none
  deviceProperties _ := ⟨[], 0, 0, 0⟩
  version := (0, 0, 0)

/-- A build without TensorRT. -/
def plainHost : Host where
  withTensorRT := false
  libraries := absentLibraries
  clock := tickingClock
  file _ := .written

/-- One call on one element, with a fallback. -/
def fallbackArguments : List Bytes :=
  [ascii "--backend", ascii "tensorrt", ascii "--allow-mock-fallback", ascii "--input-size",
    ascii "1", ascii "--iterations", ascii "1", ascii "--warmup", ascii "0"]

/-- A driver whose document passes a test. -/
theorem exists_measured {p : RunOptions × InferenceStats → Bool}
    (h : ((main host args).toOption.bind Outcome.emitted).any p = true) :
    ∃ options stats, main host args = .ok (.measured options stats) ∧
      p (options, stats) = true := by
  cases hmain : main host args with
  | error e =>
    rw [hmain] at h
    cases h
  | ok outcome =>
    rw [hmain] at h
    cases outcome with
    | measured options stats => exact ⟨options, stats, rfl, h⟩
    | help => cases h
    | refused refusal => cases h

/-- Without TensorRT the allowed fallback runs. -/
theorem strict_selection_fallback :
    ∃ options stats, main plainHost fallbackArguments = .ok (.measured options stats) ∧
      HasMember (formatMetricsJson plainHost.build options stats) (ascii "backend")
        (ascii "\"mock-cpp-cpu\"") ∧
      grammar.Given (ascii "--allow-mock-fallback") fallbackArguments := by
  obtain ⟨options, stats, h, hused⟩ := @exists_measured plainHost fallbackArguments
    (fun document ↦ document.1.fallbackUsed) (by decide +kernel)
  have hselected := strict_selection h
  have hflag := (@fallbackUsed_true options stats plainHost.build).mpr hused
  exact ⟨options, stats, h, (hselected.fallback.mpr hflag).1, hselected.allowed hflag⟩

end MarketData.Ingress
