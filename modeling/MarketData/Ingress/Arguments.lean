import MarketData.Base.CommandLine
import MarketData.Base.Conversions
import MarketData.Engine.Types

/-!
# Arguments of the benchmark driver

The options that `main` of `src/main.cpp` reads, with `parse_size`, `parse_target` and
`parse_tolerance`. An option may come several times; the last one counts.
-/

namespace MarketData.Ingress

open ByteText CommandLine Cpp

/-- `parse_size`, `src/main.cpp:34–42`: the word that an option gives, which must take up the
whole text and may be zero where that is allowed. -/
def parseSize (flag : Bytes) (allowZero : Bool) (value : Bytes) : Checked UInt64 := do
  let (parsed, consumed) ← stoull value
  throwUnless (¬ (consumed ≠ value.length ∨ (allowZero = false ∧ parsed = 0) ∨
    UInt64.ofNat (2 ^ 64 - 1) < parsed)) (ascii "Invalid value for " ++ flag ++ ascii ": " ++ value)
  .ok parsed

/-- `parse_target`, `src/main.cpp:44–51`: the limit that `--target-us` gives, finite and above
zero. -/
def parseTarget (value : Bytes) : Checked Double := do
  let (parsed, consumed) ← stod value
  throwUnless (¬ (consumed ≠ value.length ∨ parsed.isFinite = false ∨ parsed.le .zero = true))
    (ascii "--target-us must be a finite value greater than zero")
  .ok parsed

/-- `parse_tolerance`, `src/main.cpp:53–60`: the tolerance that `--tolerance` gives, finite and
not below zero. -/
def parseTolerance (value : Bytes) : Checked Double := do
  let (parsed, consumed) ← stod value
  throwUnless (¬ (consumed ≠ value.length ∨ parsed.isFinite = false ∨ parsed.lt .zero = true))
    (ascii "--tolerance must be a finite non-negative value")
  .ok parsed

/-- The value of `--target-scope`. -/
def readScope (value : Bytes) : Checked LatencyScope :=
  if value = ascii "e2e" then .ok .endToEnd
  else if value = ascii "device" then .ok .deviceCompute
  else .error (.exception (ascii "Unsupported target scope: " ++ value))

/-- The value of `--backend`. -/
def readBackend (value : Bytes) : Checked BackendHint :=
  if value = ascii "auto" then .ok .auto
  else if value = ascii "tensorrt" then .ok .tensorRT
  else if value = ascii "mock" then .ok .mock
  else .error (.exception (ascii "Unsupported backend value: " ++ value))

/-- An option that takes a size. -/
def sizeOption (flag : String) (allowZero : Bool) (set : UInt64 → RunOptions → RunOptions) :
    Bytes × Action Bytes RunOptions Failure :=
  (ascii flag, setting (parseSize (ascii flag) allowZero) set)

/-- The options of `main`, `src/main.cpp:86–133`, in the order in which it tries them. -/
def grammar : Grammar Bytes RunOptions Failure where
  options := [
    (ascii "--help", .stop),
    (ascii "-h", .stop),
    (ascii "--model", setting .ok fun v o ↦ { o with modelPath := v }),
    sizeOption "--batch" false fun v o ↦ { o with batchSize := v },
    sizeOption "--input-size" false fun v o ↦ { o with inputSize := v },
    sizeOption "--iterations" false fun v o ↦ { o with iterations := v },
    sizeOption "--warmup" true fun v o ↦ { o with warmup := v },
    (ascii "--json-out", setting .ok fun v o ↦ { o with metricsPath := v }),
    (ascii "--target-us", setting parseTarget fun v o ↦ { o with targetLatencyUs := v }),
    (ascii "--target-scope", setting readScope fun v o ↦ { o with targetScope := v }),
    (ascii "--backend", setting readBackend fun v o ↦ { o with backend := v }),
    (ascii "--allow-mock-fallback", .switch fun o ↦ { o with allowMockFallback := true }),
    (ascii "--verify-identity", .switch fun o ↦ { o with verifyIdentity := true }),
    (ascii "--tolerance", setting parseTolerance fun v o ↦ { o with validationTolerance := v }),
    (ascii "--cuda-graph", .switch fun o ↦ { o with useCudaGraph := true })]
  missing flag := .exception (ascii "Missing value for " ++ flag)
  unknown arg := .exception (ascii "Unknown argument: " ++ arg)

/-! ### What the arguments leave -/

variable {args : List Bytes} {options : RunOptions}

private theorem action_model : grammar.action (ascii "--model") =
    some (setting .ok fun v o ↦ { o with modelPath := v }) := by
  simp [Grammar.action, grammar, sizeOption, ascii_inj]

private theorem action_backend : grammar.action (ascii "--backend") =
    some (setting readBackend fun v o ↦ { o with backend := v }) := by
  simp [Grammar.action, grammar, sizeOption, ascii_inj]

private theorem action_fallback : grammar.action (ascii "--allow-mock-fallback") =
    some (.switch fun o ↦ { o with allowMockFallback := true }) := by
  simp [Grammar.action, grammar, sizeOption, ascii_inj]

private theorem action_graph : grammar.action (ascii "--cuda-graph") =
    some (.switch fun o ↦ { o with useCudaGraph := true }) := by
  simp [Grammar.action, grammar, sizeOption, ascii_inj]

private theorem action_jsonOut : grammar.action (ascii "--json-out") =
    some (setting .ok fun v o ↦ { o with metricsPath := v }) := by
  simp [Grammar.action, grammar, sizeOption, ascii_inj]

private theorem action_target : grammar.action (ascii "--target-us") =
    some (setting parseTarget fun v o ↦ { o with targetLatencyUs := v }) := by
  simp [Grammar.action, grammar, sizeOption, ascii_inj]

private theorem onlySetBy_jsonOut :
    grammar.OnlySetBy RunOptions.metricsPath (ascii "--json-out") := by
  simp [Grammar.OnlySetBy, grammar, sizeOption]

private theorem onlySetBy_target :
    grammar.OnlySetBy RunOptions.targetLatencyUs (ascii "--target-us") := by
  simp [Grammar.OnlySetBy, grammar, sizeOption]

private theorem onlySetBy_model : grammar.OnlySetBy RunOptions.modelPath (ascii "--model") := by
  simp [Grammar.OnlySetBy, grammar, sizeOption]

private theorem onlySetBy_backend : grammar.OnlySetBy RunOptions.backend (ascii "--backend") := by
  simp [Grammar.OnlySetBy, grammar, sizeOption]

private theorem onlySetBy_fallback :
    grammar.OnlySetBy RunOptions.allowMockFallback (ascii "--allow-mock-fallback") := by
  simp [Grammar.OnlySetBy, grammar, sizeOption]

private theorem onlySetBy_graph :
    grammar.OnlySetBy RunOptions.useCudaGraph (ascii "--cuda-graph") := by
  simp [Grammar.OnlySetBy, grammar, sizeOption]

/-- The model is the last one named. -/
theorem modelPath_parse (h : grammar.parse args {} = .ok (some options)) :
    options.modelPath = (grammar.lastValue (ascii "--model") args).getD (ascii "mock") := by
  have hlast := Grammar.parse_lastValue action_model (fun _ _ ↦ rfl) onlySetBy_model h
  cases hv : grammar.lastValue (ascii "--model") args with
  | none =>
    rw [hv] at hlast
    exact (Except.ok.inj hlast).symm
  | some v =>
    rw [hv] at hlast
    exact (Except.ok.inj hlast).symm

/-- The backend is the last one named. -/
theorem backend_parse (h : grammar.parse args {} = .ok (some options)) :
    readBackend ((grammar.lastValue (ascii "--backend") args).getD (ascii "auto")) =
      .ok options.backend := by
  have hlast := Grammar.parse_lastValue action_backend (fun _ _ ↦ rfl) onlySetBy_backend h
  cases hv : grammar.lastValue (ascii "--backend") args with
  | none =>
    rw [hv] at hlast
    obtain hauto : BackendHint.auto = options.backend := Except.ok.inj hlast
    rw [← hauto]
    exact if_pos rfl
  | some v =>
    rw [hv] at hlast
    exact hlast

/-- The fallback is allowed when its option is given. -/
theorem allowMockFallback_parse (h : grammar.parse args {} = .ok (some options)) :
    options.allowMockFallback = true ↔ grammar.Given (ascii "--allow-mock-fallback") args := by
  have hflag := Grammar.parse_flag action_fallback (fun _ ↦ rfl) onlySetBy_fallback h
  simpa using hflag

/-- A graph is asked for when its option is given. -/
theorem useCudaGraph_parse (h : grammar.parse args {} = .ok (some options)) :
    options.useCudaGraph = true ↔ grammar.Given (ascii "--cuda-graph") args := by
  have hflag := Grammar.parse_flag action_graph (fun _ ↦ rfl) onlySetBy_graph h
  simpa using hflag

/-- No option says that the fallback was used. -/
theorem fallbackUsed_parse (h : grammar.parse args {} = .ok (some options)) :
    options.fallbackUsed = false := by
  have hkeeps : ∀ entry ∈ grammar.options, entry.2.Keeps RunOptions.fallbackUsed := by
    simp [grammar, sizeOption]
  exact Grammar.parse_kept hkeeps h

/-- The target is finite. -/
theorem targetLatencyUs_parse (h : grammar.parse args {} = .ok (some options)) :
    options.targetLatencyUs.isFinite = true := by
  have hlast := Grammar.parse_lastValue action_target (fun _ _ ↦ rfl) onlySetBy_target h
  cases hv : grammar.lastValue (ascii "--target-us") args with
  | none =>
    rw [hv] at hlast
    rw [← Except.ok.inj hlast]
    exact Ieee.Number.isFinite_zero
  | some v =>
    rw [hv] at hlast
    obtain ⟨⟨parsed, consumed⟩, -, hcheck⟩ := bind_eq_ok.mp hlast
    obtain ⟨_, hfinite, hparsed⟩ := bind_eq_ok.mp hcheck
    rw [← Except.ok.inj hparsed]
    rw [throwUnless_eq_ok] at hfinite
    simpa using fun hf ↦ hfinite (.inr (.inl hf))

private theorem action_digit {token : Bytes} {b : UInt8} (hlast : token.getLast? = some b)
    (hb : isDigit b = true) : grammar.action token = none := by
  have hoptions : ∀ entry ∈ grammar.options, ∀ b ∈ entry.1.getLast?, isDigit b = false := by
    decide
  cases haction : grammar.action token with
  | none => rfl
  | some action =>
    have hdigit := hoptions _ (Grammar.mem_of_action haction) b hlast
    rw [hb] at hdigit
    cases hdigit

/-- The metrics go to the path that is named behind all other arguments, when it ends in a digit. -/
theorem metricsPath_parse {path : Bytes} {b : UInt8} (hlast : path.getLast? = some b)
    (hb : isDigit b = true)
    (h : grammar.parse (args ++ [ascii "--json-out", path]) {} = .ok (some options)) :
    options.metricsPath = path := by
  have hvalue := Grammar.parse_lastValue action_jsonOut (fun _ _ ↦ rfl) onlySetBy_jsonOut h
  rw [Grammar.lastValue_behind action_jsonOut (action_digit hlast hb) h] at hvalue
  exact (Except.ok.inj hvalue).symm

end MarketData.Ingress
