import MarketData.Engine.Artifact
import MarketData.Engine.Handles

/-!
# Backends

`src/engine_mock.cpp` and `src/engine_factory.cpp`, and the virtual functions of an engine of either
class. During a benchmark an engine stays of its class and keeps its graph.
-/

namespace MarketData

open ByteText Cpp StateProgram

/-- The members of `class MockInferenceEngine`. -/
structure Mock where
  inputElements : UInt64 := 512

namespace Mock

/-- `MockInferenceEngine::load`, `src/engine_mock.cpp:5–9`: it looks at no file, announces no
input size and always succeeds. -/
def load (_modelPath : Bytes) (s : Mock) : Bool × Mock := (true, { s with inputElements := 0 })

/-- The output element of an input element. -/
def outputElement (x : Single) : Single :=
  x * .round Ieee.binary32 false (1 / 4) + .round Ieee.binary32 false (333 / 1000)

/-- `MockInferenceEngine::infer_into`, `src/engine_mock.cpp:11–26`, on an input that has the
elements it announces: every element times a quarter plus 0.333, or a refusal. -/
def inferInto (input output : Option (List Single)) (inputElements outputCapacity : UInt64) :
    TensorRT.Inferred :=
  match input, output with
  | some values, some buffer =>
    if inputElements = 0 ∨ outputCapacity < inputElements then ⟨false, some buffer, 0⟩
    else
      let written := (values.take inputElements.toNat).map outputElement
      ⟨true, some (TensorRT.copyInto written buffer), inputElements⟩
  | _, _ => ⟨false, output, 0⟩

/-- `MockInferenceEngine::runtime_metadata`, `src/engine_mock.cpp:40–45`: a fixed version and
device. -/
def runtimeMetadata : RuntimeMetadata where
  backendVersion := ascii "deterministic-v1"
  deviceName := ascii "host-cpu"

end Mock

/-! ### Engines of either class -/

/-- An object of a class derived from `InferenceEngine`. -/
inductive Backend where
  | tensorRT (s : TensorRT.Machine)
  | mock (s : Mock)

namespace Backend

/-- The engine is the mock backend. -/
def isMock : Backend → Bool
  | .tensorRT _ => false
  | .mock _ => true

/-- `make_engine`, `src/engine_factory.cpp:9–28`, in a build with or without TensorRT: the backend
for a hint, or none. -/
def make (withTensorRT : Bool) (preferred : BackendHint) (allowMockFallback : Bool) :
    Option Backend :=
  if withTensorRT = true ∧ (preferred = .tensorRT ∨ preferred = .auto) then some (.tensorRT {})
  else if preferred = .mock then some (.mock {})
  else if allowMockFallback then some (.mock {})
  else none

variable (libraries : TensorRT.Libraries)

/-- `InferenceEngine::load`, `include/marketdata_infer/engine.h:84`: the load of the backend that
the engine is. -/
def load (modelPath : Bytes) : Backend → Bool × Backend
  | .tensorRT s => ((TensorRT.load libraries modelPath).run s).map id .tensorRT
  | .mock s => (s.load modelPath).map id .mock

/-- `InferenceEngine::enable_cuda_graph`, `include/marketdata_infer/engine.h:97–99`, which the
mock backend inherits: it refuses, while TensorRT tries to capture. -/
def enableCudaGraph : Backend → Bool × Backend
  | .tensorRT s => ((TensorRT.enableCudaGraph libraries).run s).map id .tensorRT
  | .mock s => (false, .mock s)

/-- `InferenceEngine::infer_into`, `include/marketdata_infer/engine.h:85–90`: the inference of the
backend that the engine is. -/
def inferInto (input output : Option (List Single)) (inputElements outputCapacity : UInt64) :
    Backend → TensorRT.Inferred × Backend
  | .tensorRT s =>
    ((TensorRT.inferInto libraries input output inputElements outputCapacity).run s).map id
      .tensorRT
  | .mock s => (Mock.inferInto input output inputElements outputCapacity, .mock s)

/-- `InferenceEngine::cuda_graph_enabled`, `include/marketdata_infer/engine.h:100–102`: whether
inferences replay a captured graph. -/
def cudaGraphEnabled : Backend → Bool
  | .tensorRT s => (s.handle .graphExecution).isSome
  | .mock _ => false

/-- `InferenceEngine::backend_name`, `include/marketdata_infer/engine.h:93`: the name that the
documents carry. -/
def backendName : Backend → Bytes
  | .tensorRT _ => ascii "tensorrt-gpu"
  | .mock _ => ascii "mock-cpp-cpu"

/-- `InferenceEngine::input_elements_per_batch`, `include/marketdata_infer/engine.h:91`: the size
of the input tensor, zero where any size is taken. -/
def inputElementsPerBatch : Backend → UInt64
  | .tensorRT s => s.inputBytes / 4
  | .mock s => s.inputElements

/-- `InferenceEngine::output_elements_per_batch`, `include/marketdata_infer/engine.h:92`: the size
of the output tensor, zero where it is that of the input. -/
def outputElementsPerBatch : Backend → UInt64
  | .tensorRT s => s.outputBytes / 4
  | .mock _ => 0

/-- `InferenceEngine::last_device_latency_us`, `include/marketdata_infer/engine.h:94–96`: the
device time of the last inference, if it was measured. -/
def lastDeviceLatencyUs : Backend → Option Double
  | .tensorRT s => s.lastDeviceLatencyUs
  | .mock _ => none

/-- `InferenceEngine::runtime_metadata`, `include/marketdata_infer/engine.h:103–105`: what the
backend knows of its surroundings. -/
def runtimeMetadata : Backend → RuntimeMetadata
  | .tensorRT s => s.runtimeMetadata
  | .mock _ => Mock.runtimeMetadata

end Backend

/-! ### A property of the engine in a benchmark -/

/-- A property that every call keeps holds of the engine that a run describes. -/
theorem runBenchmark_invariant {σ : Type} {engine : InferenceEngine σ} {clock : SteadyClock}
    {options : RunOptions} {s : σ} {stats : InferenceStats} {P : σ → Prop} (hs : P s)
    (hcall : ∀ s input output elements, P s → P (engine.inferInto s input output elements).engine)
    (h : runBenchmark engine clock options s = .ok stats) :
    ∃ s', P s' ∧ stats.backend = engine.backendName s' ∧
      stats.cudaGraph = engine.cudaGraphEnabled s' := by
  obtain ⟨m, hm⟩ := exists_returned h
  refine ⟨m.session.engine, ?_, hm.backend, hm.cudaGraph⟩
  rw [(runCalls_eq_ok hm.calls).1]
  exact lastSession_invariant (P := fun session ↦ P session.engine) hs
    fun session hsession ↦ hcall _ _ _ _ hsession

/-! ### Engines of either class in a benchmark -/

namespace TensorRT

/-- A copy into a buffer leaves its length. -/
@[simp] theorem length_copyInto (data buffer : List Single) :
    (copyInto data buffer).length = buffer.length := by
  rw [copyInto, List.length_append, List.length_take, List.length_drop]
  omega

private theorem ensures_true {α : Type} (x : Program α) :
    Ensures (fun _ ↦ True) x fun _ _ ↦ True := fun _ _ ↦ trivial

/-- The caller's buffer behind a call is the one before it, or has data copied into it. -/
theorem inferInto_output (libraries : Libraries) (input output : Option (List Single))
    (inputElements outputCapacity : UInt64) :
    Ensures (fun _ ↦ True) (inferInto libraries input output inputElements outputCapacity)
      fun r _ ↦ r.output = output ∨ ∃ data, r.output = output.map (copyInto data) := by
  have hsame : ∀ n : UInt64, Ensures (fun _ ↦ True) (pure ⟨false, output, n⟩ : Program Inferred)
      fun r _ ↦ r.output = output ∨ ∃ data, r.output = output.map (copyInto data) :=
    fun _ ↦ Ensures.pure fun _ _ ↦ .inl rfl
  refine Ensures.bind (ensures_true _) fun _ ↦ ?_
  refine Ensures.bind (ensures_true _) fun s ↦ ?_
  refine Ensures.ite (fun _ ↦ hsame 0) fun _ ↦ ?_
  refine Ensures.bind (ensures_true _) fun ok ↦ ?_
  refine Ensures.ite (fun _ ↦ hsame 0) fun _ ↦ ?_
  refine Ensures.bind (ensures_true _) fun _ ↦ ?_
  refine Ensures.bind (ensures_true _) fun ok ↦ ?_
  refine Ensures.ite (fun _ ↦ hsame 0) fun _ ↦ ?_
  refine Ensures.bind (ensures_true _) fun _ ↦ ?_
  refine Ensures.bind (ensures_true _) fun data ↦ ?_
  exact Ensures.pure fun _ _ ↦ .inr ⟨data, rfl⟩

/-- A positive answer comes with a graph. -/
def AnswersGraph (ok : Bool) (s : Machine) : Prop := ok = true → (s.handle .graphExecution).isSome

private theorem answersGraph_false :
    Ensures (fun _ ↦ True) (pure false : Program Bool) AnswersGraph :=
  Ensures.pure fun _ _ h ↦ by cases h

private theorem instantiate_graph (libraries : Libraries) (graph : ℕ) (contexts : List ℕ) :
    Ensures (fun _ ↦ True) (instantiate libraries graph contexts) AnswersGraph := by
  have hcreate : Ensures (fun _ ↦ True) (createInto libraries .graphExecution
      .cudaGraphInstantiateWithFlags [some graph] (.executableGraph contexts)) AnswersGraph := by
    refine Ensures.bind (ensures_true _) fun h ↦ ?_
    refine Ensures.bind (R := fun _ s ↦ s.handle .graphExecution = h) ?_ fun _ ↦ ?_
    · exact Ensures.modify fun s _ ↦ handle_set_self s.toMembers .graphExecution h
    · refine Ensures.pure fun s hs hsome ↦ ?_
      rw [hs]
      exact hsome
  exact Ensures.bind hcreate fun ok ↦ Ensures.bind (fun _ hs ↦ hs) fun _ ↦
    Ensures.pure fun _ hs ↦ hs

private theorem captureGraph_graph (libraries : Libraries) :
    Ensures (fun _ ↦ True) (captureGraph libraries) AnswersGraph := by
  refine Ensures.bind (ensures_true _) fun s ↦ ?_
  refine Ensures.bind (ensures_true _) fun capture ↦ ?_
  cases capture with
  | none => exact answersGraph_false
  | some capture =>
    refine Ensures.bind (ensures_true _) fun _ ↦ ?_
    refine Ensures.bind (ensures_true _) fun ok ↦ ?_
    refine Ensures.bind (ensures_true _) fun ⟨status, r⟩ ↦ ?_
    cases r with
    | none => exact answersGraph_false
    | some r =>
      refine Ensures.ite (fun _ ↦ ?_) fun _ ↦ instantiate_graph libraries r.1 r.2
      exact Ensures.bind (ensures_true _) fun _ ↦ answersGraph_false

/-- An engine that says it runs a graph owns one. -/
theorem enableCudaGraph_graph (libraries : Libraries) :
    Ensures (fun _ ↦ True) (enableCudaGraph libraries) AnswersGraph := by
  refine Ensures.get fun s ↦ ?_
  refine Ensures.ite (fun hsome ↦ ?_) fun _ ↦ ?_
  · refine Ensures.pure fun t ht _ ↦ ?_
    rw [ht.1]
    exact hsome
  refine Ensures.mono ?_ (P := fun _ ↦ True) (fun _ _ ↦ trivial) fun _ _ hs ↦ hs
  refine Ensures.ite (fun _ ↦ answersGraph_false) fun _ ↦ ?_
  refine Ensures.bind (ensures_true _) fun ok ↦ Ensures.ite (fun _ ↦ answersGraph_false) fun _ ↦ ?_
  refine Ensures.bind (ensures_true _) fun ok ↦ Ensures.ite (fun _ ↦ answersGraph_false) fun _ ↦ ?_
  exact captureGraph_graph libraries

end TensorRT

namespace Backend

variable (libraries : TensorRT.Libraries)

private theorem length_output (b : Backend) (input output : List Single)
    (inputElements outputCapacity : UInt64) :
    ((b.inferInto libraries (some input) (some output) inputElements outputCapacity).1.output.getD
      output).length = output.length := by
  cases b with
  | tensorRT s =>
    rcases TensorRT.inferInto_output libraries (some input) (some output) inputElements
      outputCapacity s trivial with h | ⟨data, h⟩
    · simp [inferInto, h]
    · simp [inferInto, h]
  | mock s =>
    simp only [inferInto, Mock.inferInto]
    split <;> simp

/-- An engine of either class, as `run_benchmark` calls it. -/
def asEngine : InferenceEngine Backend where
  inferInto b input output _ :=
    let answer := b.inferInto libraries (some input) (some output) (.ofNat input.length)
      (.ofNat output.length)
    ⟨answer.1.ok, answer.1.output.getD output, answer.1.outputElements, answer.2⟩
  inputElementsPerBatch := inputElementsPerBatch
  outputElementsPerBatch := outputElementsPerBatch
  backendName := backendName
  lastDeviceLatencyUs := lastDeviceLatencyUs
  cudaGraphEnabled := cudaGraphEnabled
  runtimeMetadata := runtimeMetadata
  length_output b input output _ := length_output libraries b input output _ _

/-- Between two calls. -/
def Resting : Backend → Prop
  | .tensorRT s => ∃ past k, TensorRT.Resting past k s
  | .mock _ => True

/-- The same class, with a graph or without as before. -/
structure Alike (b b' : Backend) : Prop where
  isMock : b'.isMock = b.isMock
  cudaGraphEnabled : b'.cudaGraphEnabled = b.cudaGraphEnabled

variable {libraries} {b b' : Backend}

/-- A new engine, when one is made, is of the preferred class or was allowed to be the mock. -/
theorem make_eq_some {withTensorRT : Bool} {preferred : BackendHint}
    (h : make withTensorRT preferred false = some b) :
    b.Resting ∧ (b.isMock = true ↔ preferred = .mock) := by
  unfold make at h
  split at h
  · next hc =>
    obtain rfl := Option.some.inj h
    refine ⟨⟨[], 0, TensorRT.resting_new⟩, ?_⟩
    rcases hc.2 with rfl | rfl <;> simp [isMock]
  · split at h
    · next hc =>
      obtain rfl := Option.some.inj h
      exact ⟨trivial, by simp [isMock, hc]⟩
    · cases h

/-- A load keeps the class. -/
theorem load_resting (libraries : TensorRT.Libraries) (h : b.Resting) (modelPath : Bytes) :
    (b.load libraries modelPath).2.Resting ∧
      (b.load libraries modelPath).2.isMock = b.isMock := by
  cases b with
  | mock s => exact ⟨trivial, rfl⟩
  | tensorRT s =>
    obtain ⟨past, k, hs⟩ := h
    obtain ⟨k', hs', -⟩ := TensorRT.load_resting libraries hs modelPath
    exact ⟨⟨past, k', hs'⟩, rfl⟩

/-- An engine whose answer is that it runs a graph is no mock. -/
theorem enableCudaGraph_resting (h : b.Resting) (hok : (b.enableCudaGraph libraries).1 = true) :
    (b.enableCudaGraph libraries).2.Resting ∧
      (b.enableCudaGraph libraries).2.isMock = b.isMock ∧
      (b.enableCudaGraph libraries).2.cudaGraphEnabled = true := by
  cases b with
  | mock s => cases hok
  | tensorRT s =>
    obtain ⟨past, k, hs⟩ := h
    have hs' : TensorRT.Resting past k ((TensorRT.perform libraries .enableCudaGraph).run s).2 :=
      TensorRT.perform_resting hs rfl
    exact ⟨⟨past, k, hs'⟩, rfl, TensorRT.enableCudaGraph_graph libraries s trivial hok⟩

/-- An inference keeps the class and the graph. -/
theorem inferInto_alike (h : b.Resting) (input output : List Single) (elements : UInt64) :
    (((asEngine libraries).inferInto b input output elements).engine).Resting ∧
      b.Alike ((asEngine libraries).inferInto b input output elements).engine := by
  cases b with
  | mock s => exact ⟨trivial, rfl, rfl⟩
  | tensorRT s =>
    obtain ⟨past, k, p, hpast, hlocals, hcaptured, hk, hs⟩ := h
    obtain ⟨m, hm, hend⟩ := @TensorRT.inferInto_spec libraries p k hk hcaptured (some input)
      (some output) (.ofNat input.length) (.ofNat output.length) s hs
    refine ⟨⟨past, k, { p with members := m }, hpast, hlocals, hcaptured, hk.of_handle hm, hend⟩,
      rfl, ?_⟩
    simp only [asEngine, inferInto, Prod.map_snd, cudaGraphEnabled]
    rw [hend.members, hs.members, hm]

private theorem backendName_of_alike (h : b.Alike b') : b'.backendName = b.backendName := by
  have hclass := h.isMock
  cases b <;> cases b' <;> first | rfl | cases hclass

/-- A run describes the engine that it was given. -/
theorem runBenchmark_alike {clock : SteadyClock} {options : RunOptions} {stats : InferenceStats}
    (hb : b.Resting) (h : runBenchmark (asEngine libraries) clock options b = .ok stats) :
    stats.backend = b.backendName ∧ stats.cudaGraph = b.cudaGraphEnabled := by
  have hcall : ∀ b₁ input output elements, b₁.Resting ∧ b.Alike b₁ →
      ((asEngine libraries).inferInto b₁ input output elements).engine.Resting ∧
        b.Alike ((asEngine libraries).inferInto b₁ input output elements).engine := by
    rintro b₁ input output elements ⟨hrest, halike⟩
    obtain ⟨hrest', halike'⟩ := inferInto_alike hrest input output elements
    exact ⟨hrest', halike'.isMock.trans halike.isMock,
      halike'.cudaGraphEnabled.trans halike.cudaGraphEnabled⟩
  obtain ⟨b', ⟨-, halike⟩, hname, hgraph⟩ := runBenchmark_invariant ⟨hb, rfl, rfl⟩ hcall h
  exact ⟨hname.trans (backendName_of_alike halike), hgraph.trans halike.cudaGraphEnabled⟩

end Backend

end MarketData
