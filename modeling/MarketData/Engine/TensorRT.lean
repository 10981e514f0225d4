import MarketData.Base.Ledger
import MarketData.Engine.Types

/-!
# The TensorRT engine

`src/engine_tensorrt.cpp`. Every call of the CUDA, TensorRT and ONNX libraries takes the next
answer of an arbitrary environment. The machine keeps a ledger of the calls: which handles they
create, use and destroy. A call that fails creates nothing and leaves its handle null.
-/

namespace MarketData

open ByteText Cpp Ledger

namespace TensorRT

/-- The members of the engine that own a handle. -/
inductive Slot where
  | runtime
  | engine
  | context
  | stream
  | deviceStart
  | deviceStop
  | inputDevice
  | outputDevice
  | inputHost
  | outputHost
  | graphExecution
deriving DecidableEq

/-- What a handle stands for: an object or a buffer of a member, or a local of one call. A graph
holds the contexts whose work was captured. -/
inductive Resource where
  | object (slot : Slot)
  | buffer (slot : Slot) (bytes : UInt64)
  | executableGraph (contexts : List ℕ)
  | graph (contexts : List ℕ)
  | capture
  | builder
  | network
  | parser
  | config
  | serialized
deriving DecidableEq

/-- The calls into the libraries, and the copies from and to pinned memory. -/
inductive Operation where
  | readFile
  | createInferRuntime
  | deserializeCudaEngine
  | createInferBuilder
  | createNetworkV2
  | createParser
  | parseFromFile
  | getNbErrors
  | getError
  | createBuilderConfig
  | setMemoryPoolLimit
  | buildSerializedNetwork
  | getNbIOTensors
  | getIOTensorName
  | getTensorIOMode
  | getTensorDataType
  | getTensorShape
  | createExecutionContext
  | setTensorAddress
  | enqueueV3
  | memcpy
  | cudaStreamCreateWithFlags
  | cudaStreamSynchronize
  | cudaStreamBeginCapture
  | cudaStreamEndCapture
  | cudaEventCreate
  | cudaEventRecord
  | cudaEventElapsedTime
  | cudaMalloc
  | cudaMallocHost
  | cudaMemcpyAsync
  | cudaGraphInstantiateWithFlags
  | cudaGraphLaunch
  | cudaRuntimeGetVersion
  | cudaDriverGetVersion
  | cudaGetDevice
  | cudaGetDeviceProperties
deriving DecidableEq

/-- The operation puts work on a stream. -/
def Operation.submits : Operation → Bool
  | .enqueueV3 | .cudaMemcpyAsync | .cudaEventRecord | .cudaGraphLaunch => true
  | _ => false

/-- `enum class nvinfer1::TensorIOMode`: what a tensor of the engine is to the caller. -/
inductive TensorIOMode where
  | none
  | input
  | output
deriving DecidableEq

/-- What the engine reads of `cudaDeviceProp`. -/
structure DeviceProperties where
  name : Bytes
  major : Int
  minor : Int
  totalGlobalMem : UInt64

/-- The answers of the libraries, by the number of the call. A status is whether a call succeeds
or gives an object; the other answers are what a successful call reports. -/
structure Libraries where
  succeeds : ℕ → Bool
  modelFile : ℕ → Option Bytes
  errorCount : ℕ → Int
  tensorCount : ℕ → Int
  tensorName : ℕ → Option Bytes
  tensorMode : ℕ → TensorIOMode
  tensorIsFloat : ℕ → Bool
  tensorShape : ℕ → List Int64
  givesGraph : ℕ → Bool
  elapsedMs : ℕ → Single
  outputElement : ℕ → ℕ → Single
  runtimeVersion : ℕ → Option Int
  driverVersion : ℕ → Option Int
  deviceProperties : ℕ → DeviceProperties
  version : ℕ × ℕ × ℕ

/-- The members of `class TensorRTInferenceEngine`. -/
structure Members where
  handle : Slot → Option ℕ := fun _ ↦ none
  inputBytes : UInt64 := 0
  outputBytes : UInt64 := 0
  inputName : Bytes := []
  outputName : Bytes := []
  lastDeviceLatencyUs : Option Double := none
  runtimeMetadata : RuntimeMetadata := {}

/-- A member that owns a handle is set. -/
def Members.set (m : Members) (slot : Slot) (h : Option ℕ) : Members :=
  { m with handle := Function.update m.handle slot h }

/-- The engine, the number of answers taken and of handles given so far, the contexts whose work
went into the capture, while one is under way, and the ledger. -/
structure Machine extends Members where
  answered : ℕ := 0
  next : ℕ := 0
  captured : Option (List ℕ) := none
  log : List (Entry ℕ Resource Operation) := []

/-- A member of the machine is set. -/
def Machine.set (s : Machine) (slot : Slot) (h : Option ℕ) : Machine :=
  { s with toMembers := s.toMembers.set slot h }

/-- A program of the engine. -/
abbrev Program := StateM Machine

/-! ### Calls into the libraries -/

/-- The next answer, to an operation on some handles. -/
def invoke {α : Type} (op : Operation) (ids : List (Option ℕ)) (answer : ℕ → α) : Program α :=
  modifyGet fun s ↦ (answer s.answered,
    { s with answered := s.answered + 1, log := s.log ++ [.use op ids] })

/-- A new handle. -/
def create (what : Resource) : Program ℕ :=
  modifyGet fun s ↦ (s.next, { s with next := s.next + 1, log := s.log ++ [.create s.next what] })

/-- The end of a handle. -/
def destroy (id : ℕ) : Program Unit :=
  modify fun s ↦ { s with log := s.log ++ [.destroy id] }

variable (libraries : Libraries)

/-- A call that creates something, or fails. -/
def tryCreate (op : Operation) (ids : List (Option ℕ)) (what : Resource) :
    Program (Option ℕ) := do
  if ← invoke op ids libraries.succeeds then
    let id ← create what
    return some id
  else
    return none

/-- A call that creates what a member owns, or leaves it null. -/
def createInto (slot : Slot) (op : Operation) (ids : List (Option ℕ)) (what : Resource) :
    Program Bool := do
  let h ← tryCreate libraries op ids what
  modify (·.set slot h)
  return h.isSome

/-- A local `std::unique_ptr`: its object is destroyed when the scope ends. -/
def withLocal (op : Operation) (ids : List (Option ℕ)) (what : Resource)
    (body : ℕ → Program Bool) : Program Bool := do
  match ← tryCreate libraries op ids what with
  | none => return false
  | some id =>
    let answer ← body id
    destroy id
    return answer

/-! ### Resources -/

/-- The end of what a member owns. -/
def release (slot : Slot) : Program Unit := do
  match (← get).handle slot with
  | none => return
  | some id =>
    destroy id
    modify (·.set slot none)

/-- The end of what the members own, one after the other. -/
def releaseAll : List Slot → Program Unit
  | [] => return
  | slot :: slots => do
    release slot
    releaseAll slots

/-- The wait for the stream, when there is one. -/
def synchronize : Program Unit := do
  let s ← get
  if (s.handle .stream).isSome then
    let _ ← invoke .cudaStreamSynchronize [s.handle .stream] libraries.succeeds

/-- `TensorRTInferenceEngine::destroyResources`, `src/engine_tensorrt.cpp:77–127`, which is also
the destructor: it waits for the stream and gives back every member. -/
def destroyResources : Program Unit := do
  synchronize libraries
  releaseAll [.deviceStart, .deviceStop, .graphExecution, .stream, .inputHost, .outputHost,
    .inputDevice, .outputDevice, .context, .engine, .runtime]
  modify fun s ↦ { s with
    inputBytes := 0
    outputBytes := 0
    inputName := []
    outputName := []
    lastDeviceLatencyUs := none
    runtimeMetadata := {} }

/-! ### Loading -/

/-- The loop of `checked_volume`, from the product of the extents before. -/
def checkedProduct (result : UInt64) : List Int64 → Option UInt64
  | [] => some result
  | d :: dims =>
    if d ≤ 0 then none
    else if result > UInt64.ofNat (2 ^ 64 - 1) / d.toUInt64 then none
    else checkedProduct (result * d.toUInt64) dims

/-- `checked_volume`, `src/engine_tensorrt.cpp:23–39`: the number of elements of a shape, if the
extents are positive and their product fits a word. -/
def checkedVolume (dims : List Int64) : Option UInt64 :=
  if dims.isEmpty then none else checkedProduct 1 dims

/-- `std::to_string` of an `int`: its decimal numeral. -/
def toString (n : Int) : Bytes :=
  if n < 0 then 45 :: decimal n.natAbs else decimal n.natAbs

/-- `cuda_version_string`, `src/engine_tensorrt.cpp:49–56`: the major and the minor part of a
version number. -/
def cudaVersionString (version : Int) : Bytes :=
  if version ≤ 0 then []
  else decimal (version.toNat / 1000) ++ [46] ++ decimal (version.toNat % 1000 / 10)

/-- The loop over the tensors: the names of the only input and the only output. -/
def nameTensors : ℕ → Program Bool
  | 0 => return true
  | remaining + 1 => do
    let s ← get
    match ← invoke .getIOTensorName [s.handle .engine] libraries.tensorName with
    | none => nameTensors remaining
    | some name =>
      match ← invoke .getTensorIOMode [s.handle .engine] libraries.tensorMode with
      | .none => nameTensors remaining
      | .input =>
        if s.inputName ≠ [] then return false
        modify fun s ↦ { s with inputName := name }
        nameTensors remaining
      | .output =>
        if s.outputName ≠ [] then return false
        modify fun s ↦ { s with outputName := name }
        nameTensors remaining

/-- The first part of `initializeExecution`: the tensors and their sizes. -/
def readTensors : Program Bool := do
  let engine := (← get).handle .engine
  let count ← invoke .getNbIOTensors [engine] libraries.tensorCount
  if !(← nameTensors libraries count.toNat) then return false
  let s ← get
  if s.inputName = [] ∨ s.outputName = [] then return false
  if !(← invoke .getTensorDataType [engine] libraries.tensorIsFloat) then return false
  if !(← invoke .getTensorDataType [engine] libraries.tensorIsFloat) then return false
  let input ← invoke .getTensorShape [engine] libraries.tensorShape
  let output ← invoke .getTensorShape [engine] libraries.tensorShape
  match checkedVolume input, checkedVolume output with
  | some inputElements, some outputElements =>
    modify fun s ↦ { s with
      inputBytes := inputElements * 4
      outputBytes := outputElements * 4 }
    return true
  | _, _ => return false

/-- The second part of `initializeExecution`: the context, and the chain of creations behind it. -/
def createExecution : Program Bool := do
  let s ← get
  if !(← createInto libraries .context .createExecutionContext [s.handle .engine]
      (.object .context)) then
    return false
  if !(← createInto libraries .stream .cudaStreamCreateWithFlags [] (.object .stream)) then
    return false
  if !(← createInto libraries .deviceStart .cudaEventCreate [] (.object .deviceStart)) then
    return false
  if !(← createInto libraries .deviceStop .cudaEventCreate [] (.object .deviceStop)) then
    return false
  if !(← createInto libraries .inputDevice .cudaMalloc [] (.buffer .inputDevice s.inputBytes)) then
    return false
  if !(← createInto libraries .outputDevice .cudaMalloc []
      (.buffer .outputDevice s.outputBytes)) then
    return false
  if !(← createInto libraries .inputHost .cudaMallocHost [] (.buffer .inputHost s.inputBytes)) then
    return false
  createInto libraries .outputHost .cudaMallocHost [] (.buffer .outputHost s.outputBytes)

/-- The third part of `initializeExecution`: the addresses of the tensors. -/
def bindTensors : Program Bool := do
  let s ← get
  if !(← invoke .setTensorAddress [s.handle .context, s.handle .inputDevice]
      libraries.succeeds) then
    return false
  invoke .setTensorAddress [s.handle .context, s.handle .outputDevice] libraries.succeeds

/-- The name, capability and memory of the device, where both calls succeed. -/
def readDevice (metadata : RuntimeMetadata) : Program RuntimeMetadata := do
  if !(← invoke .cudaGetDevice [] libraries.succeeds) then return metadata
  let n := (← get).answered
  if !(← invoke .cudaGetDeviceProperties [] libraries.succeeds) then return metadata
  let properties := libraries.deviceProperties n
  return { metadata with
    deviceName := properties.name
    computeCapability := toString properties.major ++ [46] ++ toString properties.minor
    deviceMemoryBytes := properties.totalGlobalMem }

/-- The last part of `initializeExecution`: the runtime metadata. -/
def readMetadata : Program Unit := do
  let metadata := (← get).runtimeMetadata
  let runtimeVersion ← invoke .cudaRuntimeGetVersion [] libraries.runtimeVersion
  let driverVersion ← invoke .cudaDriverGetVersion [] libraries.driverVersion
  let metadata ← readDevice libraries { metadata with
    backendVersion := decimal libraries.version.1 ++ [46] ++ decimal libraries.version.2.1 ++
      [46] ++ decimal libraries.version.2.2
    cudaRuntimeVersion := (runtimeVersion.map cudaVersionString).getD metadata.cudaRuntimeVersion
    cudaDriverVersion := (driverVersion.map cudaVersionString).getD metadata.cudaDriverVersion }
  modify fun s ↦ { s with runtimeMetadata := metadata }

/-- `TensorRTInferenceEngine::initializeExecution`, `src/engine_tensorrt.cpp:129–220`: the
tensors, the context, the stream, the buffers and the metadata of an engine that is there. -/
def initializeExecution : Program Bool := do
  if ((← get).handle .engine).isNone then return false
  if !(← readTensors libraries) then return false
  if !(← createExecution libraries) then return false
  if !(← bindTensors libraries) then return false
  readMetadata libraries
  return true

/-- The runtime and the engine, which reads its plan from the handles given, and what comes
behind them. -/
def deserialize (plan : List (Option ℕ)) : Program Bool := do
  if !(← createInto libraries .runtime .createInferRuntime [] (.object .runtime)) then
    return false
  let s ← get
  if !(← createInto libraries .engine .deserializeCudaEngine (s.handle .runtime :: plan)
      (.object .engine)) then
    return false
  initializeExecution libraries

/-- `TensorRTInferenceEngine::loadSerializedEngine`, `src/engine_tensorrt.cpp:222–248`: an engine
from the bytes of a plan file. -/
def loadSerializedEngine : Program Bool := do
  match ← invoke .readFile [] libraries.modelFile with
  | none => return false
  | some data => if data = [] then return false else deserialize libraries []

/-- The loop over the errors of the parser, which asks for their number at every turn. The index
is an `int32_t`, so there are fewer than `2 ^ 31` turns. -/
def printErrors (parser : ℕ) : ℕ → ℕ → Program Unit
  | 0, _ => return
  | turns + 1, i => do
    let count ← invoke .getNbErrors [some parser] libraries.errorCount
    if (i : Int) < count then
      let _ ← invoke .getError [some parser] libraries.succeeds
      printErrors parser turns (i + 1)

/-- `TensorRTInferenceEngine::loadOnnx`, `src/engine_tensorrt.cpp:250–302`: an engine that is
built from a parsed network; the objects of the build are released at the end. -/
def loadOnnx : Program Bool :=
  withLocal libraries .createInferBuilder [] .builder fun builder ↦
  withLocal libraries .createNetworkV2 [some builder] .network fun network ↦
  withLocal libraries .createParser [some network] .parser fun parser ↦ do
    if !(← invoke .parseFromFile [some parser] libraries.succeeds) then
      printErrors libraries parser (2 ^ 31) 0
      return false
    withLocal libraries .createBuilderConfig [some builder] .config fun config ↦ do
      let _ ← invoke .setMemoryPoolLimit [some config] libraries.succeeds
      withLocal libraries .buildSerializedNetwork [some builder, some network, some config]
        .serialized fun serialized ↦ deserialize libraries [some serialized]

/-- `TensorRTInferenceEngine::load`, `src/engine_tensorrt.cpp:304–311`: the members of an earlier
load are destroyed, and the file name tells what is loaded. -/
def load (modelPath : Bytes) : Program Bool := do
  destroyResources libraries
  if ascii ".onnx" <:+ modelPath then loadOnnx libraries else loadSerializedEngine libraries

/-! ### Inference -/

/-- The answer to one call of `infer_into`: the caller's buffer and element count behind it. -/
structure Inferred where
  ok : Bool
  output : Option (List Single)
  outputElements : UInt64

/-- The entry checks of `infer_into`, `src/engine_tensorrt.cpp:321–335`: null handles, null
pointers and sizes. -/
def Members.passesChecks (s : Members) (input output : Option (List Single))
    (inputElements outputCapacity : UInt64) : Bool :=
  ([.context, .stream, .inputDevice, .outputDevice, .inputHost, .outputHost] : List Slot).all
      (fun slot ↦ (s.handle slot).isSome) &&
    input.isSome && output.isSome && inputElements != 0 &&
    inputElements * 4 == s.inputBytes && s.outputBytes / 4 ≤ outputCapacity

/-- `std::memcpy` of `data` to the start of a buffer; what is behind stays. -/
def copyInto (data : List Single) (buffer : List Single) : List Single :=
  data.take buffer.length ++ buffer.drop data.length

/-- `enqueueV3`, whose work goes into the capture while one is under way and to the stream
otherwise. -/
def enqueue : Program Bool := do
  let s ← get
  let ok ← invoke .enqueueV3 [s.handle .context, s.handle .stream] libraries.succeeds
  let work := if ok then (s.handle .context).toList else []
  modify fun s ↦ { s with captured := s.captured.map (· ++ work) }
  return ok

/-- The graph, when there is one, or else the enqueued work. -/
def launch : Program Bool := do
  let s ← get
  if (s.handle .graphExecution).isSome then
    invoke .cudaGraphLaunch [s.handle .graphExecution, s.handle .stream] libraries.succeeds
  else
    enqueue libraries

/-- The work of one inference: the copies, the events and the launch between them. -/
def submitInference : Program Bool := do
  let s ← get
  let _ ← invoke .memcpy [s.handle .inputHost] libraries.succeeds
  if !(← invoke .cudaMemcpyAsync
      [s.handle .inputDevice, s.handle .inputHost, s.handle .stream] libraries.succeeds) then
    return false
  if !(← invoke .cudaEventRecord [s.handle .deviceStart, s.handle .stream]
      libraries.succeeds) then
    return false
  if !(← launch libraries) then return false
  if !(← invoke .cudaEventRecord [s.handle .deviceStop, s.handle .stream]
      libraries.succeeds) then
    return false
  if !(← invoke .cudaMemcpyAsync
      [s.handle .outputHost, s.handle .outputDevice, s.handle .stream] libraries.succeeds) then
    return false
  invoke .cudaStreamSynchronize [s.handle .stream] libraries.succeeds

/-- `TensorRTInferenceEngine::infer_into`, `src/engine_tensorrt.cpp:313–371`: the checks, the two
copies around the inference, the wait for the stream and the caller's buffer. -/
def inferInto (input output : Option (List Single)) (inputElements outputCapacity : UInt64) :
    Program Inferred := do
  modify fun s ↦ { s with lastDeviceLatencyUs := none }
  let s ← get
  if !s.passesChecks input output inputElements outputCapacity then return ⟨false, output, 0⟩
  let expectedOutputElements := s.outputBytes / 4
  if !(← submitInference libraries) then return ⟨false, output, 0⟩
  let n := (← get).answered
  if !(← invoke .cudaEventElapsedTime [s.handle .deviceStart, s.handle .deviceStop]
      libraries.succeeds) then
    return ⟨false, output, 0⟩
  let elapsedMs := libraries.elapsedMs n
  modify fun s ↦
    { s with lastDeviceLatencyUs := some (elapsedMs.convert Ieee.binary64 * literal 1000) }
  let data ← invoke .memcpy [s.handle .outputHost] fun n ↦
    (List.range expectedOutputElements.toNat).map (libraries.outputElement n)
  return ⟨true, output.map (copyInto data), expectedOutputElements⟩

/-! ### Graph capture -/

/-- `cudaStreamEndCapture`: its status, and the graph with the contexts that went into it. -/
def endCapture (capture : ℕ) : Program (Bool × Option (ℕ × List ℕ)) := do
  let s ← get
  let n := s.answered
  let status ← invoke .cudaStreamEndCapture [s.handle .stream, some capture] libraries.succeeds
  modify fun s ↦ { s with captured := none }
  destroy capture
  if libraries.givesGraph n then
    let contexts := s.captured.getD []
    let graph ← create (.graph contexts)
    return (status, some (graph, contexts))
  else
    return (status, none)

/-- The end of `enable_cuda_graph`, `src/engine_tensorrt.cpp:423–430`, behind a capture that gave
a graph. -/
def instantiate (graph : ℕ) (contexts : List ℕ) : Program Bool := do
  let ok ← createInto libraries .graphExecution .cudaGraphInstantiateWithFlags [some graph]
    (.executableGraph contexts)
  destroy graph
  return ok

/-- The capture of `enable_cuda_graph`, `src/engine_tensorrt.cpp:403–430`, behind the priming of
the context. -/
def captureGraph : Program Bool := do
  let s ← get
  match ← tryCreate libraries .cudaStreamBeginCapture [s.handle .stream] .capture with
  | none => return false
  | some capture =>
    modify fun s ↦ { s with captured := some [] }
    let enqueueSucceeded ← enqueue libraries
    let (captureStatus, graph) ← endCapture libraries capture
    match graph with
    | none => return false
    | some (graph, contexts) =>
      if !enqueueSucceeded ∨ !captureStatus then
        destroy graph
        return false
      instantiate libraries graph contexts

/-- `TensorRTInferenceEngine::enable_cuda_graph`, `src/engine_tensorrt.cpp:389–431`: an inference
that primes the context, then the capture of another and the graph of it, unless there is one
already. -/
def enableCudaGraph : Program Bool := do
  let s ← get
  if (s.handle .graphExecution).isSome then return true
  if (s.handle .context).isNone ∨ (s.handle .stream).isNone then return false
  if !(← enqueue libraries) then return false
  if !(← invoke .cudaStreamSynchronize [s.handle .stream] libraries.succeeds) then return false
  captureGraph libraries

/-! ### Runs -/

/-- The calls that the owner of an engine makes. -/
inductive Call where
  | load (modelPath : Bytes)
  | inferInto (input output : Option (List Single)) (inputElements outputCapacity : UInt64)
  | enableCudaGraph

/-- The call is a load. -/
def Call.isLoad : Call → Bool
  | .load _ => true
  | .inferInto .. => false
  | .enableCudaGraph => false

/-- One call, with the answer of the engine. -/
def perform : Call → Program Bool
  | .load modelPath => load libraries modelPath
  | .inferInto input output inputElements outputCapacity =>
    Inferred.ok <$> inferInto libraries input output inputElements outputCapacity
  | .enableCudaGraph => enableCudaGraph libraries

/-- The machine behind some calls on a new engine. -/
def reached (calls : List Call) : Machine :=
  calls.foldl (fun s call ↦ ((perform libraries call).run s).2) {}

/-- The ledger of an engine that is destroyed behind some calls. -/
def lifetime (calls : List Call) : List (Entry ℕ Resource Operation) :=
  ((destroyResources libraries).run (reached libraries calls)).2.log

end TensorRT

end MarketData
