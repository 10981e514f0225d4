import MarketData.Engine.Atomicity
import MarketData.Engine.Calls
import MarketData.Engine.Capture
import MarketData.Engine.Dataflow
import MarketData.Engine.Eager

/-!
# What inferences compute

In every run of calls an inference that succeeds returns the network's answer to its own input,
whatever the device does when, whichever calls failed before and whether or not a graph is launched.
So the identity validation of a benchmark judges the network.
-/

namespace MarketData

open ByteText Cpp Ledger StateProgram Streams

namespace TensorRT

/-! ### Runs of calls -/

/-- The state behind one more call. -/
theorem reached_concat (libraries : Libraries) (calls : List Call) (call : Call) :
    reached libraries (calls ++ [call]) =
      ((perform libraries call).run (reached libraries calls)).2 := by
  rw [reached_append]
  rfl

section

variable {past : List (Entry ℕ Resource Operation)} {k : ℕ} {s : Machine}

private theorem Resting.unique (h : Resting past k s) :
    ∀ slot slot' id, s.handle slot = some id → s.handle slot' = some id → slot = slot' := by
  obtain ⟨p, -, -, -, -, hs⟩ := h
  intro slot slot' id hid hid'
  rw [hs.members] at hid hid'
  exact hs.slot_unique hid hid'

private theorem Resting.pins (h : Resting past k s) : Pins s.handle s.outputBytes s.log := by
  obtain ⟨p, -, -, -, -, hs⟩ := h
  rw [hs.members]
  constructor
  · intro slot id hid slot' bytes hmem
    have heq := hs.lawful.content_unique hmem (hs.held slot id hid).1
    have hslot := congrArg Resource.slot? heq
    rw [slot?_resource] at hslot
    exact Option.some.inj hslot
  · intro id hid bytes hmem
    have heq := hs.lawful.content_unique hmem (hs.held .outputHost id hid).1
    exact (Resource.buffer.inj heq).2

variable {world : World}

private theorem inferInto_infers (hs : Resting past k s) (hquiet : Quiet world s)
    (input output : Option (List Single)) (inputElements outputCapacity : UInt64) :
    let answer := (inferInto world.libraries input output inputElements outputCapacity).run s
    Held world s.handle s.outputBytes (fun d ↦ Coherent world s.handle none d ∧
      Infers world s.handle s.outputBytes (world.written s.answered) output answer.1) answer.2 :=
  inferInto_held hs.unique input output inputElements outputCapacity s
    ⟨rfl, rfl, hs.pins, fun d hd ↦ ⟨(hquiet d hd).1, (hquiet d hd).2, (hquiet d hd).1⟩⟩

/-- Behind any calls every device is coherent. -/
theorem reached_quiet (calls : List Call) : Quiet world (reached world.libraries calls) := by
  induction calls using List.reverseRecOn with
  | nil => exact quiet_new
  | append_singleton calls call ih =>
    obtain ⟨k, hk⟩ := reached_resting world.libraries calls
    rw [reached_append]
    cases call with
    | load modelPath => exact load_quiet hk (ih.imp fun _ _ ↦ trivial) modelPath
    | inferInto input output inputElements outputCapacity =>
      obtain ⟨howns, -, hbehind⟩ :=
        inferInto_infers hk ih input output inputElements outputCapacity
      change Quiet world
        ((inferInto world.libraries input output inputElements outputCapacity).run _).2
      rw [Quiet, howns]
      exact hbehind.imp fun d hd ↦ hd.1
    | enableCudaGraph =>
      have hseparate : Separate (reached world.libraries calls).handle :=
        fun id hid hid' ↦ nomatch hk.unique .inputHost .outputDevice id hid hid'
      exact enableCudaGraph_quiet hseparate _ ⟨rfl, ih⟩

end

/-- What the copy to the pinned input takes of an input. -/
def tensorOf (s : Machine) (input : List Single) : List Single :=
  input.take (s.inputBytes / 4).toNat

/-- The network's answer to an input, as far as the output tensor reaches. -/
def answerOf (world : World) (s : Machine) (input : List Single) : Option (List Single) :=
  (s.handle .context).map fun context ↦
    elements (s.outputBytes / 4).toNat (world.net context (tensorOf s input))

/-- What an inference answers behind some calls. -/
def inferred (libraries : Libraries) (calls : List Call) (input : List Single)
    (output : Option (List Single)) (inputElements outputCapacity : UInt64) : Inferred :=
  ((inferInto libraries (some input) output inputElements outputCapacity).run
    (reached libraries calls)).1

section

variable {world : World} {input : List Single} {output : Option (List Single)}
  {inputElements outputCapacity : UInt64} {d : Device}

private theorem inferred_answer {calls : List Call}
    (hinput : world.written (reached world.libraries calls).answered =
      tensorOf (reached world.libraries calls) input)
    (hd : After world (reached world.libraries (calls ++
      [.inferInto (some input) output inputElements outputCapacity])).log d)
    (hok : (inferred world.libraries calls input output inputElements outputCapacity).ok = true) :
    ∃ answer, answerOf world (reached world.libraries calls) input = some answer ∧
      (inferred world.libraries calls input output inputElements outputCapacity).output =
        output.map (copyInto answer) ∧
      (inferred world.libraries calls input output inputElements outputCapacity).outputElements =
        (reached world.libraries calls).outputBytes / 4 := by
  obtain ⟨k, hk⟩ := reached_resting world.libraries calls
  have hinfers := inferInto_infers hk (reached_quiet calls) (some input) output inputElements
    outputCapacity
  rw [reached_append] at hd
  obtain ⟨context, hcontext, houtput, helements⟩ := (hinfers.behind d hd).2.2 hok
  rw [hinput] at houtput
  refine ⟨_, ?_, houtput, helements⟩
  rw [answerOf, hcontext]
  rfl

/-- Behind any calls, whatever was loaded, captured and answered before and whichever calls have
failed, an inference that succeeds copies the network's answer to its own input into the caller's
buffer. -/
theorem inference_computes (earlier : List Call)
    (hinput : world.written (reached world.libraries earlier).answered =
      tensorOf (reached world.libraries earlier) input)
    (hd : After world (reached world.libraries (earlier ++
      [.inferInto (some input) output inputElements outputCapacity])).log d)
    (hok : (inferred world.libraries earlier input output inputElements outputCapacity).ok = true) :
    ∃ answer, answerOf world (reached world.libraries earlier) input = some answer ∧
      (inferred world.libraries earlier input output inputElements outputCapacity).output =
        output.map (copyInto answer) := by
  obtain ⟨answer, hanswer, houtput, -⟩ := inferred_answer hinput hd hok
  exact ⟨answer, hanswer, houtput⟩

end

/-! ### A loaded engine -/

/-- A world whose network repeats its input, and in which all inputs are zero. -/
def zeroWorld : World := ⟨failingAt 64, fun _ input ↦ input, fun _ ↦ [0]⟩

/-- The only load of an engine. -/
def onlyLoad : List Call := [.load (ascii "model.engine")]

/-- A loaded engine answers what the network computes. -/
theorem inference_computes_loaded :
    ∃ answer, answerOf zeroWorld (reached zeroWorld.libraries onlyLoad) [0] = some answer ∧
      (inferred zeroWorld.libraries onlyLoad [0] (some [.nan, .nan]) 1 2).output =
        some (copyInto answer [.nan, .nan]) := by
  obtain ⟨d, hd⟩ : ∃ d, Device.followAll zeroWorld (reached zeroWorld.libraries
      (onlyLoad ++ [.inferInto (some [0]) (some [.nan, .nan]) 1 2])).log = some d :=
    Option.isSome_iff_exists.mp (by decide +kernel)
  exact inference_computes onlyLoad (by decide +kernel) (after_followAll hd) (by decide +kernel)

/-! ### The tensors between two loads -/

section

variable {libraries : Libraries} {s t : Machine}

/-- The context and the sizes of the tensors are those of another machine. -/
def SameTensors (s : Machine) (m : Members) : Prop :=
  m.handle .context = s.handle .context ∧ m.inputBytes = s.inputBytes ∧
    m.outputBytes = s.outputBytes

private theorem inferInto_tensors (input output : Option (List Single))
    (inputElements outputCapacity : UInt64) : Keeps (On (SameTensors s))
      (inferInto libraries input output inputElements outputCapacity) := by
  have hstay : ∀ t, On (SameTensors s) t → On (SameTensors s) t := fun _ ht ↦ ht
  have hlatency : ∀ latency, Keeps (On (SameTensors s))
      (modify fun t ↦ { t with lastDeviceLatencyUs := latency } : Program Unit) := fun _ _ ht ↦ ht
  refine Ensures.bind (hlatency none) fun _ ↦ Ensures.get_any fun t ↦ ?_
  refine Ensures.ite (fun _ ↦ hstay) fun _ ↦ ?_
  refine Keeps.orReturn submitInference_on hstay (Ensures.get_any fun t ↦ ?_)
  refine Keeps.orReturn invoke_on hstay ?_
  exact Ensures.bind (hlatency _) fun _ ↦ Ensures.bind invoke_on fun _ _ ht ↦ ht

private theorem perform_tensors {call : Call} (hcall : call.isLoad = false) :
    Keeps (On (SameTensors s)) (perform libraries call) := by
  cases call with
  | load modelPath => cases hcall
  | inferInto input output inputElements outputCapacity =>
    exact inferInto_tensors input output inputElements outputCapacity
  | enableCudaGraph =>
    refine enableCudaGraph_on fun m h hm ↦ ⟨?_, hm.2⟩
    rw [handle_set_of_ne _ _ (by decide)]
    exact hm.1

/-- Calls that are no loads leave the context and the sizes. -/
theorem reached_tensors (libraries : Libraries) (calls : List Call) {later : List Call}
    (hlater : ∀ call ∈ later, call.isLoad = false) :
    SameTensors (reached libraries calls) (reached libraries (calls ++ later)).toMembers := by
  induction later using List.reverseRecOn with
  | nil =>
    rw [List.append_nil]
    exact ⟨rfl, rfl, rfl⟩
  | append_singleton later call ih =>
    rw [← List.append_assoc, reached_concat]
    exact perform_tensors (hlater call (by simp)) _ (ih fun c hc ↦ hlater c (by simp [hc]))

private theorem tensorOf_same {input : List Single} (h : SameTensors s t.toMembers) :
    tensorOf t input = tensorOf s input := by
  rw [tensorOf, tensorOf, h.2.1]

private theorem answerOf_same {world : World} {input : List Single}
    (h : SameTensors s t.toMembers) : answerOf world t input = answerOf world s input := by
  rw [answerOf, answerOf, tensorOf_same h, h.1, h.2.2]

/-- The ledger only grows. -/
theorem log_growing (libraries : Libraries) (calls later : List Call) :
    (reached libraries calls).log <+: (reached libraries (calls ++ later)).log := by
  induction later using List.reverseRecOn with
  | nil => rw [List.append_nil]
  | append_singleton later call ih =>
    refine ih.trans ?_
    obtain ⟨k, hk⟩ := reached_resting libraries (calls ++ later)
    have hstart := hk.restart
    have hend : ∃ k', Resting (reached libraries (calls ++ later)).log k'
        (reached libraries (calls ++ (later ++ [call]))) := by
      rw [← List.append_assoc, reached_concat]
      cases call with
      | load modelPath =>
        obtain ⟨k', hk', -⟩ := load_resting libraries hstart modelPath
        exact ⟨k', hk'⟩
      | inferInto => exact ⟨k, perform_resting hstart rfl⟩
      | enableCudaGraph => exact ⟨k, perform_resting hstart rfl⟩
    obtain ⟨k', p, hpast, -, -, -, hs⟩ := hend
    rw [← hpast]
    exact hs.past

end

section

variable {world : World} {input : List Single} {output : Option (List Single)}
  {inputElements outputCapacity : UInt64} {d : Device}

/-- Two inferences of one input that both succeed return the same, when no load came between them.
A graph that was captured in between computes what the engine computed without it. -/
theorem graph_agrees (earlier between : List Call)
    (hbetween : ∀ call ∈ between, call.isLoad = false)
    (hfirst : world.written (reached world.libraries earlier).answered =
      tensorOf (reached world.libraries earlier) input)
    (hsecond : world.written (reached world.libraries (earlier ++
        .inferInto (some input) output inputElements outputCapacity :: between)).answered =
      tensorOf (reached world.libraries earlier) input)
    (hd : After world (reached world.libraries (earlier ++
      .inferInto (some input) output inputElements outputCapacity :: between ++
        [.inferInto (some input) output inputElements outputCapacity])).log d)
    (hok : (inferred world.libraries earlier input output inputElements outputCapacity).ok = true)
    (hok' : (inferred world.libraries (earlier ++
      .inferInto (some input) output inputElements outputCapacity :: between) input output
        inputElements outputCapacity).ok = true) :
    (inferred world.libraries (earlier ++
        .inferInto (some input) output inputElements outputCapacity :: between) input output
          inputElements outputCapacity).output =
      (inferred world.libraries earlier input output inputElements outputCapacity).output := by
  have hsame : SameTensors (reached world.libraries earlier) (reached world.libraries (earlier ++
      .inferInto (some input) output inputElements outputCapacity :: between)).toMembers :=
    reached_tensors world.libraries earlier (List.forall_mem_cons.mpr ⟨rfl, hbetween⟩)
  rw [← tensorOf_same hsame] at hsecond
  obtain ⟨answer', hanswer', houtput', -⟩ := inferred_answer hsecond hd hok'
  obtain ⟨d', hd'⟩ : ∃ d', After world (reached world.libraries (earlier ++
      [.inferInto (some input) output inputElements outputCapacity])).log d' := by
    obtain ⟨more, hmore⟩ := log_growing world.libraries (earlier ++
      [.inferInto (some input) output inputElements outputCapacity])
      (between ++ [.inferInto (some input) output inputElements outputCapacity])
    rw [List.append_assoc, List.cons_append, ← List.singleton_append (l := between ++ _),
      ← List.append_assoc, ← hmore] at hd
    obtain ⟨d', hd', -⟩ := hd.exists_before
    exact ⟨d', hd'⟩
  obtain ⟨answer, hanswer, houtput, -⟩ := inferred_answer hfirst hd' hok
  rw [answerOf_same hsame, hanswer] at hanswer'
  rw [houtput', houtput, Option.some.inj hanswer']

end

/-- A loaded engine answers the same before and behind the capture of a graph. -/
theorem graph_agrees_captured :
    ((enableCudaGraph zeroWorld.libraries).run (reached zeroWorld.libraries (onlyLoad ++
        [.inferInto (some [0]) (some [.nan]) 1 1]))).1 = true ∧
      (inferred zeroWorld.libraries (onlyLoad ++ [.inferInto (some [0]) (some [.nan]) 1 1,
          .enableCudaGraph]) [0] (some [.nan]) 1 1).output =
        (inferred zeroWorld.libraries onlyLoad [0] (some [.nan]) 1 1).output := by
  obtain ⟨d, hd⟩ : ∃ d, Device.followAll zeroWorld (reached zeroWorld.libraries
      (onlyLoad ++ [.inferInto (some [0]) (some [.nan]) 1 1, .enableCudaGraph] ++
        [.inferInto (some [0]) (some [.nan]) 1 1])).log = some d :=
    Option.isSome_iff_exists.mp (by decide +kernel)
  refine ⟨by decide +kernel, ?_⟩
  exact graph_agrees onlyLoad [.enableCudaGraph] (by decide) (by decide +kernel) (by decide +kernel)
    (after_followAll hd) (by decide +kernel) (by decide +kernel)

end TensorRT

/-! ### The validation of a benchmark -/

namespace Backend

open TensorRT

/-- The ledger of an engine. -/
def log : Backend → List (Entry ℕ Resource Operation)
  | .tensorRT s => s.log
  | .mock _ => []

private theorem exists_reached (libraries : Libraries) (calls : List Call) (options : RunOptions)
    (call : ℕ) :
    ∃ later, (∀ c ∈ later, c.isLoad = false) ∧
      (sessionOf (asEngine libraries) options (.tensorRT (reached libraries calls)) call).engine =
        .tensorRT (reached libraries (calls ++ later)) := by
  induction call with
  | zero =>
    refine ⟨[], nofun, ?_⟩
    rw [List.append_nil]
    rfl
  | succ call ih =>
    obtain ⟨later, hlater, hengine⟩ := ih
    let session := sessionOf (asEngine libraries) options (.tensorRT (reached libraries calls)) call
    refine ⟨later ++ [.inferInto (some (benchmarkInput options.totalInput)) (some session.output)
      (.ofNat (benchmarkInput options.totalInput).length) (.ofNat session.output.length)], ?_, ?_⟩
    · simpa [or_imp, forall_and] using ⟨hlater, rfl⟩
    · have hnext : (sessionOf (asEngine libraries) options (.tensorRT (reached libraries calls))
          (call + 1)).engine = (session.engine.inferInto libraries
            (some (benchmarkInput options.totalInput)) (some session.output)
            (.ofNat (benchmarkInput options.totalInput).length)
            (.ofNat session.output.length)).2 := by
        rw [sessionOf, Function.iterate_succ_apply']
        rfl
      rw [hnext, hengine, ← List.append_assoc, reached_concat]
      rfl

private theorem getElem?_answer {data buffer : List Single} {index : ℕ} (h : index < data.length)
    (hle : data.length ≤ buffer.length) : (copyInto data buffer)[index]? = data[index]? := by
  rw [copyInto, List.getElem?_append_left (by rw [List.length_take]; omega), List.getElem?_take,
    if_pos (by omega)]

section

variable {world : World} {clock : SteadyClock} {options : RunOptions} {calls : List Call}
  {d : Device}

-- The last call of a run leaves the network's answer to the input of the benchmark in the buffer
-- that the validation reads.
private theorem last_answer {m : Measurement Backend}
    (hchecked : checkRun (asEngine world.libraries) options
      (.tensorRT (reached world.libraries calls)) = .ok ())
    (hm : runCalls (asEngine world.libraries) clock options
      (.tensorRT (reached world.libraries calls)) = .ok m)
    (hinput : ∀ n ≥ (reached world.libraries calls).answered, world.written n =
      tensorOf (reached world.libraries calls) (benchmarkInput options.totalInput))
    (hd : After world m.session.engine.log d) :
    ∃ answer, answerOf world (reached world.libraries calls) (benchmarkInput options.totalInput) =
        some answer ∧
      (∃ buffer, m.session.output = copyInto answer buffer) ∧
      m.session.outputElements = (reached world.libraries calls).outputBytes / 4 := by
  obtain ⟨hall, hsession⟩ := runCalls_all _ _ _ _ hm
  obtain ⟨last, hlast⟩ : ∃ last, callCount options = last + 1 := by
    have hiterations : options.iterations ≠ 0 :=
      fun h ↦ (checkRun_eq_ok _ _ _).mp hchecked (.inl (.inr (.inr h)))
    have hpos : 0 < options.iterations.toNat :=
      Nat.pos_of_ne_zero fun h ↦ hiterations (UInt64.toNat_inj.mp h)
    exact ⟨callCount options - 1, by rw [callCount]; omega⟩
  obtain ⟨later, hlater, hengine⟩ := exists_reached world.libraries calls options
    last
  have hok := hall last (by omega)
  have hsame := reached_tensors world.libraries calls hlater
  rw [hlast, sessionOf, Function.iterate_succ_apply', ← sessionOf] at hsession
  rw [succeeds, accepts] at hok
  generalize sessionOf (asEngine world.libraries) options
    (.tensorRT (reached world.libraries calls)) last = session at hengine hok hsession
  obtain ⟨engine, output, outputElements⟩ := session
  subst hengine
  rw [hsession] at hd ⊢
  have hbehind : After world (reached world.libraries (calls ++ later ++
      [.inferInto (some (benchmarkInput options.totalInput)) (some output)
        (.ofNat (benchmarkInput options.totalInput).length) (.ofNat output.length)])).log d := by
    rw [reached_concat]
    exact hd
  -- The call is made behind the answers that were given before the run.
  have hanswered : (reached world.libraries calls).answered ≤
      (reached world.libraries (calls ++ later)).answered := by
    obtain ⟨more, hmore⟩ := log_growing world.libraries (calls ++ later) [_]
    obtain ⟨d₁, hd₁, -⟩ := (hmore ▸ hbehind).exists_before
    obtain ⟨more', hmore'⟩ := log_growing world.libraries calls later
    obtain ⟨d₀, hd₀, hle⟩ := (hmore' ▸ hd₁).exists_before
    rwa [(reached_quiet calls d₀ hd₀).1, (reached_quiet (calls ++ later) d₁ hd₁).1] at hle
  obtain ⟨answer, hanswer, houtput, helements⟩ := inferred_answer
    (by rw [hinput _ hanswered, tensorOf_same hsame]) hbehind hok
  rw [answerOf_same hsame] at hanswer
  refine ⟨answer, hanswer, ⟨output, ?_⟩, helements.trans (by rw [hsame.2.2])⟩
  exact congrArg (fun buffer ↦ buffer.getD output) houtput

private theorem length_answerOf {s : Machine} {input answer : List Single}
    (h : answerOf world s input = some answer) : answer.length = (s.outputBytes / 4).toNat := by
  obtain ⟨context, -, rfl⟩ := Option.map_eq_some_iff.mp h
  rw [elements, List.length_map, List.length_range]

/-- What a run of a TensorRT engine that validates reports about the network's answer. -/
theorem validated_answer {stats : InferenceStats} (hverify : options.verifyIdentity = true)
    (hrun : runBenchmark (asEngine world.libraries) clock options
      (.tensorRT (reached world.libraries calls)) = .ok stats)
    (hinput : ∀ n ≥ (reached world.libraries calls).answered, world.written n =
      tensorOf (reached world.libraries calls) (benchmarkInput options.totalInput))
    (hd : After world (lastSession (asEngine world.libraries) options
      (.tensorRT (reached world.libraries calls))).engine.log d) :
    ∃ answer v, answerOf world (reached world.libraries calls)
        (benchmarkInput options.totalInput) = some answer ∧
      stats.validation = some v ∧
      v.mismatches.toNat =
        (options.totalInput.toNat - answer.length) + (answer.length - options.totalInput.toNat) +
          (List.range (min options.totalInput.toNat answer.length)).countP
            (exceedsTolerance options.validationTolerance answer) ∧
      v.passed = decide (v.mismatches = 0) := by
  obtain ⟨m, hreturned⟩ := exists_returned hrun
  rw [← (runCalls_eq_ok hreturned.calls).1] at hd
  obtain ⟨answer, hanswer, ⟨buffer, hbuffer⟩, helements⟩ :=
    last_answer hreturned.checked hreturned.calls hinput hd
  have hlength : answer.length = m.session.outputElements.toNat := by
    rw [length_answerOf hanswer, helements]
  have hfits : m.session.outputElements.toNat ≤ m.session.output.length := by
    rw [length_output_runCalls hreturned.calls, helements, outputCapacity]
    split
    · next hzero =>
      rw [show (reached world.libraries calls).outputBytes / 4 = 0 from hzero]
      exact Nat.zero_le _
    · exact le_rfl
  obtain ⟨v, hv, hcount⟩ :=
    @exists_validateIdentity options.totalInput _ _ options.validationTolerance hfits
  have hvalidation := hreturned.validation
  rw [validateRun, if_pos hverify, hv] at hvalidation
  refine ⟨answer, _, hanswer, (Except.ok.inj hvalidation).symm, ?_, rfl⟩
  have hsame : ∀ index < answer.length,
      exceedsTolerance options.validationTolerance m.session.output index =
        exceedsTolerance options.validationTolerance answer index := by
    intro index hindex
    rw [hbuffer, length_copyInto] at hfits
    rw [exceedsTolerance, exceedsTolerance, hbuffer,
      getElem?_answer hindex (hlength.trans_le hfits)]
  change v.mismatches.toNat = _
  rw [hcount, toNat_min, ← hlength]
  congr 1
  refine List.countP_congr fun index hindex ↦ ?_
  rw [hsame index (by have := List.mem_range.mp hindex; omega)]

/-- The identity validation that a benchmark of a TensorRT engine reports judges the network: it
counts the elements of the network's answer to the input of the benchmark that are off by more than
the tolerance, and those without a counterpart, whatever was left in the buffers before. -/
theorem validation_judges_network {stats : InferenceStats} (hverify : options.verifyIdentity = true)
    (hrun : runBenchmark (asEngine world.libraries) clock options
      (.tensorRT (reached world.libraries calls)) = .ok stats)
    (hinput : ∀ n ≥ (reached world.libraries calls).answered, world.written n =
      tensorOf (reached world.libraries calls) (benchmarkInput options.totalInput))
    (hd : After world (lastSession (asEngine world.libraries) options
      (.tensorRT (reached world.libraries calls))).engine.log d) :
    ∃ answer v, answerOf world (reached world.libraries calls)
        (benchmarkInput options.totalInput) = some answer ∧
      stats.validation = some v ∧
      v.mismatches.toNat =
        (options.totalInput.toNat - answer.length) + (answer.length - options.totalInput.toNat) +
          (List.range (min options.totalInput.toNat answer.length)).countP
            (exceedsTolerance options.validationTolerance answer) ∧
      (v.passed = true ↔ v.mismatches = 0) := by
  obtain ⟨answer, v, hanswer, hv, hcount, hpassed⟩ := validated_answer hverify hrun hinput hd
  refine ⟨answer, v, hanswer, hv, hcount, ?_⟩
  rw [hpassed]
  exact decide_eq_true_iff

end

/-- The run of one call is validated. -/
theorem validation_judges_network_zero :
    ∃ stats answer v, runBenchmark (asEngine zeroWorld.libraries) tickingClock identityOptions
        (.tensorRT (reached zeroWorld.libraries onlyLoad)) = .ok stats ∧
      answerOf zeroWorld (reached zeroWorld.libraries onlyLoad)
        (benchmarkInput identityOptions.totalInput) = some answer ∧
      stats.validation = some v ∧ (v.passed = true ↔ v.mismatches = 0) := by
  have hok : (runBenchmark (asEngine zeroWorld.libraries) tickingClock identityOptions
      (.tensorRT (reached zeroWorld.libraries onlyLoad))).toOption.isSome = true := by
    decide +kernel
  obtain ⟨stats, hrun⟩ : ∃ stats, runBenchmark (asEngine zeroWorld.libraries) tickingClock
      identityOptions (.tensorRT (reached zeroWorld.libraries onlyLoad)) = .ok stats := by
    revert hok
    cases runBenchmark (asEngine zeroWorld.libraries) tickingClock identityOptions
        (.tensorRT (reached zeroWorld.libraries onlyLoad)) with
    | error e => exact nofun
    | ok stats => exact fun _ ↦ ⟨stats, rfl⟩
  obtain ⟨d, hd⟩ : ∃ d, Device.followAll zeroWorld (lastSession (asEngine zeroWorld.libraries)
      identityOptions (.tensorRT (reached zeroWorld.libraries onlyLoad))).engine.log = some d :=
    Option.isSome_iff_exists.mp (by decide +kernel)
  have hinput : ([0] : List Single) = tensorOf (reached zeroWorld.libraries onlyLoad)
      (benchmarkInput identityOptions.totalInput) := by
    decide +kernel
  obtain ⟨answer, v, hanswer, hv, -, hpassed⟩ := validation_judges_network (by decide) hrun
    (fun _ _ ↦ hinput) (after_followAll hd)
  exact ⟨stats, answer, v, hrun, hanswer, hv, hpassed⟩

end Backend

end MarketData
