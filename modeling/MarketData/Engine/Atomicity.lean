import MarketData.Engine.Identity
import MarketData.Engine.Sizes

/-!
# Inferences are all or nothing

A refused inference reports no elements, no latency and leaves the caller's buffer; an accepted one
writes as many elements as it reports, and at least one. The output of a TensorRT engine has a size
once there is a context, because the sizes are read before the context is created.
-/

namespace MarketData

open ByteText Cpp StateProgram

namespace TensorRT

variable {libraries : Libraries} {P : Members → Prop}

/-! ### What leaves the context and the sizes -/

private theorem nameTensors_on (hname : ∀ m name, P m → P { m with inputName := name })
    (hname' : ∀ m name, P m → P { m with outputName := name }) (remaining : ℕ) :
    Keeps (On P) (nameTensors libraries remaining) := by
  induction remaining with
  | zero => exact fun _ hs ↦ hs
  | succ remaining ih =>
    refine Ensures.get_any fun s ↦ Ensures.bind invoke_on fun name ↦ ?_
    cases name with
    | none => exact ih
    | some name =>
      refine Ensures.bind invoke_on fun mode ↦ ?_
      cases mode with
      | none => exact ih
      | input =>
        refine Ensures.ite (fun _ _ hs ↦ hs) fun _ ↦ ?_
        exact Ensures.bind (Ensures.modify fun s hs ↦ hname s.toMembers name hs) fun _ ↦ ih
      | output =>
        refine Ensures.ite (fun _ _ hs ↦ hs) fun _ ↦ ?_
        exact Ensures.bind (Ensures.modify fun s hs ↦ hname' s.toMembers name hs) fun _ ↦ ih

private theorem withLocal_on {Q : Members → Prop} {op : Operation} {ids : List (Option ℕ)}
    {what : Resource} {body : ℕ → Program Bool} (hPQ : ∀ m, P m → Q m)
    (hbody : ∀ id, Ensures (On P) (body id) fun _ ↦ On Q) :
    Ensures (On P) (withLocal libraries op ids what body) fun _ ↦ On Q := by
  refine Ensures.bind tryCreate_on fun id ↦ ?_
  cases id with
  | none => exact fun s hs ↦ hPQ _ hs
  | some id => exact Ensures.bind (hbody id) fun _ _ hs ↦ hs

private theorem printErrors_on (parser turns : ℕ) :
    ∀ i, Keeps (On P) (printErrors libraries parser turns i) := by
  induction turns with
  | zero => exact fun _ _ hs ↦ hs
  | succ turns ih =>
    intro i
    refine Ensures.bind invoke_on fun count ↦ ?_
    exact Ensures.ite (fun _ ↦ Ensures.bind invoke_on fun _ ↦ ih (i + 1)) fun _ _ hs ↦ hs

/-- Enqueueing keeps what holds of the members. -/
theorem enqueue_on : Keeps (On P) (enqueue libraries) :=
  Ensures.get_any fun _ ↦ Ensures.bind invoke_on fun _ _ hs ↦ hs

/-- Submitting an inference keeps what holds of the members. -/
theorem submitInference_on : Keeps (On P) (submitInference libraries) := by
  have hstay : ∀ s, On P s → On P s := fun _ hs ↦ hs
  have hlaunch : Keeps (On P) (launch libraries) :=
    Ensures.get_any fun _ ↦ Ensures.ite (fun _ ↦ invoke_on) fun _ ↦ enqueue_on
  refine Ensures.get_any fun _ ↦ Ensures.bind invoke_on fun _ ↦ ?_
  refine Keeps.orReturn invoke_on hstay ?_
  refine Keeps.orReturn invoke_on hstay ?_
  refine Keeps.orReturn hlaunch hstay ?_
  refine Keeps.orReturn invoke_on hstay ?_
  exact Keeps.orReturn invoke_on hstay invoke_on

/-- An attempt to capture a graph keeps what holds of the members whatever their graph. -/
theorem enableCudaGraph_on (hP : ∀ m h, P m → P (m.set .graphExecution h)) :
    Keeps (On P) (enableCudaGraph libraries) := by
  have hstay : ∀ s, On P s → On P s := fun _ hs ↦ hs
  have hinstantiate : ∀ graph contexts, Keeps (On P) (instantiate libraries graph contexts) :=
    fun _ _ ↦ Ensures.bind (createInto_on hP) fun _ _ hs ↦ hs
  have hend : ∀ capture, Keeps (On P) (endCapture libraries capture) := by
    refine fun capture ↦ Ensures.get_any fun s ↦ Ensures.bind invoke_on fun status ↦ ?_
    refine Ensures.bind (R := fun _ ↦ On P) (Ensures.modify fun _ hs ↦ hs) fun _ ↦ ?_
    refine Ensures.bind (R := fun _ ↦ On P) (fun _ hs ↦ hs) fun _ ↦ ?_
    exact Ensures.ite (fun _ _ hs ↦ hs) fun _ _ hs ↦ hs
  refine Ensures.get_any fun _ ↦ Ensures.ite (fun _ ↦ hstay) fun _ ↦ ?_
  refine Ensures.ite (fun _ ↦ hstay) fun _ ↦ ?_
  refine Keeps.orReturn enqueue_on hstay (Keeps.orReturn invoke_on hstay ?_)
  refine Ensures.get_any fun _ ↦ Ensures.bind tryCreate_on fun capture ↦ ?_
  cases capture with
  | none => exact hstay
  | some capture =>
    refine Ensures.bind (R := fun _ ↦ On P) (Ensures.modify fun _ hs ↦ hs) fun _ ↦ ?_
    refine Ensures.bind enqueue_on fun ok ↦ Ensures.bind (hend capture) fun ⟨status, graph⟩ ↦ ?_
    cases graph with
    | none => exact hstay
    | some graph =>
      exact Ensures.ite (fun _ ↦ Ensures.bind (R := fun _ ↦ On P) (fun _ hs ↦ hs) fun _ ↦ hstay)
        fun _ ↦ hinstantiate graph.1 graph.2

/-! ### The size of the output -/

/-- Where there is a context, the output has the bytes of at least one element. -/
def Members.Sized (m : Members) : Prop := (m.handle .context).isSome → 4 ≤ m.outputBytes.toNat

/-- The volumes that the libraries report have a number of bytes that is a `size_t`. -/
def VolumesFit (libraries : Libraries) : Prop :=
  ∀ n v, checkedVolume (libraries.tensorShape n) = some v → v.toNat * 4 < 2 ^ 64

-- There is no context.
private abbrev NoContext (m : Members) : Prop := m.handle .context = none

private theorem NoContext.sized {m : Members} (h : NoContext m) : m.Sized := by
  intro hsome
  rw [h] at hsome
  cases hsome

private theorem NoContext.set {m : Members} (h : NoContext m) {slot : Slot} (hne : slot ≠ .context)
    (v : Option ℕ) : NoContext (m.set slot v) := by
  rw [NoContext, handle_set_of_ne _ _ hne.symm]
  exact h

private theorem readTensors_on
    (hname : ∀ m name, P m → P { m with inputName := name })
    (hname' : ∀ m name, P m → P { m with outputName := name })
    (hbytes : ∀ m a b, P m → P { m with inputBytes := a, outputBytes := b }) :
    Keeps (On P) (readTensors libraries) := by
  have hstay : ∀ s, On P s → On P s := fun _ hs ↦ hs
  refine Ensures.get_any fun _ ↦ Ensures.bind invoke_on fun count ↦ ?_
  refine Keeps.orReturn (nameTensors_on hname hname' _) hstay ?_
  refine Ensures.get_any fun _ ↦ Ensures.ite (fun _ ↦ hstay) fun _ ↦ ?_
  refine Keeps.orReturn invoke_on hstay (Keeps.orReturn invoke_on hstay ?_)
  refine Ensures.bind invoke_on fun input ↦ Ensures.bind invoke_on fun output ↦ ?_
  cases checkedVolume input with
  | none => exact hstay
  | some v =>
    cases checkedVolume output with
    | none => exact hstay
    | some w =>
      exact Ensures.bind (Ensures.modify fun s hs ↦ hbytes s.toMembers _ _ hs) fun _ ↦ hstay

private theorem Members.Shaped.bytes {input output : List Int64} {m : Members}
    (h : m.Shaped input output) (hfit : ∀ v, checkedVolume output = some v → v.toNat * 4 < 2 ^ 64) :
    4 ≤ m.outputBytes.toNat := by
  obtain ⟨v, hv, hbytes⟩ := h.output
  obtain ⟨-, hpos, hvolume⟩ := checkedVolume_eq_some.mp hv
  have hone : 0 < v.toNat := hvolume ▸ volume_pos hpos
  have hlt := hfit v hv
  have hfour : (4 : UInt64).toNat = 4 := rfl
  rw [hbytes, UInt64.toNat_mul, hfour, Nat.mod_eq_of_lt hlt]
  omega

private theorem initializeExecution_sized (hfit : VolumesFit libraries) :
    Ensures (On NoContext) (initializeExecution libraries) fun _ ↦ On Members.Sized := by
  let Large : Members → Prop := fun m ↦ 4 ≤ m.outputBytes.toNat
  have hlarge : ∀ s, On Large s → On Members.Sized s := fun _ hs _ ↦ hs
  refine Ensures.get_any fun _ ↦ Ensures.ite (fun _ _ hs ↦ NoContext.sized hs) fun _ ↦ ?_
  refine Ensures.orReturn (R := On Large) ?_ ?_
  · intro s hs
    split
    · next hok => exact (readTensors_shaped s hok).bytes fun v hv ↦ hfit _ v hv
    · exact NoContext.sized (readTensors_on (P := NoContext) (fun _ _ h ↦ h) (fun _ _ h ↦ h)
        (fun _ _ _ h ↦ h) s hs)
  refine Keeps.orReturn (createExecution_on fun _ _ _ h ↦ h) hlarge ?_
  refine Keeps.orReturn bindTensors_on hlarge ?_
  exact Ensures.bind (readMetadata_on fun _ _ h ↦ h) fun _ ↦ hlarge

private theorem deserialize_sized (hfit : VolumesFit libraries) (plan : List (Option ℕ)) :
    Ensures (On NoContext) (deserialize libraries plan) fun _ ↦ On Members.Sized := by
  have hnone : ∀ s, On NoContext s → On Members.Sized s := fun _ hs ↦ NoContext.sized hs
  refine Keeps.orReturn (createInto_on fun _ h hm ↦ NoContext.set hm (by decide) h) hnone ?_
  refine Ensures.get_any fun s ↦ ?_
  exact Keeps.orReturn (createInto_on fun _ h hm ↦ NoContext.set hm (by decide) h) hnone
    (initializeExecution_sized hfit)

private theorem loadSerializedEngine_sized (hfit : VolumesFit libraries) :
    Ensures (On NoContext) (loadSerializedEngine libraries) fun _ ↦ On Members.Sized := by
  have hnone : ∀ s, On NoContext s → On Members.Sized s := fun _ hs ↦ NoContext.sized hs
  refine Ensures.bind invoke_on fun data ↦ ?_
  cases data with
  | none => exact hnone
  | some data => exact Ensures.ite (fun _ ↦ hnone) fun _ ↦ deserialize_sized hfit []

private theorem loadOnnx_sized (hfit : VolumesFit libraries) :
    Ensures (On NoContext) (loadOnnx libraries) fun _ ↦ On Members.Sized := by
  have hnone : ∀ m, NoContext m → m.Sized := fun _ hm ↦ NoContext.sized hm
  refine withLocal_on hnone fun builder ↦ withLocal_on hnone fun network ↦ ?_
  refine withLocal_on hnone fun parser ↦ Ensures.bind invoke_on fun ok ↦ ?_
  cases ok with
  | false => exact Ensures.bind (printErrors_on parser _ _) fun _ s hs ↦ hnone _ hs
  | true =>
    refine withLocal_on hnone fun config ↦ Ensures.bind invoke_on fun _ ↦ ?_
    exact withLocal_on hnone fun serialized ↦ deserialize_sized hfit [some serialized]

private theorem load_sized (hfit : VolumesFit libraries) {p : Point} (modelPath : Bytes) :
    Ensures (At p) (load libraries modelPath) fun _ ↦ On Members.Sized := by
  refine Ensures.bind (R := fun _ ↦ On NoContext) ?_ fun _ ↦
    Ensures.ite (fun _ ↦ loadOnnx_sized hfit) fun _ ↦ loadSerializedEngine_sized hfit
  refine (destroyResources_spec libraries).weaken fun _ s hs ↦ ?_
  change s.toMembers.handle .context = none
  rw [hs.members]

end TensorRT

/-! ### Inferences -/

/-- A refused inference reports nothing and leaves the caller's buffer. An accepted one reports at
least one element and no more than the buffer is said to hold, and writes only as many. -/
structure AllOrNothing (output : Option (List Single)) (outputCapacity : UInt64)
    (r : TensorRT.Inferred) (latency : Option Double) : Prop where
  refused : r.ok = false → r.outputElements = 0 ∧ r.output = output ∧ latency = none
  accepted : r.ok = true → 0 < r.outputElements ∧ r.outputElements ≤ outputCapacity ∧
    ∃ before after, output = some before ∧ r.output = some after ∧ after.length = before.length ∧
      ∀ index ≥ r.outputElements.toNat, after[index]? = before[index]?

/-- A call that is refused leaves the buffer alone and reports nothing. -/
theorem allOrNothing_refused (output : Option (List Single)) (outputCapacity : UInt64) :
    AllOrNothing output outputCapacity ⟨false, output, 0⟩ none :=
  ⟨fun _ ↦ ⟨rfl, rfl, rfl⟩, nofun⟩

/-- No more elements are reported than the buffer is said to hold. -/
theorem AllOrNothing.le {output : Option (List Single)} {outputCapacity : UInt64}
    {r : TensorRT.Inferred} {latency : Option Double}
    (h : AllOrNothing output outputCapacity r latency) : r.outputElements ≤ outputCapacity := by
  cases hok : r.ok with
  | true => exact (h.accepted hok).2.1
  | false =>
    rw [(h.refused hok).1]
    exact UInt64.zero_le

namespace TensorRT

/-- A copy writes only as many elements as it has. -/
theorem getElem?_copyInto {data buffer : List Single} {index : ℕ} (h : data.length ≤ index) :
    (copyInto data buffer)[index]? = buffer[index]? := by
  rw [copyInto, List.getElem?_append_right (by rw [List.length_take]; omega), List.getElem?_drop,
    List.length_take]
  by_cases hlt : index < buffer.length
  · congr 1
    omega
  · rw [List.getElem?_eq_none (by omega), List.getElem?_eq_none (by omega)]

variable {libraries : Libraries}

private theorem passesChecks_eq_true {m : Members} {input output : Option (List Single)}
    {inputElements outputCapacity : UInt64}
    (h : m.passesChecks input output inputElements outputCapacity = true) :
    (m.handle .context).isSome ∧ output.isSome ∧ m.outputBytes / 4 ≤ outputCapacity := by
  simp only [Members.passesChecks, Bool.and_eq_true, List.all_eq_true, decide_eq_true_eq] at h
  exact ⟨h.1.1.1.1.1 .context (by decide), h.1.1.1.2, h.2⟩

/-- The inference keeps the sizes, whatever it answers. -/
theorem inferInto_allOrNothing (input output : Option (List Single))
    (inputElements outputCapacity : UInt64) :
    Ensures (On Members.Sized) (inferInto libraries input output inputElements outputCapacity)
      fun r s ↦ On Members.Sized s ∧
        AllOrNothing output outputCapacity r s.lastDeviceLatencyUs := by
  let Reset : Members → Prop := fun m ↦ m.Sized ∧ m.lastDeviceLatencyUs = none
  have hfail : ∀ s, On Reset s → On Members.Sized s ∧
      AllOrNothing output outputCapacity ⟨false, output, 0⟩ s.lastDeviceLatencyUs :=
    fun s hs ↦ ⟨hs.1, hs.2 ▸ allOrNothing_refused output outputCapacity⟩
  refine Ensures.bind (R := fun _ ↦ On Reset) (Ensures.modify fun s hs ↦ ⟨hs, rfl⟩) fun _ ↦ ?_
  refine Ensures.get fun s ↦ Ensures.ite (fun _ t ht ↦ hfail t (ht.1 ▸ ht.2)) fun hpass ↦ ?_
  obtain ⟨hcontext, hsome, hcapacity⟩ := passesChecks_eq_true (by simpa using hpass)
  obtain ⟨before, rfl⟩ := Option.isSome_iff_exists.mp hsome
  refine Ensures.of_pre ?_
  rintro t ⟨heq, hsized, hlatency⟩
  subst t
  have hpositive : 0 < s.outputBytes / 4 := by
    have hfour : (4 : UInt64).toNat = 4 := rfl
    have hle := hsized hcontext
    rw [UInt64.lt_iff_toNat_lt, UInt64.toNat_div, hfour]
    change 0 < _
    omega
  refine Ensures.mono ?_ (P := On Reset) (by rintro _ rfl; exact ⟨hsized, hlatency⟩) fun _ _ h ↦ h
  refine Keeps.orReturn submitInference_on hfail (Ensures.get_any fun s' ↦ ?_)
  refine Keeps.orReturn invoke_on hfail ?_
  refine Ensures.bind (R := fun _ ↦ On Members.Sized) (Ensures.modify fun _ hs ↦ hs.1) fun _ ↦ ?_
  refine Ensures.bind (R := fun data t ↦ data.length = (s.outputBytes / 4).toNat ∧
    On Members.Sized t) (fun t ht ↦ ⟨(List.length_map _).trans List.length_range, ht⟩)
    fun data ↦ Ensures.of_prop fun hdata ↦ ?_
  refine fun t ht ↦ ⟨ht, nofun, fun _ ↦ ⟨hpositive, hcapacity, before, copyInto data before, rfl,
    rfl, length_copyInto data before, fun index hindex ↦ getElem?_copyInto ?_⟩⟩
  rw [hdata]
  exact hindex

/-- Behind every sequence of calls the output has a size where there is a context. -/
theorem reached_sized (hfit : VolumesFit libraries) (calls : List Call) :
    (reached libraries calls).Sized := by
  induction calls using List.reverseRecOn with
  | nil => exact fun h ↦ by cases h
  | append_singleton calls call ih =>
    rw [reached_append]
    cases call with
    | load modelPath =>
      obtain ⟨k, p, -, -, -, -, hs⟩ := reached_resting libraries calls
      exact load_sized hfit modelPath _ hs
    | inferInto input output inputElements outputCapacity =>
      exact (inferInto_allOrNothing input output inputElements outputCapacity _ ih).1
    | enableCudaGraph =>
      exact enableCudaGraph_on (fun m h hm ↦ by
        rw [Members.Sized, handle_set_of_ne _ _ (by decide)]
        exact hm) _ ih

end TensorRT

/-! ### Both backends -/

/-- The mock backend writes the whole answer or nothing. -/
theorem Mock.inferInto_allOrNothing (input output : Option (List Single))
    (inputElements outputCapacity : UInt64) :
    AllOrNothing output outputCapacity (Mock.inferInto input output inputElements outputCapacity)
      none := by
  unfold Mock.inferInto
  cases input with
  | none => exact allOrNothing_refused output outputCapacity
  | some values =>
    cases output with
    | none => exact allOrNothing_refused none outputCapacity
    | some buffer =>
      dsimp only
      split
      · exact allOrNothing_refused (some buffer) outputCapacity
      · next hsizes =>
        obtain ⟨hzero, hcapacity⟩ := not_or.mp hsizes
        refine ⟨nofun, fun _ ↦ ⟨UInt64.pos_iff_ne_zero.mpr hzero, UInt64.not_lt.mp hcapacity,
          buffer, _, rfl, rfl, TensorRT.length_copyInto _ _,
          fun index hindex ↦ TensorRT.getElem?_copyInto ?_⟩⟩
        rw [List.length_map, List.length_take]
        exact (Nat.min_le_left _ _).trans hindex

namespace Backend

variable (libraries : TensorRT.Libraries)

/-- The state of a backend behind some calls: the mock keeps none that its inferences read. -/
def Reached : Backend → Prop
  | .tensorRT s => ∃ calls, s = TensorRT.reached libraries calls
  | .mock _ => True

variable {libraries} {b : Backend}

private theorem inferInto_reached (hb : b.Reached libraries) (input output : Option (List Single))
    (inputElements outputCapacity : UInt64) :
    (b.inferInto libraries input output inputElements outputCapacity).2.Reached libraries ∧
      (b.inferInto libraries input output inputElements outputCapacity).2.isMock = b.isMock := by
  cases b with
  | mock s => exact ⟨trivial, rfl⟩
  | tensorRT s =>
    obtain ⟨calls, rfl⟩ := hb
    refine ⟨⟨calls ++ [.inferInto input output inputElements outputCapacity], ?_⟩, rfl⟩
    rw [TensorRT.reached_append]
    rfl

/-- An inference of either backend is all or nothing. -/
theorem inferInto_allOrNothing (hb : b.Reached libraries)
    (hfit : b.isMock = false → TensorRT.VolumesFit libraries) (input output : Option (List Single))
    (inputElements outputCapacity : UInt64) :
    AllOrNothing output outputCapacity
      (b.inferInto libraries input output inputElements outputCapacity).1
      (b.inferInto libraries input output inputElements outputCapacity).2.lastDeviceLatencyUs := by
  cases b with
  | mock s => exact Mock.inferInto_allOrNothing input output inputElements outputCapacity
  | tensorRT s =>
    obtain ⟨calls, rfl⟩ := hb
    exact (TensorRT.inferInto_allOrNothing input output inputElements outputCapacity _
      (TensorRT.reached_sized (hfit rfl) calls)).2

/-! ### Runs -/

/-- Between two calls of a run: a backend in a state that it reaches, which has reported no more
elements than its buffer holds. -/
structure InBounds (libraries : TensorRT.Libraries) (session : Session Backend) : Prop where
  reached : session.engine.Reached libraries
  fits : session.engine.isMock = false → TensorRT.VolumesFit libraries
  elements : session.outputElements.toNat ≤ session.output.length

private theorem InBounds.next {session : Session Backend} (h : InBounds libraries session)
    (input : List Single) : InBounds libraries (session.next (asEngine libraries) input) := by
  obtain ⟨hreached, hmock⟩ := inferInto_reached h.reached (some input) (some session.output)
    (.ofNat input.length) (.ofNat session.output.length)
  have hall := inferInto_allOrNothing h.reached h.fits (some input) (some session.output)
    (.ofNat input.length) (.ofNat session.output.length)
  refine ⟨hreached, fun hclass ↦ h.fits (hmock.symm.trans hclass), ?_⟩
  have hle := UInt64.le_iff_toNat_le.mp hall.le
  rw [UInt64.toNat_ofNat'] at hle
  rw [Session.next, (asEngine libraries).length_output]
  exact hle.trans (Nat.mod_le _ _)

private theorem InBounds.lastSession (hb : b.Reached libraries)
    (hfit : b.isMock = false → TensorRT.VolumesFit libraries) (options : RunOptions) :
    InBounds libraries (lastSession (asEngine libraries) options b) := by
  refine lastSession_invariant ?_ ?_
  · exact ⟨hb, hfit, Nat.zero_le _⟩
  · intro session hsession
    exact hsession.next _

/-- In every state that a backend reaches, an inference is all or nothing, whatever it is given; and
the validation of a run that starts there stays inside the input and the output. The volumes of a
TensorRT engine are assumed to have a number of bytes. -/
theorem inference_atomicity (hb : b.Reached libraries)
    (hfit : b.isMock = false → TensorRT.VolumesFit libraries) :
    (∀ input output inputElements outputCapacity, AllOrNothing output outputCapacity
      (b.inferInto libraries input output inputElements outputCapacity).1
      (b.inferInto libraries input output inputElements outputCapacity).2.lastDeviceLatencyUs) ∧
    ∀ clock options m, runCalls (asEngine libraries) clock options b = .ok m →
      (min options.totalInput m.session.outputElements).toNat ≤
          (benchmarkInput options.totalInput).length ∧
        (min options.totalInput m.session.outputElements).toNat ≤ m.session.output.length ∧
        ∃ validation, validateRun options m.session = .ok validation := by
  refine ⟨inferInto_allOrNothing hb hfit, fun clock options m hm ↦ ?_⟩
  have hsession : InBounds libraries m.session := by
    rw [(runCalls_eq_ok hm).1]
    exact InBounds.lastSession hb hfit options
  have hmin := toNat_min options.totalInput m.session.outputElements
  refine ⟨?_, ?_, ?_⟩
  · rw [hmin, benchmarkInput, List.length_map, List.length_range]
    exact Nat.min_le_left _ _
  · rw [hmin]
    exact (Nat.min_le_right _ _).trans hsession.elements
  · unfold validateRun
    split
    · obtain ⟨v, hv, -⟩ := @exists_validateIdentity options.totalInput _ _
        options.validationTolerance hsession.elements
      rw [hv]
      exact ⟨_, rfl⟩
    · exact ⟨none, rfl⟩

/-- Libraries that report one element for every tensor. -/
theorem volumesFit_failingAt (n : ℕ) : TensorRT.VolumesFit (TensorRT.failingAt n) := by
  intro _ v hv
  have hone : TensorRT.checkedVolume [1] = some 1 := by decide
  obtain rfl := Option.some.inj (hone.symm.trans hv)
  decide

/-- An engine behind its only load. -/
def loaded (n : ℕ) : Backend := .tensorRT (TensorRT.reached (TensorRT.failingAt n)
  [.load (ascii "model.engine")])

/-- A loaded engine whose libraries do not fail is given room for two elements. -/
theorem inference_atomicity_one :
    AllOrNothing (some [0, 0]) 2
      ((loaded 64).inferInto (TensorRT.failingAt 64) (some [0]) (some [0, 0]) 1 2).1
      ((loaded 64).inferInto (TensorRT.failingAt 64) (some [0]) (some [0, 0]) 1
        2).2.lastDeviceLatencyUs := by
  have hreached : (loaded 64).Reached (TensorRT.failingAt 64) := ⟨_, rfl⟩
  exact (inference_atomicity hreached fun _ ↦ volumesFit_failingAt 64).1 _ _ _ _

end Backend

end MarketData
