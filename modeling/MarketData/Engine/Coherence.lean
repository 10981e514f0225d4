import MarketData.Engine.Device
import MarketData.Engine.Sizes

/-!
# Coherent devices

What every device behind the machine is like, whatever is done when, whichever calls fail and
whatever they leave behind. A load leaves each device with the addresses of the new tensors and
nothing that waits on the new stream.
-/

namespace MarketData.TensorRT

open ByteText Cpp Ledger StateProgram Streams

variable {world : World}

/-! ### Devices behind a machine -/

/-- What holds of every device behind the machine. -/
def Behind (world : World) (P : Device → Prop) (s : Machine) : Prop :=
  ∀ d, After world s.log d → d.answered = s.answered ∧ P d

/-- No work that is done later changes the property. -/
def Stable (P : Device → Prop) : Prop :=
  ∀ d t, P d → d.toState.Step t → P { d with toState := t }

/-- The property does not depend on what is created and destroyed, nor on plain calls. -/
structure Plain (P : Device → Prop) : Prop where
  stable : Stable P
  create : ∀ d id contents what, P d → P (d.create id contents what)
  next : ∀ d, P d → P d.next

section

variable {P Q : Device → Prop} {s : Machine}

/-- What holds behind a log may be weakened. -/
theorem Behind.imp (h : Behind world P s) (hPQ : ∀ d, P d → Q d) :
    Behind world Q s :=
  fun d hd ↦ ⟨(h d hd).1, hPQ d (h d hd).2⟩

/-- A call, with what it does on the device. -/
theorem Behind.use {op : Operation} {ids : List (Option ℕ)} (h : Behind world P s)
    (hstable : Stable Q)
    (heffect : ∀ d d', d.answered = s.answered → P d →
      Effect world s.log d (.use op ids) d' → Q d') :
    Behind world Q
      { s with answered := s.answered + 1, log := s.log ++ [.use op ids] } := by
  intro d hd
  refine After.concat (Q := fun d ↦ d.answered = s.answered + 1 ∧ Q d) ?_ ?_ h hd
  · rintro d t ⟨hanswered, hQ⟩ hstep
    exact ⟨hanswered, hstable d t hQ hstep⟩
  · rintro d d' ⟨hanswered, hP⟩ he
    exact ⟨by rw [he.answered_use, hanswered], heffect d d' hanswered hP he⟩

/-- A new handle. -/
theorem Behind.create {what : Resource} (h : Behind world P s)
    (hP : ∀ d contents, P d → Q (d.create s.next contents what)) (hstable : Stable Q) :
    Behind world Q
      { s with next := s.next + 1, log := s.log ++ [.create s.next what] } := by
  intro d hd
  refine After.concat (Q := fun d ↦ d.answered = s.answered ∧ Q d) ?_ ?_ h hd
  · rintro d t ⟨hanswered, hQ⟩ hstep
    exact ⟨hanswered, hstable d t hQ hstep⟩
  · rintro d d' ⟨hanswered, hd⟩ he
    cases he with
    | create contents =>
      refine ⟨?_, hP d contents hd⟩
      rw [← hanswered]
      cases what <;> rfl

/-- The end of a handle. -/
theorem Behind.destroy {id : ℕ} (h : Behind world P s) (hstable : Stable P) :
    Behind world P { s with log := s.log ++ [.destroy id] } := by
  intro d hd
  refine After.concat (Q := fun d ↦ d.answered = s.answered ∧ P d) ?_ ?_ h hd
  · rintro d t ⟨hanswered, hP⟩ hstep
    exact ⟨hanswered, hstable d t hP hstep⟩
  · rintro d d' hd he
    cases he
    exact hd

end

/-! ### Plain programs -/

/-- The members own nothing that was there at some time, and every device has a property. -/
structure Apart (world : World) (first : ℕ) (P : Device → Prop) (s : Machine) : Prop where
  next : first ≤ s.next
  handle : ∀ slot id, s.handle slot = some id → first ≤ id
  behind : Behind world P s

section

variable {first : ℕ} {P : Device → Prop}

private theorem invoke_apart {α : Type} (hP : Plain P) {op : Operation} {ids : List (Option ℕ)}
    {answer : ℕ → α} (hop : op.plain = true) :
    Keeps (Apart world first P) (invoke op ids answer) := by
  intro s hs
  refine ⟨hs.next, hs.handle, hs.behind.use hP.stable fun d d' _ hd he ↦ ?_⟩
  rw [he.eq_next hop]
  exact hP.next d hd

private theorem modify_apart (g : Members → Members) (hg : ∀ m, (g m).handle = m.handle) :
    Keeps (Apart world first P)
      (modify fun s ↦ { s with toMembers := g s.toMembers } : Program Unit) := by
  intro s hs
  refine ⟨hs.next, fun slot id hid ↦ hs.handle slot id ?_, hs.behind⟩
  rw [← hid]
  exact (congrFun (hg _) slot).symm

private theorem tryCreate_apart (hP : Plain P) {op : Operation} {ids : List (Option ℕ)}
    {what : Resource} (hop : op.plain = true) :
    Ensures (Apart world first P) (tryCreate world.libraries op ids what)
      fun h s ↦ Apart world first P s ∧ ∀ id, h = some id → first ≤ id := by
  refine Ensures.bind (invoke_apart hP hop) fun ok ↦ ?_
  cases ok with
  | false => exact fun s hs ↦ ⟨hs, fun _ h ↦ by cases h⟩
  | true =>
    intro s hs
    refine ⟨⟨Nat.le_succ_of_le hs.next, hs.handle, ?_⟩, ?_⟩
    · exact hs.behind.create (fun d contents hd ↦ hP.create d _ contents what hd) hP.stable
    · rintro id h
      obtain rfl := Option.some.inj h
      exact hs.next

private theorem createInto_apart (hP : Plain P) {slot : Slot} {op : Operation}
    {ids : List (Option ℕ)} {what : Resource} (hop : op.plain = true) :
    Keeps (Apart world first P) (createInto world.libraries slot op ids what) := by
  refine Ensures.bind (tryCreate_apart hP hop) fun h ↦ ?_
  rintro s ⟨hs, hnew⟩
  refine ⟨hs.next, fun slot' id hid ↦ ?_, hs.behind⟩
  change Function.update s.handle slot h slot' = some id at hid
  by_cases hslot : slot' = slot
  · subst hslot
    rw [Function.update_self] at hid
    exact hnew id hid
  · rw [Function.update_of_ne hslot] at hid
    exact hs.handle slot' id hid

private theorem destroy_apart (hP : Plain P) (id : ℕ) :
    Keeps (Apart world first P) (destroy id) :=
  fun _ hs ↦ ⟨hs.next, hs.handle, hs.behind.destroy hP.stable⟩

private theorem release_apart (hP : Plain P) (slot : Slot) :
    Keeps (Apart world first P) (release slot) := by
  refine Ensures.get_any fun s ↦ ?_
  cases s.handle slot with
  | none => exact fun _ hs ↦ hs
  | some id =>
    refine Ensures.bind (destroy_apart hP id) fun _ s hs ↦ ?_
    refine ⟨hs.next, fun slot' id hid ↦ ?_, hs.behind⟩
    change Function.update s.handle slot none slot' = some id at hid
    by_cases hslot : slot' = slot
    · subst hslot
      rw [Function.update_self] at hid
      cases hid
    · rw [Function.update_of_ne hslot] at hid
      exact hs.handle slot' id hid

private theorem destroyResources_apart (hP : Plain P) :
    Keeps (Apart world first P) (destroyResources world.libraries) := by
  have hrelease : ∀ slots, Keeps (Apart world first P) (releaseAll slots) := by
    intro slots
    induction slots with
    | nil => exact fun _ hs ↦ hs
    | cons slot slots ih => exact Ensures.bind (release_apart hP slot) fun _ ↦ ih
  have hsynchronize : Keeps (Apart world first P) (synchronize world.libraries) :=
    Ensures.get_any fun s ↦ Ensures.ite
      (fun _ ↦ Ensures.bind (invoke_apart hP rfl) fun _ _ hs ↦ hs) fun _ _ hs ↦ hs
  refine Ensures.bind hsynchronize fun _ ↦ Ensures.bind (hrelease _) fun _ ↦ ?_
  exact modify_apart (fun m ↦ { handle := m.handle }) fun _ ↦ rfl

private theorem nameTensors_apart (hP : Plain P) (remaining : ℕ) :
    Keeps (Apart world first P) (nameTensors world.libraries remaining) := by
  induction remaining with
  | zero => exact fun _ hs ↦ hs
  | succ remaining ih =>
    refine Ensures.get_any fun s ↦ Ensures.bind (invoke_apart hP rfl) fun name ↦ ?_
    cases name with
    | none => exact ih
    | some name =>
      refine Ensures.bind (invoke_apart hP rfl) fun mode ↦ ?_
      cases mode with
      | none => exact ih
      | input =>
        refine Ensures.ite (fun _ _ hs ↦ hs) fun _ ↦ Ensures.bind ?_ fun _ ↦ ih
        exact modify_apart (fun m ↦ { m with inputName := name }) fun _ ↦ rfl
      | output =>
        refine Ensures.ite (fun _ _ hs ↦ hs) fun _ ↦ Ensures.bind ?_ fun _ ↦ ih
        exact modify_apart (fun m ↦ { m with outputName := name }) fun _ ↦ rfl

private theorem readTensors_apart (hP : Plain P) :
    Keeps (Apart world first P) (readTensors world.libraries) := by
  have hstay : ∀ s, Apart world first P s →
      Apart world first P s := fun _ hs ↦ hs
  refine Ensures.get_any fun s ↦ Ensures.bind (invoke_apart hP rfl) fun count ↦ ?_
  refine Keeps.orReturn (nameTensors_apart hP _) hstay ?_
  refine Ensures.get_any fun s ↦ Ensures.ite (fun _ ↦ hstay) fun _ ↦ ?_
  refine Keeps.orReturn (invoke_apart hP rfl) hstay ?_
  refine Keeps.orReturn (invoke_apart hP rfl) hstay ?_
  refine Ensures.bind (invoke_apart hP rfl) fun input ↦ ?_
  refine Ensures.bind (invoke_apart hP rfl) fun output ↦ ?_
  cases checkedVolume input with
  | none => exact hstay
  | some inputElements =>
    cases checkedVolume output with
    | none => exact hstay
    | some outputElements =>
      refine Ensures.bind ?_ fun _ ↦ hstay
      exact modify_apart (fun m ↦ { m with
        inputBytes := inputElements * 4
        outputBytes := outputElements * 4 }) fun _ ↦ rfl

private theorem createExecution_apart (hP : Plain P) :
    Keeps (Apart world first P) (createExecution world.libraries) := by
  have hstay : ∀ s, Apart world first P s →
      Apart world first P s := fun _ hs ↦ hs
  refine Ensures.get_any fun s ↦ ?_
  refine Keeps.orReturn (createInto_apart hP rfl) hstay ?_
  refine Keeps.orReturn (createInto_apart hP rfl) hstay ?_
  refine Keeps.orReturn (createInto_apart hP rfl) hstay ?_
  refine Keeps.orReturn (createInto_apart hP rfl) hstay ?_
  refine Keeps.orReturn (createInto_apart hP rfl) hstay ?_
  refine Keeps.orReturn (createInto_apart hP rfl) hstay ?_
  exact Keeps.orReturn (createInto_apart hP rfl) hstay (createInto_apart hP rfl)

private theorem printErrors_apart (hP : Plain P) (parser turns : ℕ) :
    ∀ i, Keeps (Apart world first P) (printErrors world.libraries parser turns i) := by
  induction turns with
  | zero => exact fun _ _ hs ↦ hs
  | succ turns ih =>
    intro i
    refine Ensures.bind (invoke_apart hP rfl) fun count ↦ Ensures.ite (fun _ ↦ ?_) fun _ _ hs ↦ hs
    exact Ensures.bind (invoke_apart hP rfl) fun _ ↦ ih (i + 1)

private theorem readMetadata_apart (hP : Plain P) :
    Keeps (Apart world first P) (readMetadata world.libraries) := by
  have hdevice : ∀ metadata, Keeps (Apart world first P)
      (readDevice world.libraries metadata) := by
    intro metadata
    refine Keeps.orReturn (invoke_apart hP rfl) (fun _ hs ↦ hs) (Ensures.get_any fun s ↦ ?_)
    exact Keeps.orReturn (invoke_apart hP rfl) (fun _ hs ↦ hs) fun _ hs ↦ hs
  refine Ensures.get_any fun s ↦ Ensures.bind (invoke_apart hP rfl) fun runtimeVersion ↦ ?_
  refine Ensures.bind (invoke_apart hP rfl) fun driverVersion ↦ ?_
  refine Ensures.bind (hdevice _) fun metadata ↦ ?_
  exact modify_apart (fun m ↦ { m with runtimeMetadata := metadata }) fun _ ↦ rfl

end

/-! ### Loads -/

/-- The buffers of the tensors, in the order in which they are bound. -/
def bindings (handle : Slot → Option ℕ) : List ℕ :=
  (handle .inputDevice).toList ++ (handle .outputDevice).toList

/-- What waits or is captured was there before a load, whose context has the given addresses. -/
structure Device.Bound (first : ℕ) (context : Option ℕ) (addresses : List ℕ) (d : Device) :
    Prop where
  queue : ∀ stream, ∀ w ∈ d.queue stream, stream < first ∧ w.Within {id | id < first}
  capture : ∀ stream tasks, d.capture stream = some tasks → stream < first
  addresses : ∀ c, context = some c → d.addresses c = addresses

/-- What a load leaves: some of its tensors have their addresses. -/
def Loaded (world : World) (first : ℕ) (s : Machine) : Prop :=
  ∃ addresses, addresses <+: bindings s.handle ∧
    Apart world first (Device.Bound first (s.handle .context) addresses) s

section

variable {first : ℕ}

private theorem plain_within (S : Set ℕ) : Plain (Device.Within S) where
  stable _ _ h hstep := h.step hstep
  create _ _ contents _ h := h.create contents
  next _ h := h.next

private theorem plain_bound (first : ℕ) (context : Option ℕ) (addresses : List ℕ) :
    Plain (Device.Bound first context addresses) where
  stable _ _ h hstep := { h with queue := fun stream w hw ↦ h.queue stream w (hstep.mem_queue hw) }
  create _ _ _ what h := by cases what <;> exact { h with }
  next _ h := { h with }

private theorem Apart.unbound {s : Machine}
    (h : Apart world first (Device.Within {id | id < first}) s) :
    Apart world first (Device.Bound first (s.handle .context) []) s := by
  refine ⟨h.next, h.handle, h.behind.imp fun d hd ↦ ⟨hd.queue, ?_, fun c hc ↦ ?_⟩⟩
  · exact fun stream tasks htasks ↦ (hd.capture stream tasks htasks).1
  · refine List.eq_nil_iff_forall_not_mem.mpr fun a ha ↦ ?_
    have hlt : c < first := (hd.addresses c a ha).1
    exact absurd (h.handle .context c hc) (by omega)

private theorem Apart.loaded {s : Machine}
    (h : Apart world first (Device.Within {id | id < first}) s) : Loaded world first s :=
  ⟨[], List.nil_prefix, h.unbound⟩

private theorem call_apart {handle : Slot → Option ℕ} {op : Operation} {ids : List (Option ℕ)}
    {P : Device → Prop} {Q : Bool → Device → Prop} (hstable : ∀ ok, Stable (Q ok))
    (heffect : ∀ log d d', P d → Effect world log d (.use op ids) d' →
      Q (world.libraries.succeeds d.answered) d') :
    Ensures (fun s ↦ s.handle = handle ∧ Apart world first P s)
      (invoke op ids world.libraries.succeeds)
      fun ok s ↦ s.handle = handle ∧ Apart world first (Q ok) s := by
  rintro s ⟨hhandle, hs⟩
  refine ⟨hhandle, hs.next, hs.handle, hs.behind.use (hstable _) fun d d' hanswered hd he ↦ ?_⟩
  have hQ := heffect s.log d d' hd he
  rw [hanswered] at hQ
  exact hQ

private theorem bind_spec {handle : Slot → Option ℕ} {addresses : List ℕ} {slot : Slot} :
    Ensures (fun s ↦ s.handle = handle ∧
        Apart world first (Device.Bound first (handle .context) addresses) s)
      (invoke .setTensorAddress [handle .context, handle slot] world.libraries.succeeds)
      fun ok s ↦ s.handle = handle ∧ Apart world first (Device.Bound first (handle .context)
        (addresses ++ if ok then (handle slot).toList else [])) s := by
  refine call_apart (Q := fun ok ↦ Device.Bound first (handle .context)
    (addresses ++ if ok then (handle slot).toList else [])) (fun ok ↦ (plain_bound ..).stable) ?_
  intro log d d' hd he
  obtain ⟨c, a, hc, ha, rfl⟩ := he.bind_cases
  rw [hc, ha]
  rw [hc] at hd
  split
  · refine { hd with addresses := ?_ }
    rintro _ ⟨⟩
    rw [← hd.addresses c rfl]
    exact Function.update_self ..
  · rw [List.append_nil]
    exact { hd with }

private theorem bindTensors_loaded :
    Ensures (Apart world first (Device.Within {id | id < first})) (bindTensors world.libraries)
      fun _ ↦ Loaded world first := by
  refine Ensures.get fun s ↦ ?_
  have hloaded : ∀ addresses, addresses <+: bindings s.handle → ∀ t, t.handle = s.handle ∧
      Apart world first (Device.Bound first (s.handle .context) addresses) t →
      Loaded world first t := by
    rintro addresses hprefix t ⟨ht, hbound⟩
    refine ⟨addresses, ?_, ?_⟩
    · rwa [ht]
    · rwa [ht]
  refine Ensures.mono (P := fun t ↦ t.handle = s.handle ∧
    Apart world first (Device.Bound first (s.handle .context) []) t) ?_ ?_ fun _ _ h ↦ h
  · refine Ensures.bind bind_spec fun ok ↦ ?_
    cases ok with
    | false => exact hloaded _ List.nil_prefix
    | true =>
      refine bind_spec.weaken fun ok t ht ↦ hloaded _ ?_ t ht
      cases ok with
      | false => simp [bindings]
      | true => exact List.prefix_rfl
  · rintro _ ⟨rfl, hs⟩
    exact ⟨rfl, hs.unbound⟩

private theorem readMetadata_loaded :
    Keeps (Loaded world first) (readMetadata world.libraries) := by
  rintro s ⟨addresses, hprefix, hs⟩
  have hhandle : ((readMetadata world.libraries).run s).2.handle = s.handle :=
    readMetadata_on (P := fun m ↦ m.handle = s.handle) (fun _ _ h ↦ h) s rfl
  refine ⟨addresses, ?_, ?_⟩
  · rwa [hhandle]
  · rw [hhandle]
    exact readMetadata_apart (plain_bound ..) s hs

private theorem initializeExecution_loaded :
    Ensures (Apart world first (Device.Within {id | id < first}))
      (initializeExecution world.libraries) fun _ ↦ Loaded world first := by
  have hplain := plain_within {id | id < first}
  refine Ensures.get_any fun s ↦ Ensures.ite (fun _ _ hs ↦ hs.loaded) fun _ ↦ ?_
  refine Keeps.orReturn (readTensors_apart hplain) (fun _ hs ↦ hs.loaded) ?_
  refine Keeps.orReturn (createExecution_apart hplain) (fun _ hs ↦ hs.loaded) ?_
  refine Ensures.bind bindTensors_loaded fun ok ↦ ?_
  cases ok with
  | false => exact fun _ hs ↦ hs
  | true => exact Ensures.bind readMetadata_loaded fun _ _ hs ↦ hs

private theorem deserialize_loaded (plan : List (Option ℕ)) :
    Ensures (Apart world first (Device.Within {id | id < first}))
      (deserialize world.libraries plan) fun _ ↦ Loaded world first := by
  have hplain := plain_within {id | id < first}
  refine Keeps.orReturn (createInto_apart hplain rfl) (fun _ hs ↦ hs.loaded) ?_
  refine Ensures.get_any fun s ↦ ?_
  exact Keeps.orReturn (createInto_apart hplain rfl) (fun _ hs ↦ hs.loaded)
    initializeExecution_loaded

private theorem loadSerializedEngine_loaded :
    Ensures (Apart world first (Device.Within {id | id < first}))
      (loadSerializedEngine world.libraries) fun _ ↦ Loaded world first := by
  refine Ensures.bind (invoke_apart (plain_within _) rfl) fun data ↦ ?_
  cases data with
  | none => exact fun _ hs ↦ hs.loaded
  | some data => exact Ensures.ite (fun _ _ hs ↦ hs.loaded) fun _ ↦ deserialize_loaded []

private theorem withLocal_loaded {op : Operation} {ids : List (Option ℕ)} {what : Resource}
    {body : ℕ → Program Bool} (hop : op.plain = true)
    (hbody : ∀ id, Ensures (Apart world first (Device.Within {id | id < first})) (body id)
      fun _ ↦ Loaded world first) :
    Ensures (Apart world first (Device.Within {id | id < first}))
      (withLocal world.libraries op ids what body) fun _ ↦ Loaded world first := by
  refine Ensures.bind (tryCreate_apart (plain_within _) hop) fun h ↦ ?_
  cases h with
  | none => exact fun s hs ↦ hs.1.loaded
  | some id =>
    have hdestroy : Keeps (Loaded world first) (destroy id) := by
      rintro s ⟨addresses, hprefix, hs⟩
      exact ⟨addresses, hprefix, destroy_apart (plain_bound ..) id s hs⟩
    refine Ensures.mono (P := Apart world first (Device.Within {id | id < first}))
      (Ensures.bind (hbody id) fun _ ↦ ?_) (fun s hs ↦ hs.1) fun _ _ hs ↦ hs
    exact Ensures.bind hdestroy fun _ _ hs ↦ hs

private theorem loadOnnx_loaded :
    Ensures (Apart world first (Device.Within {id | id < first})) (loadOnnx world.libraries)
      fun _ ↦ Loaded world first := by
  have hplain := plain_within {id | id < first}
  refine withLocal_loaded rfl fun builder ↦ withLocal_loaded rfl fun network ↦ ?_
  refine withLocal_loaded rfl fun parser ↦ Ensures.bind (invoke_apart hplain rfl) fun ok ↦ ?_
  cases ok with
  | false => exact Ensures.bind (printErrors_apart hplain _ _ _) fun _ _ hs ↦ hs.loaded
  | true =>
    refine withLocal_loaded rfl fun config ↦ Ensures.bind (invoke_apart hplain rfl) fun _ ↦ ?_
    exact withLocal_loaded rfl fun serialized ↦ deserialize_loaded [some serialized]

end

/-! ### Between two calls -/

/-- The buffers that inferences use. -/
def buffers (handle : Slot → Option ℕ) : Set ℕ :=
  {id | ∃ slot ∈ ([.inputDevice, .outputDevice, .inputHost, .outputHost] : List Slot),
    handle slot = some id}

/-- The device does what the members are for: the buffers are the matter of the stream, whose work
leaves the pinned input, the context has the addresses of the tensors, and a graph is one inference
of the context. -/
structure Coherent (world : World) (handle : Slot → Option ℕ) (captured : Option (List Task))
    (d : Device) : Prop where
  isolated : ∀ stream, handle .stream = some stream → d.toState.Isolated stream (buffers handle)
  pinned : ∀ stream, handle .stream = some stream → ∀ w ∈ d.queue stream,
    handle .inputHost ≠ some w.target
  addresses : ∀ context, handle .context = some context →
    d.addresses context <+: bindings handle
  capture : ∀ stream, handle .stream = some stream → d.capture stream = captured
  graph : ∀ graph, handle .graphExecution = some graph → ∃ context source target,
    handle .context = some context ∧ handle .inputDevice = some source ∧
      handle .outputDevice = some target ∧
      d.graph graph = [inferTask world.net context source target]

/-- Between two calls of the owner every device is coherent. -/
def Quiet (world : World) (s : Machine) : Prop := Behind world (Coherent world s.handle none) s

/-- A new engine is quiet. -/
theorem quiet_new : Quiet world {} := by
  intro d hd
  have hinitial : d = .initial := by
    generalize hlog : ({} : Machine).log = log at hd
    induction hd with
    | start => rfl
    | step _ hstep ih =>
      obtain rfl := ih hlog
      obtain ⟨hq⟩ := hstep
      cases hq
    | entry => simp at hlog
  subst hinitial
  exact ⟨rfl, nofun, nofun, nofun, nofun, nofun⟩

private theorem Loaded.quiet {first : ℕ} {s : Machine} (h : Loaded world first s)
    (hgraph : s.handle .graphExecution = none) : Quiet world s := by
  obtain ⟨addresses, hprefix, hs⟩ := h
  refine hs.behind.imp fun d hd ↦ ?_
  have hnew : ∀ stream, s.handle .stream = some stream → d.queue stream = [] := by
    intro stream hstream
    refine List.eq_nil_iff_forall_not_mem.mpr fun w hw ↦ ?_
    exact absurd (hs.handle .stream stream hstream) (by have := (hd.queue stream w hw).1; omega)
  refine ⟨fun stream hstream ↦ ⟨?_, ?_⟩, ?_, ?_, ?_, ?_⟩
  · rw [hnew stream hstream]
    exact fun _ hw ↦ by cases hw
  · rintro stream' w - hw ⟨slot, -, hslot⟩
    have hlt : w.target < first := (hd.queue stream' w hw).2 _ (.inl rfl)
    exact absurd (hs.handle slot _ hslot) (by omega)
  · intro stream hstream w hw
    rw [hnew stream hstream] at hw
    cases hw
  · intro context hcontext
    rw [hd.addresses context hcontext]
    exact hprefix
  · intro stream hstream
    cases hcapture : d.capture stream with
    | none => rfl
    | some tasks =>
      have hlt := hd.capture stream tasks hcapture
      exact absurd (hs.handle .stream stream hstream) (by omega)
  · intro graph h
    rw [hgraph] at h
    cases h

private theorem destroyResources_unknown {p : Point} :
    Ensures (fun s ↦ At p s ∧ Behind world (fun _ ↦ True) s) (destroyResources world.libraries)
      fun _ s ↦ Apart world s.next (Device.Within {id | id < s.next}) s := by
  rintro s ⟨hs, hbehind⟩
  have hplain : Plain fun _ ↦ True := ⟨fun _ _ _ _ ↦ trivial, fun _ _ _ _ _ ↦ trivial,
    fun _ _ ↦ trivial⟩
  have hend := destroyResources_spec world.libraries s hs
  have hapart : Apart world 0 (fun _ ↦ True) ((destroyResources world.libraries).run s).2 :=
    destroyResources_apart hplain s ⟨Nat.zero_le _, fun _ _ _ ↦ Nat.zero_le _, hbehind⟩
  refine ⟨le_rfl, fun slot id hid ↦ ?_, fun d hd ↦ ⟨(hapart.behind d hd).1, ?_⟩⟩
  · rw [hend.members] at hid
    cases hid
  · exact (hd.within hend.lawful).mono hend.fresh

/-- A load leaves every device coherent. -/
theorem load_quiet {past : List (Entry ℕ Resource Operation)} {k : ℕ} {s : Machine}
    (hs : Resting past k s) (hbehind : Behind world (fun _ ↦ True) s) (modelPath : Bytes) :
    Quiet world ((load world.libraries modelPath).run s).2 := by
  obtain ⟨p, -, -, -, -, hp⟩ := id hs
  have hload : Ensures (fun s ↦ At p s ∧ Behind world (fun _ ↦ True) s)
      (load world.libraries modelPath) fun _ s ↦ ∃ first, Loaded world first s := by
    refine Ensures.bind destroyResources_unknown fun _ s hs ↦ ⟨s.next, ?_⟩
    exact Ensures.ite (fun _ ↦ loadOnnx_loaded) (fun _ ↦ loadSerializedEngine_loaded) s hs
  obtain ⟨first, hfirst⟩ := hload s ⟨hp, hbehind⟩
  obtain ⟨-, -, hgraph⟩ := load_resting world.libraries hs modelPath
  exact hfirst.quiet hgraph

/-! ### Work between the buffers -/

section

variable {handle : Slot → Option ℕ} {captured : Option (List Task)} {d d' : Device}
  {context stream source target id : ℕ} {tasks : List Task} {v : List Single}
  {log : List (Entry ℕ Resource Operation)}

/-- Work that is done later keeps the device coherent. -/
theorem stable_coherent : Stable (Coherent world handle captured) := by
  intro d t h hstep
  exact { h with
    isolated := fun stream hstream ↦ (h.isolated stream hstream).step hstep
    pinned := fun stream hstream w hw ↦ h.pinned stream hstream w (hstep.mem_queue hw) }

/-- The number of the next handle is not part of coherence. -/
theorem Coherent.next (h : Coherent world handle captured d) :
    Coherent world handle captured d.next := { h with }

/-- The contents of a buffer are not part of coherence. -/
theorem Coherent.write (h : Coherent world handle captured d) :
    Coherent world handle captured { d with toState := d.toState.write id v } :=
  { h with isolated := fun stream hstream ↦
      ⟨(h.isolated stream hstream).inside, (h.isolated stream hstream).outside⟩ }

/-- Work on the buffers that leaves the pinned input may be submitted. -/
theorem Coherent.submit (h : Coherent world handle captured d)
    (hstream : handle .stream = some stream)
    (htasks : ∀ w ∈ tasks, w.Within (buffers handle) ∧ handle .inputHost ≠ some w.target) :
    Coherent world handle captured (d.submit stream tasks) := by
  refine { h with isolated := fun q hq ↦ ?_, pinned := fun q hq w hw ↦ ?_ }
  · obtain rfl := Option.some.inj (hstream.symm.trans hq)
    exact (h.isolated _ hq).submit fun w hw ↦ (htasks w hw).1
  · rcases State.mem_queue_submit hw with hwaits | ⟨-, hnew⟩
    · exact h.pinned q hq w hwaits
    · exact (htasks w hnew).2

/-- Outside a capture a context works on its stream. -/
theorem Coherent.launch_eq (h : Coherent world handle none d)
    (hstream : handle .stream = some stream) : d.launch stream tasks = d.submit stream tasks := by
  rw [Device.launch, h.capture stream hstream]

/-- The four buffers of the engine are its buffers. -/
theorem mem_buffers {slot : Slot} (hid : handle slot = some id)
    (hslot : slot ∈ ([.inputDevice, .outputDevice, .inputHost, .outputHost] : List Slot)) :
    id ∈ buffers handle :=
  ⟨slot, hslot, hid⟩

/-- The pinned input and the output tensor have their own buffers. -/
def Separate (handle : Slot → Option ℕ) : Prop :=
  ∀ id, handle .inputHost = some id → handle .outputDevice ≠ some id

/-- The work of the engine's context, which may be left half done when the call fails. -/
def Works (world : World) (handle : Slot → Option ℕ) (ok : Bool) (tasks : List Task) : Prop :=
  (∀ w ∈ tasks, w.Within (buffers handle) ∧ handle .inputHost ≠ some w.target) ∧
    (ok = true → ∃ context source target, handle .context = some context ∧
      handle .inputDevice = some source ∧ handle .outputDevice = some target ∧
      tasks = [inferTask world.net context source target])

private theorem bindings_pair (h : [source, target] <+: bindings handle) :
    handle .inputDevice = some source ∧ handle .outputDevice = some target := by
  cases hsource : handle .inputDevice <;> cases htarget : handle .outputDevice <;>
    simp_all [bindings]

private theorem bindings_second {addresses : List ℕ} (h : addresses <+: bindings handle)
    (hid : addresses[1]? = some id) : handle .outputDevice = some id := by
  have hsecond : (bindings handle)[1]? = some id := by
    obtain ⟨rest, hrest⟩ := h
    rw [← hrest, List.getElem?_append_left (List.getElem?_eq_some_iff.mp hid).1, hid]
  cases hsource : handle .inputDevice <;> cases htarget : handle .outputDevice <;>
    simp_all [bindings]

/-- Work on the output tensor alone. -/
theorem works_output {ok : Bool} (hseparate : Separate handle)
    (htasks : ∀ w ∈ tasks, handle .outputDevice = some w.target ∧ w.sources = [])
    (hok : ok = false) : Works world handle ok tasks := by
  refine ⟨fun w hw ↦ ⟨?_, fun hpinned ↦ hseparate _ hpinned (htasks w hw).1⟩, by simp [hok]⟩
  rintro k (rfl | hk)
  · exact mem_buffers (htasks w hw).1 (by decide)
  · rw [(htasks w hw).2] at hk
    cases hk

/-- One inference of the context. -/
theorem works_infer {ok : Bool} (hseparate : Separate handle)
    (hcontext : handle .context = some context) (hsource : handle .inputDevice = some source)
    (htarget : handle .outputDevice = some target) :
    Works world handle ok [inferTask world.net context source target] := by
  refine ⟨fun w hw ↦ ?_, fun _ ↦ ⟨_, _, _, hcontext, hsource, htarget, rfl⟩⟩
  obtain rfl := List.mem_singleton.mp hw
  refine ⟨?_, fun hpinned ↦ hseparate _ hpinned htarget⟩
  rintro k (rfl | hk)
  · exact mem_buffers htarget (by decide)
  · obtain rfl := List.mem_singleton.mp hk
    exact mem_buffers hsource (by decide)

/-- Enqueueing launches the work of the network on the stream. -/
theorem enqueue_works (hseparate : Separate handle) (hcontext : handle .context = some context)
    (hd : Coherent world handle captured d)
    (h : Effect world log d (.use .enqueueV3 [some context, some stream]) d') :
    ∃ tasks, d' = (d.launch stream tasks).next ∧
      Works world handle (world.libraries.succeeds d.answered) tasks := by
  have hprefix := hd.addresses context hcontext
  cases h with
  | plain hplain => cases hplain
  | enqueue hok haddresses =>
    rw [haddresses] at hprefix
    obtain ⟨hsource, htarget⟩ := bindings_pair hprefix
    exact ⟨_, rfl, works_infer hseparate hcontext hsource htarget⟩
  | enqueueFails hfails htasks =>
    refine ⟨_, rfl, works_output hseparate (fun w hw ↦ ?_) hfails⟩
    exact ⟨bindings_second hprefix (htasks w hw).2, (htasks w hw).1⟩

end

end MarketData.TensorRT
