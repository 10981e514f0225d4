import MarketData.Engine.Owners

/-!
# The loads of the TensorRT engine

A load creates the members in a fixed order and stops where a call fails, so what it leaves is
told by the number of members that are there.
-/

namespace MarketData.TensorRT

open ByteText Cpp Ledger StateProgram

variable {libraries : Libraries} {p : Point}

/-! ### Stages -/

/-- The place of a member in the order of creation. -/
def Slot.rank : Slot → ℕ
  | .runtime => 0
  | .engine => 1
  | .context => 2
  | .stream => 3
  | .deviceStart => 4
  | .deviceStop => 5
  | .inputDevice => 6
  | .outputDevice => 7
  | .inputHost => 8
  | .outputHost => 9
  | .graphExecution => 10

/-- The members of the first ranks are there and the others are not. A graph needs the context and
the stream. -/
structure Members.Staged (k : ℕ) (m : Members) : Prop where
  rank : ∀ slot, slot ≠ .graphExecution → ((m.handle slot).isSome ↔ slot.rank < k)
  graph : (m.handle .graphExecution).isSome → 4 ≤ k

/-- A stage of a load, with the sizes of the buffers: there is no graph yet. -/
structure Members.Loading (k : ℕ) (inputBytes outputBytes : UInt64) (m : Members) : Prop where
  staged : m.Staged k
  noGraph : m.handle .graphExecution = none
  inputBytes : m.inputBytes = inputBytes
  outputBytes : m.outputBytes = outputBytes

/-- Some stage of a load. -/
def Members.Partial (m : Members) : Prop := ∃ k a b, m.Loading k a b

/-- What a part of a load leaves: a stage when it succeeds, or else some stage. -/
def Leaves (p : Point) (k : ℕ) (a b : UInt64) (ok : Bool) (s : Machine) : Prop :=
  if ok then Among p (Members.Loading k a b) s else Among p Members.Partial s

/-- A new engine has no member. -/
theorem staged_empty : ({} : Members).Staged 0 :=
  ⟨fun _ _ ↦ by simp, fun h ↦ by cases h⟩

/-- The stage depends on the handles only. -/
theorem Members.Staged.of_handle {k : ℕ} {m m' : Members} (h : m.Staged k)
    (heq : m'.handle = m.handle) : m'.Staged k where
  rank := by simpa only [heq] using h.rank
  graph := by simpa only [heq] using h.graph

/-- So does the stage inside a load, but for the sizes. -/
theorem Members.Loading.of_handle {k : ℕ} {a b : UInt64} {m m' : Members} (h : m.Loading k a b)
    (heq : m'.handle = m.handle) : m'.Loading k m'.inputBytes m'.outputBytes :=
  ⟨h.staged.of_handle heq, (congrFun heq _).trans h.noGraph, rfl, rfl⟩

/-- The members up to the stage are there. -/
theorem Members.Staged.isSome {k : ℕ} {m : Members} (h : m.Staged k) {slot : Slot}
    (hslot : slot.rank < k) (hne : slot ≠ .graphExecution := by decide) :
    (m.handle slot).isSome :=
  (h.rank slot hne).mpr hslot

private theorem rank_injective : Function.Injective Slot.rank := by
  intro slot slot' h
  cases slot <;> cases slot' <;> first | rfl | cases h

/-- The next member of a load is there, when its creation succeeds. -/
theorem Members.Loading.set {k : ℕ} {a b : UInt64} {m : Members} (h : m.Loading k a b) {slot : Slot}
    (hslot : slot.rank = k) (hne : slot ≠ .graphExecution) (v : Option ℕ) :
    (m.set slot v).Loading (if v.isSome then k + 1 else k) a b := by
  have hnoGraph : (m.set slot v).handle .graphExecution = none := by
    rw [handle_set_of_ne _ _ hne.symm]
    exact h.noGraph
  refine ⟨⟨?_, fun hg ↦ by rw [hnoGraph] at hg; cases hg⟩, hnoGraph, h.inputBytes, h.outputBytes⟩
  intro slot' hne'
  rcases eq_or_ne slot' slot with rfl | hother
  · rw [handle_set_self, hslot]
    cases v with
    | none => simp
    | some id => simp
  · have hrank : slot'.rank ≠ k := fun heq ↦ hother (rank_injective (heq.trans hslot.symm))
    rw [handle_set_of_ne _ _ hother, h.staged.rank slot' hne']
    split <;> omega

/-- A member that is created behind the members before it. -/
theorem createInto_next {k : ℕ} {a b : UInt64} {m : Members} {slot : Slot} {op : Operation}
    {ids : List (Option ℕ)} {what : Resource} (hm : m.Loading k a b) (hslot : slot.rank = k)
    (hne : slot ≠ .graphExecution) (hids : ∀ h ∈ ids, { p with members := m }.Names h)
    (hwhat : m.resource slot = what) :
    Ensures (At { p with members := m }) (createInto libraries slot op ids what)
      (Leaves p (k + 1) a b) := by
  have hfree : m.handle slot = none := by
    rw [← Option.not_isSome_iff_eq_none, hm.staged.rank slot hne, hslot]
    exact lt_irrefl k
  refine (createInto_spec hids hfree hwhat fun _ ↦ hm.noGraph).weaken ?_
  rintro ok s ⟨_, ⟨h, rfl, rfl⟩, hs⟩
  have hset := hm.set hslot hne h
  cases h with
  | none => exact ⟨_, ⟨_, _, _, hset⟩, hs⟩
  | some id => exact ⟨_, hset, hs⟩

/-- A member that is created from nothing, behind the members before it. -/
theorem createInto_alone {k : ℕ} {a b : UInt64} {slot : Slot} {op : Operation} {what : Resource}
    (hslot : slot.rank = k) (hne : slot ≠ .graphExecution)
    (hwhat : ∀ m : Members, m.inputBytes = a → m.outputBytes = b → m.resource slot = what) :
    Ensures (Among p (Members.Loading k a b)) (createInto libraries slot op [] what)
      (Leaves p (k + 1) a b) := by
  refine among_spec fun m hm ↦ ?_
  exact createInto_next hm hslot hne (List.forall_mem_nil _)
    (hwhat m hm.inputBytes hm.outputBytes)

private theorem createExecution_spec {a b : UInt64} :
    Ensures (Among p (Members.Loading 2 a b)) (createExecution libraries) (Leaves p 10 a b) := by
  refine among_spec fun m hm ↦ get_spec fun s hmembers _ ↦ ?_
  rw [hmembers]
  obtain rfl := hm.inputBytes
  obtain rfl := hm.outputBytes
  have hengine : { p with members := m }.Names (m.handle .engine) :=
    Point.names_handle (p := { p with members := m }) (hm.staged.isSome (by decide))
  refine .orReturn
    (createInto_next hm rfl (by decide) (List.forall_mem_singleton.mpr hengine) rfl) ?_
  refine .orReturn (createInto_alone rfl (by decide) fun _ _ _ ↦ rfl) ?_
  refine .orReturn (createInto_alone rfl (by decide) fun _ _ _ ↦ rfl) ?_
  refine .orReturn (createInto_alone rfl (by decide) fun _ _ _ ↦ rfl) ?_
  refine .orReturn (createInto_alone rfl (by decide) fun _ h _ ↦ congrArg _ h) ?_
  refine .orReturn (createInto_alone rfl (by decide) fun _ _ h ↦ congrArg _ h) ?_
  refine .orReturn (createInto_alone rfl (by decide) fun _ h _ ↦ congrArg _ h) ?_
  exact createInto_alone rfl (by decide) fun _ _ h ↦ congrArg _ h

/-- The stage with the runtime and the engine, which own the given handles. -/
structure Members.Deserialized (handle : Slot → Option ℕ) (m : Members) : Prop where
  handle : m.handle = handle
  loading : m.Loading 2 m.inputBytes m.outputBytes

section Deserialized

variable {handle : Slot → Option ℕ}

private theorem names_engine {m : Members} (h : m.Deserialized handle) :
    ∀ i ∈ [handle .engine], { p with members := m }.Names i := by
  rw [← h.handle]
  exact List.forall_mem_singleton.mpr (Point.names_handle (h.loading.staged.isSome (by decide)))

private theorem Members.Deserialized.update {m m' : Members} (h : m.Deserialized handle)
    (heq : m'.handle = m.handle) : m'.Deserialized handle ∧ m.Alike m' := by
  refine ⟨⟨heq.trans h.handle, h.loading.of_handle heq⟩, heq, ?_⟩
  intro slot hslot
  -- There is no buffer yet, whose resource the sizes could change.
  have hrank : slot.rank < 2 :=
    (h.loading.staged.rank slot (by rintro rfl; rw [h.loading.noGraph] at hslot; cases hslot)).mp
      hslot
  cases slot <;> first | rfl | exact absurd hrank (by decide)

private theorem nameTensors_spec (remaining : ℕ) :
    Keeps (Among p (Members.Deserialized handle)) (nameTensors libraries remaining) := by
  induction remaining with
  | zero => exact fun _ hs ↦ hs
  | succ remaining ih =>
    refine get_among fun s hm ↦ ?_
    have hengine : ∀ m : Members, m.Deserialized handle →
        ∀ i ∈ [s.handle .engine], { p with members := m }.Names i := by
      intro m h
      rw [hm.handle]
      exact names_engine h
    refine Ensures.bind (invoke_among hengine) fun name ↦ ?_
    cases name with
    | none => exact ih
    | some name =>
      refine Ensures.bind (invoke_among hengine) fun mode ↦ ?_
      cases mode with
      | none => exact ih
      | input =>
        refine Ensures.ite (fun _ _ hs ↦ hs) fun _ ↦ ?_
        exact Ensures.bind (modify_spec (fun m ↦ { m with inputName := name })
          fun _ h ↦ h.update rfl) fun _ ↦ ih
      | output =>
        refine Ensures.ite (fun _ _ hs ↦ hs) fun _ ↦ ?_
        exact Ensures.bind (modify_spec (fun m ↦ { m with outputName := name })
          fun _ h ↦ h.update rfl) fun _ ↦ ih

private theorem readTensors_spec :
    Keeps (Among p (Members.Deserialized handle)) (readTensors libraries) := by
  refine get_among fun s hm ↦ ?_
  rw [hm.handle]
  have hengine : ∀ m : Members, m.Deserialized handle →
      ∀ i ∈ [handle .engine], { p with members := m }.Names i := fun _ h ↦ names_engine h
  have hstay : ∀ s, Among p (Members.Deserialized handle) s →
      Among p (Members.Deserialized handle) s := fun _ hs ↦ hs
  refine Ensures.bind (invoke_among hengine) fun count ↦ ?_
  refine Keeps.orReturn (nameTensors_spec _) hstay ?_
  refine get_among fun s' _ ↦ Ensures.ite (fun _ ↦ hstay) fun _ ↦ ?_
  refine Keeps.orReturn (invoke_among hengine) hstay ?_
  refine Keeps.orReturn (invoke_among hengine) hstay ?_
  refine Ensures.bind (invoke_among hengine) fun input ↦ ?_
  refine Ensures.bind (invoke_among hengine) fun output ↦ ?_
  cases checkedVolume input with
  | none => exact hstay
  | some inputElements =>
    cases checkedVolume output with
    | none => exact hstay
    | some outputElements =>
      exact Ensures.bind (modify_spec (fun m ↦ { m with
        inputBytes := inputElements * 4
        outputBytes := outputElements * 4 }) fun _ h ↦ h.update rfl) fun _ ↦ hstay

end Deserialized

private theorem bindTensors_spec {a b : UInt64} :
    Keeps (Among p (Members.Loading 10 a b)) (bindTensors libraries) := by
  refine among_spec fun m hm ↦ ?_
  have hstay : ∀ s, At { p with members := m } s → Among p (Members.Loading 10 a b) s :=
    fun s hs ↦ ⟨m, hm, hs⟩
  refine get_spec fun s hmembers _ ↦ ?_
  rw [hmembers]
  have hids : ∀ slot ∈ [Slot.inputDevice, .outputDevice],
      ∀ h ∈ [m.handle .context, m.handle slot], { p with members := m }.Names h := by
    intro slot hslot
    have hnames : ∀ slot : Slot, slot ≠ .graphExecution → slot.rank < 10 →
        { p with members := m }.Names (m.handle slot) :=
      fun slot hne hrank ↦ Point.names_handle (hm.staged.isSome hrank hne)
    have hother : slot ≠ .graphExecution ∧ slot.rank < 10 := by
      rcases List.mem_pair.mp hslot with rfl | rfl <;> decide
    intro h hh
    rcases List.mem_pair.mp hh with rfl | rfl
    · exact hnames _ (by decide) (by decide)
    · exact hnames _ hother.1 hother.2
  refine Keeps.orReturn (invoke_spec (hids _ (by decide))) hstay ?_
  exact (invoke_spec (hids _ (by decide))).weaken fun _ ↦ hstay

private theorem readDevice_spec {P : Members → Prop} (metadata : RuntimeMetadata) :
    Keeps (Among p P) (readDevice libraries metadata) := by
  refine Keeps.orReturn (invoke_among fun _ _ ↦ List.forall_mem_nil _) (fun _ hs ↦ hs) ?_
  refine get_among fun s _ ↦ ?_
  exact Keeps.orReturn (invoke_among fun _ _ ↦ List.forall_mem_nil _) (fun _ hs ↦ hs) fun _ hs ↦ hs

private theorem readMetadata_spec {P : Members → Prop}
    (hP : ∀ m metadata, P m → P { m with runtimeMetadata := metadata }) :
    Keeps (Among p P) (readMetadata libraries) := by
  refine get_among fun s _ ↦ ?_
  refine Ensures.bind (invoke_among fun _ _ ↦ List.forall_mem_nil _) fun runtimeVersion ↦ ?_
  refine Ensures.bind (invoke_among fun _ _ ↦ List.forall_mem_nil _) fun driverVersion ↦ ?_
  refine Ensures.bind (readDevice_spec _) fun metadata ↦ ?_
  exact modify_spec (fun m ↦ { m with runtimeMetadata := metadata }) fun m hm ↦
    ⟨hP m metadata hm, rfl, fun slot _ ↦ by cases slot <;> rfl⟩

/-- A load that stops leaves some of the members. -/
theorem Members.Loading.toPartial {k : ℕ} {a b : UInt64} {m : Members} (h : m.Loading k a b) :
    m.Partial :=
  ⟨k, a, b, h⟩

private theorem Among.imp {P P' : Members → Prop} {s : Machine} (h : Among p P s)
    (hP : ∀ m, P m → P' m) : Among p P' s := by
  obtain ⟨m, hm, hs⟩ := h
  exact ⟨m, hP m hm, hs⟩

/-- `initialize_execution` leaves some of the members. -/
theorem initializeExecution_spec {a b : UInt64} :
    Ensures (Among p (Members.Loading 2 a b)) (initializeExecution libraries)
      fun _ ↦ Among p Members.Partial := by
  refine among_spec fun m hm ↦ get_spec fun s hmembers _ ↦ ?_
  rw [hmembers]
  refine Ensures.ite (fun _ s hs ↦ ⟨m, hm.toPartial, hs⟩) fun _ ↦ ?_
  have hstart : ∀ s, At { p with members := m } s → Among p (Members.Deserialized m.handle) s :=
    fun s hs ↦ ⟨m, ⟨rfl, hm.of_handle rfl⟩, hs⟩
  refine Ensures.mono ?_ hstart fun _ _ hs ↦ hs
  refine Keeps.orReturn readTensors_spec (fun s hs ↦ hs.imp fun m h ↦ h.loading.toPartial) ?_
  refine among_spec fun m hm ↦ ?_
  have hexecution : Ensures (At { p with members := m }) (createExecution libraries)
      (Leaves p 10 m.inputBytes m.outputBytes) :=
    createExecution_spec.mono (fun s hs ↦ ⟨m, hm.loading, hs⟩) fun _ _ hs ↦ hs
  refine .orReturn hexecution ?_
  refine Keeps.orReturn bindTensors_spec (fun s hs ↦ hs.imp fun m h ↦ h.toPartial) ?_
  refine Ensures.mono ?_ (fun s hs ↦ hs.imp fun m h ↦ h.toPartial) fun _ _ hs ↦ hs
  exact Ensures.bind (readMetadata_spec fun m _ ⟨k, _, _, h⟩ ↦ ⟨k, _, _, h.of_handle rfl⟩)
    fun _ _ hs ↦ hs

/-- The members before a load, once those of the load before are gone. -/
theorem loading_empty : ({} : Members).Loading 0 0 0 :=
  ⟨staged_empty, rfl, rfl, rfl⟩

private theorem deserialize_spec {plan : List (Option ℕ)} (hp : p.members = {})
    (hplan : ∀ h ∈ plan, ∃ id, h = some id ∧ id ∈ p.locals.map Prod.fst) :
    Ensures (At p) (deserialize libraries plan) fun _ ↦ Among p Members.Partial := by
  have hstart : ∀ s, At p s → Among p (Members.Loading 0 0 0) s :=
    fun s hs ↦ ⟨{}, loading_empty, hp ▸ hs⟩
  refine Ensures.mono ?_ hstart fun _ _ hs ↦ hs
  refine .orReturn (createInto_alone rfl (by decide) fun _ _ _ ↦ rfl) ?_
  refine among_spec fun m hm ↦ get_spec fun s hmembers _ ↦ ?_
  rw [hmembers]
  refine .orReturn (createInto_next hm rfl (by decide) ?_ rfl) initializeExecution_spec
  refine List.forall_mem_cons.mpr ⟨Point.names_handle (hm.staged.isSome (by decide)), ?_⟩
  intro h hh
  obtain ⟨id, rfl, hid⟩ := hplan h hh
  exact Point.names_local hid

/-- `load_serialized_engine` leaves some of the members. -/
theorem loadSerializedEngine_spec (hp : p.members = {}) :
    Ensures (At p) (loadSerializedEngine libraries) fun _ ↦ Among p Members.Partial := by
  refine Ensures.bind (invoke_spec (List.forall_mem_nil _)) fun data ↦ ?_
  have hstay : ∀ s, At p s → Among p Members.Partial s :=
    fun s hs ↦ ⟨{}, loading_empty.toPartial, hp ▸ hs⟩
  cases data with
  | none => exact hstay
  | some data =>
    exact Ensures.ite (fun _ ↦ hstay) fun _ ↦ deserialize_spec hp (List.forall_mem_nil _)

private theorem printErrors_spec {parser : ℕ} (hparser : parser ∈ p.locals.map Prod.fst)
    (turns : ℕ) : ∀ i, Keeps (At p) (printErrors libraries parser turns i) := by
  have hids : ∀ h ∈ [some parser], p.Names h :=
    List.forall_mem_singleton.mpr (Point.names_local hparser)
  induction turns with
  | zero => exact fun _ _ hs ↦ hs
  | succ turns ih =>
    intro i
    refine Ensures.bind (invoke_spec hids) fun count ↦ ?_
    refine Ensures.ite (fun _ ↦ ?_) fun _ _ hs ↦ hs
    exact Ensures.bind (invoke_spec hids) fun _ ↦ ih (i + 1)

/-- `load_onnx` leaves some of the members. -/
theorem loadOnnx_spec (hp : p.members = {}) :
    Ensures (At p) (loadOnnx libraries) fun _ ↦ Among p Members.Partial := by
  have hpartial : p.members.Partial := hp ▸ loading_empty.toPartial
  refine withLocal_spec (List.forall_mem_nil _) rfl hpartial fun builder ↦ ?_
  refine withLocal_spec (Point.names_locals [builder] (by simp)) rfl hpartial fun network ↦ ?_
  refine withLocal_spec (Point.names_locals [network] (by simp)) rfl hpartial fun parser ↦ ?_
  have hparser := Point.names_locals (p := { p with
    locals := (parser, .parser) :: (network, .network) :: (builder, .builder) :: p.locals })
    [parser] (by simp)
  refine Ensures.bind (invoke_spec hparser) fun ok ↦ ?_
  cases ok with
  | false =>
    refine Ensures.bind (printErrors_spec (by simp) _ _) fun _ s hs ↦ ?_
    exact ⟨p.members, hpartial, hs⟩
  | true =>
    refine withLocal_spec (Point.names_locals [builder] (by simp)) rfl hpartial fun config ↦ ?_
    refine Ensures.bind (invoke_spec (Point.names_locals [config] (by simp))) fun _ ↦ ?_
    refine withLocal_spec (Point.names_locals [builder, network, config] (by simp)) rfl hpartial
      fun serialized ↦ ?_
    refine deserialize_spec hp (List.forall_mem_singleton.mpr ⟨serialized, rfl, by simp⟩)

/-- A load leaves the members at some stage, whatever it answers. -/
theorem load_spec (libraries : Libraries) (modelPath : Bytes) :
    Ensures (At p) (load libraries modelPath) fun _ ↦
      Among { p with streams := p.streams + p.members.streams } Members.Partial := by
  refine Ensures.bind (destroyResources_spec libraries) fun _ ↦ ?_
  exact Ensures.ite (fun _ ↦ loadOnnx_spec rfl) fun _ ↦ loadSerializedEngine_spec rfl

end MarketData.TensorRT
