import MarketData.Engine.Loading

/-!
# The handles of the TensorRT engine

What holds of the ledger and of the members behind every sequence of calls, whatever the libraries
answer. An inference checks for the buffers, which are created last, and may therefore use the
events, which it does not check.
-/

namespace MarketData.TensorRT

open ByteText Cpp Ledger StateProgram

variable {libraries : Libraries} {p : Point}

/-! ### Inference -/

/-- Enqueueing uses the context and the stream; where it succeeds during a capture, the capture
holds its work. -/
theorem enqueue_spec (hcontext : (p.members.handle .context).isSome)
    (hstream : (p.members.handle .stream).isSome) :
    Ensures (At p) (enqueue libraries) fun ok ↦ At { p with
      captured :=
        p.captured.map (· ++ if ok then (p.members.handle .context).toList else []) } := by
  refine get_spec fun s hm _ ↦ ?_
  rw [hm]
  have hids : ∀ h ∈ [p.members.handle .context, p.members.handle .stream], p.Names h := by
    intro h hh
    rcases List.mem_pair.mp hh with rfl | rfl
    · exact Point.names_handle hcontext
    · exact Point.names_handle hstream
  refine Ensures.bind (invoke_spec hids) fun ok s hs ↦ ?_
  rw [← hs.captured]
  exact hs.capture _

/-- The checks pass only when all members but the graph are there. -/
theorem isSome_of_passesChecks {m : Members} {k : ℕ} {input output : Option (List Single)}
    {inputElements outputCapacity : UInt64} (hm : m.Staged k)
    (h : m.passesChecks input output inputElements outputCapacity = true) {slot : Slot}
    (hne : slot ≠ .graphExecution) : (m.handle slot).isSome := by
  have hlast : (m.handle .outputHost).isSome := by
    simp only [Members.passesChecks, Bool.and_eq_true, List.all_eq_true] at h
    exact h.1.1.1.1.1 .outputHost (by decide)
  -- The checks do not look at the events, which are created before the buffers.
  have hk : 9 < k := (hm.rank .outputHost (by decide)).mp hlast
  refine hm.isSome ?_ hne
  cases slot <;> first | exact absurd rfl hne | (simp only [Slot.rank]; omega)

/-- The call before a capture leaves the engine where it was. -/
theorem prime_spec (hcaptured : p.captured = none)
    (hcontext : (p.members.handle .context).isSome)
    (hstream : (p.members.handle .stream).isSome) : Keeps (At p) (enqueue libraries) := by
  refine (enqueue_spec hcontext hstream).weaken fun ok s hs ↦ ?_
  rw [hcaptured, Option.map_none, ← hcaptured] at hs
  exact hs

private theorem launch_spec (hcaptured : p.captured = none)
    (hall : ∀ slot, slot ≠ .graphExecution → (p.members.handle slot).isSome) :
    Keeps (At p) (launch libraries) := by
  refine get_spec fun s hm _ ↦ ?_
  rw [hm]
  apply Ensures.ite
  · intro hgraph
    refine invoke_spec (Point.names_handles [.graphExecution, .stream] ?_)
    exact List.forall_mem_cons.mpr ⟨hgraph, List.forall_mem_singleton.mpr (hall _ (by decide))⟩
  · intro _
    exact prime_spec hcaptured (hall _ (by decide)) (hall _ (by decide))

private theorem submitInference_spec (hcaptured : p.captured = none)
    (hall : ∀ slot, slot ≠ .graphExecution → (p.members.handle slot).isSome) :
    Keeps (At p) (submitInference libraries) := by
  have hstay : ∀ s, At p s → At p s := fun _ hs ↦ hs
  have hids : ∀ slots : List Slot, .graphExecution ∉ slots →
      ∀ i ∈ slots.map p.members.handle, p.Names i := by
    intro slots hslots
    exact Point.names_handles slots fun slot hslot ↦ hall slot fun heq ↦ hslots (heq ▸ hslot)
  refine get_spec fun s hm _ ↦ ?_
  rw [hm]
  refine Ensures.bind (invoke_spec (hids [.inputHost] (by decide))) fun _ ↦ ?_
  refine Keeps.orReturn
    (invoke_spec (hids [.inputDevice, .inputHost, .stream] (by decide))) hstay ?_
  refine Keeps.orReturn (invoke_spec (hids [.deviceStart, .stream] (by decide))) hstay ?_
  refine Keeps.orReturn (launch_spec hcaptured hall) hstay ?_
  refine Keeps.orReturn (invoke_spec (hids [.deviceStop, .stream] (by decide))) hstay ?_
  refine Keeps.orReturn
    (invoke_spec (hids [.outputHost, .outputDevice, .stream] (by decide))) hstay ?_
  exact invoke_spec (hids [.stream] (by decide))

/-- Members that own the given handles. -/
abbrev Owns (handle : Slot → Option ℕ) (m : Members) : Prop := m.handle = handle

private theorem setLatency_spec {handle : Slot → Option ℕ} (latency : Option Double) :
    Keeps (Among p (Owns handle))
      (modify fun s ↦ { s with lastDeviceLatencyUs := latency } : Program Unit) :=
  modify_spec (fun m ↦ { m with lastDeviceLatencyUs := latency }) fun _ h ↦
    ⟨h, rfl, fun slot _ ↦ by cases slot <;> rfl⟩

/-- An inference leaves what the members own. -/
theorem inferInto_spec {k : ℕ} (hp : p.members.Staged k) (hcaptured : p.captured = none)
    (input output : Option (List Single)) (inputElements outputCapacity : UInt64) :
    Ensures (At p) (inferInto libraries input output inputElements outputCapacity)
      fun _ ↦ Among p (Owns p.members.handle) := by
  have hstay : ∀ s, Among p (Owns p.members.handle) s → Among p (Owns p.members.handle) s :=
    fun _ hs ↦ hs
  refine Ensures.mono ?_ (fun s hs ↦ (⟨p.members, rfl, hs⟩ : Among p (Owns p.members.handle) s))
    fun _ _ hs ↦ hs
  refine Ensures.bind (setLatency_spec none) fun _ ↦ ?_
  refine get_among fun s hm ↦ ?_
  rw [hm]
  refine Ensures.ite (fun _ ↦ hstay) fun hchecks ↦ ?_
  have hall : ∀ slot, slot ≠ .graphExecution → (p.members.handle slot).isSome := by
    intro slot hne
    rw [← hm]
    exact isSome_of_passesChecks (hp.of_handle hm) (by simpa using hchecks) hne
  have hids : ∀ slots : List Slot, .graphExecution ∉ slots → ∀ m, Owns p.members.handle m →
      ∀ i ∈ slots.map p.members.handle, { p with members := m }.Names i := by
    rintro slots hslots m hm i hi
    rw [← hm] at hi
    refine Point.names_handles slots ?_ i hi
    intro slot hslot
    rw [hm]
    exact hall slot fun heq ↦ hslots (heq ▸ hslot)
  have hsubmit : Keeps (Among p (Owns p.members.handle)) (submitInference libraries) := by
    refine among_spec fun m hm ↦ ?_
    have hmembers : ∀ slot, slot ≠ .graphExecution → (m.handle slot).isSome := by
      rw [hm]
      exact hall
    exact (submitInference_spec (p := { p with members := m }) hcaptured hmembers).weaken
      fun _ s hs ↦ ⟨m, hm, hs⟩
  refine Keeps.orReturn hsubmit hstay ?_
  refine get_among fun s' _ ↦ ?_
  refine Keeps.orReturn (invoke_among (hids [.deviceStart, .deviceStop] (by decide))) hstay ?_
  refine Ensures.bind (setLatency_spec _) fun _ ↦ ?_
  exact Ensures.bind (invoke_among (hids [.outputHost] (by decide))) fun _ ↦ hstay

/-! ### Graph capture -/

private theorem setCaptured_spec (captured : Option (List ℕ)) :
    Ensures (At p) (modify fun s ↦ { s with captured } : Program Unit)
      fun _ ↦ At { p with captured } :=
  fun _ hs ↦ hs.capture captured

private theorem destroy_spec {id : ℕ} {what : Resource} (hwhat : what.streams = 0) :
    Ensures (At { p with locals := (id, what) :: p.locals }) (destroy id) fun _ ↦ At p := by
  intro s hs
  have hend := At.destroy hs
  rw [hwhat] at hend
  exact hend

private theorem create_spec (what : Resource) :
    Ensures (At p) (create what) fun id ↦ At { p with locals := (id, what) :: p.locals } :=
  fun _ hs ↦ hs.create what

/-- What the end of a capture leaves: the graph, when there is one, as a local. -/
def Captured (p : Point) (contexts : List ℕ) (r : Bool × Option (ℕ × List ℕ)) (s : Machine) :
    Prop :=
  match r.2 with
  | none => At p s
  | some (graph, contexts') =>
    contexts' = contexts ∧ At { p with locals := (graph, .graph contexts) :: p.locals } s

private theorem endCapture_spec {capture : ℕ} {contexts : List ℕ} (hcaptured : p.captured = none)
    (hstream : (p.members.handle .stream).isSome) :
    Ensures (At { p with locals := (capture, .capture) :: p.locals, captured := some contexts })
      (endCapture libraries capture) (Captured p contexts) := by
  refine get_spec fun s hm hc ↦ ?_
  rw [hm, hc]
  have hids : ∀ h ∈ [p.members.handle .stream, some capture],
      { p with locals := (capture, .capture) :: p.locals, captured := some contexts }.Names h := by
    intro h hh
    rcases List.mem_pair.mp hh with rfl | rfl
    · exact ⟨_, (Option.some_get hstream).symm, .inr ⟨.stream, (Option.some_get hstream).symm⟩⟩
    · exact Point.names_local (by simp)
  refine Ensures.bind (invoke_spec hids) fun status ↦ ?_
  refine Ensures.bind (setCaptured_spec none) fun _ ↦ ?_
  rw [← hcaptured]
  refine Ensures.bind (destroy_spec (p := p) rfl) fun _ ↦ ?_
  refine Ensures.ite (fun _ ↦ ?_) fun _ _ hs ↦ hs
  exact Ensures.bind (create_spec _) fun graph s hs ↦ ⟨rfl, hs⟩

private theorem instantiate_spec {graph : ℕ} {contexts : List ℕ} {k : ℕ}
    (hcontexts : contexts = (p.members.handle .context).toList)
    (hgraph : p.members.handle .graphExecution = none) (hp : p.members.Staged k) (hk : 4 ≤ k) :
    Ensures (At { p with locals := (graph, .graph contexts) :: p.locals })
      (instantiate libraries graph contexts) fun _ ↦ Among p fun m ↦ m.Staged k := by
  refine Ensures.bind (createInto_spec (Point.names_locals [graph] (by simp)) hgraph
    (hcontexts ▸ rfl) fun h ↦ by cases h) fun ok ↦ ?_
  refine among_spec fun m ⟨h, hm, _⟩ ↦ ?_
  refine Ensures.bind (destroy_spec (p := { p with members := m }) rfl) fun _ s hs ↦ ⟨m, ?_, hs⟩
  subst hm
  refine ⟨fun slot hne ↦ ?_, fun _ ↦ hk⟩
  rw [handle_set_of_ne _ _ hne]
  exact hp.rank slot hne

/-- A capture leaves the engine staged, with a graph of its own or without one. -/
theorem captureGraph_spec {k : ℕ} (hp : p.members.Staged k)
    (hcaptured : p.captured = none) (hgraph : p.members.handle .graphExecution = none)
    (hcontext : (p.members.handle .context).isSome)
    (hstream : (p.members.handle .stream).isSome) :
    Ensures (At p) (captureGraph libraries) fun _ ↦ Among p (Members.Staged k) := by
  have hstay : ∀ s, At p s → Among p (Members.Staged k) s := fun s hs ↦ ⟨p.members, hp, hs⟩
  refine get_spec fun s hm _ ↦ ?_
  rw [hm]
  refine Ensures.bind (tryCreate_spec .capture
    (List.forall_mem_singleton.mpr (Point.names_handle hstream))) fun capture ↦ ?_
  cases capture with
  | none => exact hstay
  | some capture =>
    refine Ensures.bind (setCaptured_spec (some [])) fun _ ↦ ?_
    refine Ensures.bind (enqueue_spec hcontext hstream) fun ok ↦ ?_
    refine Ensures.bind (endCapture_spec hcaptured hstream) fun ⟨status, r⟩ ↦ ?_
    cases r with
    | none => exact hstay
    | some r =>
      obtain ⟨graph, contexts⟩ := r
      change Ensures (fun s ↦ _ ∧ At _ s) _ _
      refine Ensures.of_prop fun hcontexts ↦ Ensures.ite (fun _ ↦ ?_) fun hok ↦ ?_
      · exact Ensures.bind (destroy_spec (p := p) rfl) fun _ ↦ hstay
      · -- Only a capture whose work was enqueued is instantiated.
        have hwork : ok = true := by
          by_contra h
          exact hok (.inl (by simpa using h))
        have hk : 3 < k := (hp.rank .stream (by decide)).mp hstream
        subst hcontexts hwork
        exact instantiate_spec rfl hgraph hp hk

/-- The capture of a graph leaves the members but the graph. -/
theorem enableCudaGraph_spec {k : ℕ} (hp : p.members.Staged k) (hcaptured : p.captured = none) :
    Ensures (At p) (enableCudaGraph libraries) fun _ ↦ Among p (Members.Staged k) := by
  have hstay : ∀ s, At p s → Among p (Members.Staged k) s := fun s hs ↦ ⟨p.members, hp, hs⟩
  refine get_spec fun s hm _ ↦ ?_
  rw [hm]
  refine Ensures.ite (fun _ ↦ hstay) fun hgraph ↦ ?_
  refine Ensures.ite (fun _ ↦ hstay) fun hmissing ↦ ?_
  simp only [not_or, Bool.not_eq_true, Option.isNone_eq_false_iff] at hmissing
  obtain ⟨hcontext, hstream⟩ := hmissing
  refine Keeps.orReturn (prime_spec hcaptured hcontext hstream) hstay ?_
  refine Keeps.orReturn (invoke_spec (List.forall_mem_singleton.mpr
    (Point.names_handle hstream))) hstay ?_
  exact captureGraph_spec hp hcaptured (by simpa using hgraph) hcontext hstream

/-! ### Runs -/

/-- Between two calls: no locals, no capture, and the members at a stage. The log goes on from a
past log. -/
def Resting (past : List (Entry ℕ Resource Operation)) (k : ℕ) (s : Machine) : Prop :=
  ∃ p : Point, p.past = past ∧ p.locals = [] ∧ p.captured = none ∧ p.members.Staged k ∧ At p s

/-- A new engine rests. -/
theorem resting_new : Resting [] 0 {} :=
  ⟨⟨[], 0, [], none, {}⟩, rfl, rfl, rfl, staged_empty, {
    members := rfl
    captured := rfl
    past := List.prefix_rfl
    streams := rfl
    lawful := lawful_nil
    fresh := fun _ h ↦ by cases h
    held := fun _ _ h ↦ by cases h
    local_live := fun _ h ↦ by cases h
    local_once := List.nodup_nil
    local_free := fun _ h ↦ by cases h
    owned := fun _ _ h ↦ by cases h.1 }⟩

variable {past : List (Entry ℕ Resource Operation)} {k : ℕ} {s : Machine}

/-- The log so far is the past of what follows. -/
theorem Resting.restart (h : Resting past k s) : Resting s.log k s := by
  obtain ⟨p, -, hlocals, hcaptured, hk, hs⟩ := h
  exact ⟨{ p with past := s.log }, rfl, hlocals, hcaptured, hk, { hs with past := List.prefix_rfl }⟩

/-- A load leaves some stage without a graph. -/
theorem load_resting (libraries : Libraries) (h : Resting past k s) (modelPath : Bytes) :
    ∃ k', Resting past k' ((load libraries modelPath).run s).2 ∧
      ((load libraries modelPath).run s).2.handle .graphExecution = none := by
  obtain ⟨p, hpast, hlocals, hcaptured, -, hs⟩ := h
  obtain ⟨m, ⟨k', a, b, hm⟩, hend⟩ := load_spec libraries modelPath s hs
  refine ⟨k', ⟨{ p with streams := p.streams + p.members.streams, members := m }, hpast, hlocals,
    hcaptured, hm.staged, hend⟩, ?_⟩
  rw [hend.members]
  exact hm.noGraph

/-- A call that is no load keeps the stage. -/
theorem perform_resting (h : Resting past k s) {call : Call} (hcall : call.isLoad = false) :
    Resting past k ((perform libraries call).run s).2 := by
  obtain ⟨p, hpast, hlocals, hcaptured, hk, hs⟩ := h
  cases call with
  | load modelPath => cases hcall
  | inferInto input output inputElements outputCapacity =>
    obtain ⟨m, hm, hend⟩ :=
      inferInto_spec hk hcaptured input output inputElements outputCapacity s hs
    exact ⟨{ p with members := m }, hpast, hlocals, hcaptured, hk.of_handle hm, hend⟩
  | enableCudaGraph =>
    obtain ⟨m, hm, hend⟩ := enableCudaGraph_spec hk hcaptured s hs
    exact ⟨{ p with members := m }, hpast, hlocals, hcaptured, hm, hend⟩

variable (libraries)

/-- The state behind two series of calls. -/
theorem reached_append (calls calls' : List Call) :
    reached libraries (calls ++ calls') =
      calls'.foldl (fun s call ↦ ((perform libraries call).run s).2) (reached libraries calls) :=
  List.foldl_append ..

/-- The state behind one more load. -/
theorem reached_load (calls : List Call) (modelPath : Bytes) :
    reached libraries (calls ++ [.load modelPath]) =
      ((load libraries modelPath).run (reached libraries calls)).2 := by
  rw [reached_append, List.foldl_cons, List.foldl_nil, perform]

/-- Calls that are no loads keep the stage. -/
theorem foldl_resting {calls : List Call} (h : Resting past k s)
    (hcalls : ∀ call ∈ calls, call.isLoad = false) :
    Resting past k (calls.foldl (fun s call ↦ ((perform libraries call).run s).2) s) := by
  induction calls generalizing s with
  | nil => exact h
  | cons call calls ih =>
    obtain ⟨hcall, hrest⟩ := List.forall_mem_cons.mp hcalls
    exact ih (perform_resting h hcall) hrest

/-- Between two calls of any sequence the members are at some stage. -/
theorem reached_resting (calls : List Call) : ∃ k, Resting [] k (reached libraries calls) := by
  induction calls using List.reverseRecOn with
  | nil => exact ⟨0, resting_new⟩
  | append_singleton calls call ih =>
    obtain ⟨k, hk⟩ := ih
    rw [reached_append]
    cases call with
    | load modelPath =>
      obtain ⟨k', hk', -⟩ := load_resting libraries hk modelPath
      exact ⟨k', hk'⟩
    | inferInto input output inputElements outputCapacity => exact ⟨k, perform_resting hk rfl⟩
    | enableCudaGraph => exact ⟨k, perform_resting hk rfl⟩

/-- A run without loads, or the last load of a run. -/
theorem last_load (calls : List Call) :
    (∀ call ∈ calls, call.isLoad = false) ∨ ∃ earlier modelPath later,
      calls = earlier ++ .load modelPath :: later ∧ ∀ call ∈ later, call.isLoad = false := by
  induction calls using List.reverseRecOn with
  | nil => exact .inl fun _ h ↦ by cases h
  | append_singleton calls call ih =>
    cases hcall : call.isLoad with
    | true =>
      cases call with
      | load modelPath => exact .inr ⟨calls, modelPath, [], rfl, fun _ h ↦ by cases h⟩
      | inferInto input output inputElements outputCapacity => cases hcall
      | enableCudaGraph => cases hcall
    | false =>
      have hconcat : ∀ {l : List Call}, (∀ c ∈ l, c.isLoad = false) →
          ∀ c ∈ l ++ [call], c.isLoad = false := by
        intro l hl c hc
        rcases List.mem_append.mp hc with hc | hc
        · exact hl c hc
        · rw [List.mem_singleton.mp hc]
          exact hcall
      rcases ih with h | ⟨earlier, modelPath, later, rfl, h⟩
      · exact .inl (hconcat h)
      · exact .inr ⟨earlier, modelPath, later ++ [call], by simp, hconcat h⟩

/-! ### The discipline -/

/-- A member owns a live handle for the resource. -/
def Machine.Owns (s : Machine) (slot : Slot) (what : Resource) : Prop :=
  ∃ id, s.handle slot = some id ∧ Live s.log id what

/-- What an inference uses is live, and its buffers have the sizes that it copies. -/
structure Machine.Ready (s : Machine) : Prop where
  context : s.Owns .context (.object .context)
  stream : s.Owns .stream (.object .stream)
  deviceStart : s.Owns .deviceStart (.object .deviceStart)
  deviceStop : s.Owns .deviceStop (.object .deviceStop)
  inputDevice : s.Owns .inputDevice (.buffer .inputDevice s.inputBytes)
  outputDevice : s.Owns .outputDevice (.buffer .outputDevice s.outputBytes)
  inputHost : s.Owns .inputHost (.buffer .inputHost s.inputBytes)
  outputHost : s.Owns .outputHost (.buffer .outputHost s.outputBytes)

/-- The handle was made, behind the last load of the calls, from a capture of the context that the
engine owns. -/
def CapturedSince (libraries : Libraries) (calls : List Call) (graph : ℕ) : Prop :=
  ∃ earlier modelPath later context recent,
    calls = earlier ++ .load modelPath :: later ∧ (∀ call ∈ later, call.isLoad = false) ∧
    (reached libraries calls).handle .context = some context ∧
    (reached libraries calls).log =
      (reached libraries (earlier ++ [.load modelPath])).log ++ recent ∧
    .create graph (.executableGraph [context]) ∈ recent

private theorem owns_of_staged (h : Resting past k s) {slot : Slot} (hs : (s.handle slot).isSome) :
    s.Owns slot (s.resource slot) := by
  obtain ⟨p, -, -, -, -, hp⟩ := h
  obtain ⟨id, hid⟩ := Option.isSome_iff_exists.mp hs
  rw [Machine.Owns, hid]
  refine ⟨id, rfl, ?_⟩
  rw [hp.members] at hid ⊢
  exact hp.held slot id hid

private theorem disciplined_lifetime (calls : List Call) :
    Disciplined (lifetime libraries calls) := by
  obtain ⟨k, p, -, hlocals, -, -, hs⟩ := reached_resting libraries calls
  have hend := destroyResources_spec libraries _ hs
  refine hend.lawful.disciplined fun id what hlive ↦ ?_
  rcases hend.owned id what hlive with hm | ⟨slot, hslot⟩
  · rw [hlocals] at hm
    cases hm
  · cases hslot

private theorem ready_of_passesChecks (calls : List Call) {input output : Option (List Single)}
    {inputElements outputCapacity : UInt64}
    (h : (reached libraries calls).passesChecks input output inputElements outputCapacity = true) :
    (reached libraries calls).Ready := by
  obtain ⟨k, hk⟩ := reached_resting libraries calls
  have howns : ∀ slot, slot ≠ .graphExecution →
      (reached libraries calls).Owns slot ((reached libraries calls).resource slot) := by
    intro slot hne
    obtain ⟨p, -, -, -, hstaged, hp⟩ := id hk
    exact owns_of_staged hk (isSome_of_passesChecks (hp.members ▸ hstaged) h hne)
  exact ⟨howns _ (by decide), howns _ (by decide), howns _ (by decide), howns _ (by decide),
    howns _ (by decide), howns _ (by decide), howns _ (by decide), howns _ (by decide)⟩

-- Without a graph of its own, a resting engine has no live one in its log.
private theorem no_graph_live (h : Resting past k s) (hgraph : s.handle .graphExecution = none)
    {id : ℕ} {contexts : List ℕ} : ¬ Live s.log id (.executableGraph contexts) := by
  obtain ⟨p, -, hlocals, -, -, hs⟩ := h
  intro hlive
  rcases hs.owned id _ hlive with hm | ⟨slot, hslot⟩
  · rw [hlocals] at hm
    cases hm
  · have heq := hs.lawful.content_unique hlive.1 (hs.held slot id hslot).1
    have hgraphSlot := congrArg Resource.slot? heq
    rw [slot?_resource] at hgraphSlot
    obtain rfl := Option.some.inj hgraphSlot
    rw [hs.members, hslot] at hgraph
    cases hgraph

private theorem capturedSince (calls : List Call) {graph : ℕ}
    (h : (reached libraries calls).handle .graphExecution = some graph) :
    CapturedSince libraries calls graph := by
  rcases last_load calls with hnone | ⟨earlier, modelPath, later, rfl, hlater⟩
  · obtain ⟨p, -, -, -, hp, hs⟩ := foldl_resting libraries resting_new hnone
    have hgraph : (p.members.handle .graphExecution).isSome := by
      rw [← hs.members]
      exact Option.isSome_iff_exists.mpr ⟨graph, h⟩
    exact absurd (hp.graph hgraph) (by decide)
  · obtain ⟨k₀, hk₀⟩ := reached_resting libraries earlier
    obtain ⟨k, hload, hnone⟩ := load_resting libraries hk₀ modelPath
    rw [← reached_load] at hload hnone
    have hend := foldl_resting libraries hload.restart hlater
    rw [← reached_append, List.append_assoc, List.singleton_append] at hend
    obtain ⟨p, hpast, -, -, hp, hs⟩ := hend
    obtain ⟨recent, hrecent⟩ := hs.past
    rw [hs.members] at h
    have hk : 4 ≤ k := hp.graph (Option.isSome_iff_exists.mpr ⟨graph, h⟩)
    have hcontext : (p.members.handle .context).isSome :=
      hp.isSome (lt_of_lt_of_le (by decide) hk)
    obtain ⟨context, hcontext⟩ := Option.isSome_iff_exists.mp hcontext
    have hlive : Live (reached libraries (earlier ++ .load modelPath :: later)).log graph
        (Resource.executableGraph (p.members.handle .context).toList) := hs.held _ _ h
    rw [hcontext, Option.toList_some, ← hrecent, hpast] at hlive
    refine ⟨earlier, modelPath, later, context, recent, rfl, hlater, ?_, ?_, ?_⟩
    · rw [hs.members]
      exact hcontext
    · rw [← hrecent, hpast]
    · rcases List.mem_append.mp hlive.1 with hold | hnew
      · refine absurd (⟨hold, fun hd ↦ hlive.2 ?_⟩ : Live _ _ _) (no_graph_live hload hnone)
        rw [destroyed, List.filterMap_append]
        exact List.mem_append_left _ hd
      · exact hnew

/-- Behind every sequence of calls, whatever the libraries answer: all that the engine ever creates,
captures included, is destroyed exactly once, and nothing is used unless it is live; an inference
that passes its checks finds all that it uses; a graph comes from the context of the last load. -/
theorem handle_discipline (calls : List Call) :
    Disciplined (lifetime libraries calls) ∧
      (∀ input output inputElements outputCapacity,
        (reached libraries calls).passesChecks input output inputElements outputCapacity = true →
          (reached libraries calls).Ready) ∧
      ∀ graph, (reached libraries calls).handle .graphExecution = some graph →
        CapturedSince libraries calls graph :=
  ⟨disciplined_lifetime libraries calls, fun _ _ _ _ h ↦ ready_of_passesChecks libraries calls h,
    fun _ h ↦ capturedSince libraries calls h⟩

end MarketData.TensorRT
