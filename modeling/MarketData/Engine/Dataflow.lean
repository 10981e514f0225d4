import MarketData.Engine.Coherence

/-!
# The data of an inference

What an inference returns: an inference that succeeds has waited for the network's answer to its own
input, on every device that the libraries may have.
-/

namespace MarketData.TensorRT

open ByteText Cpp Ledger StateProgram Streams

/-- The handles that an inference uses, each owned by one member. -/
structure Equipped (handle : Slot → Option ℕ) (context stream source target pinned result : ℕ) :
    Prop where
  context : handle .context = some context
  stream : handle .stream = some stream
  source : handle .inputDevice = some source
  target : handle .outputDevice = some target
  pinned : handle .inputHost = some pinned
  result : handle .outputHost = some result
  unique : ∀ slot slot' id, handle slot = some id → handle slot' = some id → slot = slot'

section

variable {world : World} {handle : Slot → Option ℕ} {d : Device}
  {context stream source target pinned result id : ℕ} {tasks : List Task} {v : List Single}
  {bytes : UInt64}

/-- Every device is coherent, and the stream settles the contents of a buffer. -/
def Settles (world : World) (handle : Slot → Option ℕ) (stream id : ℕ) (v : List Single)
    (ok : Bool) (d : Device) : Prop :=
  Coherent world handle none d ∧ (ok = true → d.settled stream id = v)

private theorem stable_settles (hstream : handle .stream = some stream)
    (hid : id ∈ buffers handle) (ok : Bool) : Stable (Settles world handle stream id v ok) := by
  rintro d t ⟨h, hsettled⟩ hstep
  refine ⟨stable_coherent d t h hstep, fun hok ↦ ?_⟩
  rw [← hsettled hok]
  exact (h.isolated stream hstream).settled_step hstep hid

private theorem Settles.next {ok : Bool} (h : Settles world handle stream id v ok d) :
    Settles world handle stream id v ok d.next := ⟨h.1.next, h.2⟩

/-- A buffer serves the member that owns it, and the pinned output has the bytes of the output. -/
structure Pins (handle : Slot → Option ℕ) (outputBytes : UInt64)
    (log : List (Entry ℕ Resource Operation)) : Prop where
  serves : ∀ slot id, handle slot = some id →
    ∀ slot' bytes, .create id (.buffer slot' bytes) ∈ log → slot' = slot
  holds : ∀ id, handle .outputHost = some id →
    ∀ bytes, .create id (.buffer .outputHost bytes) ∈ log → bytes = outputBytes

private theorem Pins.use {log : List (Entry ℕ Resource Operation)} {op : Operation}
    {ids : List (Option ℕ)} (h : Pins handle bytes log) :
    Pins handle bytes (log ++ [.use op ids]) where
  serves slot id hid slot' bytes' hmem := h.serves slot id hid slot' bytes' (by simpa using hmem)
  holds id hid bytes' hmem := h.holds id hid bytes' (by simpa using hmem)

section Effects

variable {log : List (Entry ℕ Resource Operation)} {d' : Device}

private theorem settles_write {n : ℕ} (hstream : handle .stream = some stream)
    (hpinned : handle .inputHost = some pinned) (hpins : Pins handle bytes log)
    (hd : Coherent world handle none d ∧ d.answered = n)
    (h : Effect world log d (.use .memcpy [some pinned]) d') :
    Settles world handle stream pinned (world.written n) true d' := by
  cases h with
  | plain hplain => cases hplain
  | write hid =>
    refine ⟨hd.1.write.next, fun _ ↦ ?_⟩
    rw [← hd.2]
    refine (State.settled_of_ne fun w hw heq ↦ ?_).trans (Function.update_self ..)
    exact hd.1.pinned stream hstream w hw (heq ▸ hpinned)
  | read hid => cases hpins.serves _ _ hpinned _ _ hid

private theorem settles_copy {slot slot' : Slot} {id' : ℕ} (hstream : handle .stream = some stream)
    (hid : handle slot = some id) (hid' : handle slot' = some id')
    (hslot : slot ∈ ([.inputDevice, .outputDevice, .inputHost, .outputHost] : List Slot))
    (hslot' : slot' ∈ ([.inputDevice, .outputDevice, .inputHost, .outputHost] : List Slot))
    (hpinned : handle .inputHost ≠ some id') (hd : Settles world handle stream id v true d)
    (h : Effect world log d (.use .cudaMemcpyAsync [some id', some id, some stream]) d') :
    Settles world handle stream id' v (world.libraries.succeeds d.answered) d' := by
  cases h with
  | plain hplain => cases hplain
  | copy =>
    have htask : (copyTask id' id).Within (buffers handle) := by
      rintro k (rfl | hk)
      · exact mem_buffers hid' hslot'
      · rw [List.mem_singleton.mp hk]
        exact mem_buffers hid hslot
    refine ⟨(hd.1.submit hstream fun w hw ↦ ?_).next, fun _ ↦ ?_⟩
    · rw [List.mem_singleton.mp hw]
      exact ⟨htask, hpinned⟩
    · have hsettled := State.settled_submit_target (s := d.toState) (q := stream)
        (w := copyTask id' id)
      exact hsettled.trans (hd.2 rfl)
  | copyFails hfails =>
    rw [hfails]
    exact ⟨hd.1.next, nofun⟩

private theorem launch_works {graph : ℕ} (hseparate : Separate handle)
    (hgraph : handle .graphExecution = some graph)
    (hd : Coherent world handle captured d)
    (h : Effect world log d (.use .cudaGraphLaunch [some graph, some stream]) d') :
    ∃ tasks, d' = (d.submit stream tasks).next ∧
      Works world handle (world.libraries.succeeds d.answered) tasks := by
  obtain ⟨context, source, target, hcontext, hsource, htarget, hwork⟩ := hd.graph graph hgraph
  cases h with
  | plain hplain => cases hplain
  | launch hok =>
    rw [hwork]
    exact ⟨_, rfl, works_infer hseparate hcontext hsource htarget⟩
  | launchFails hfails htasks =>
    refine ⟨_, rfl, works_output hseparate (fun w hw ↦ ?_) hfails⟩
    obtain ⟨hsources, v, hv, hw⟩ := htasks w hw
    rw [hwork, List.mem_singleton] at hv
    subst hv
    rw [hw]
    exact ⟨htarget, hsources⟩

private theorem Works.settles {ok : Bool} (h : Works world handle ok tasks)
    (hcontext : handle .context = some context) (hstream : handle .stream = some stream)
    (hsource : handle .inputDevice = some source) (htarget : handle .outputDevice = some target)
    (hd : Settles world handle stream source v true d) :
    Settles world handle stream target (world.net context v) ok (d.submit stream tasks).next := by
  refine ⟨(hd.1.submit hstream h.1).next, fun hok ↦ ?_⟩
  obtain ⟨c, i, o, hc, hi, ho, rfl⟩ := h.2 hok
  obtain rfl := Option.some.inj (hcontext.symm.trans hc)
  obtain rfl := Option.some.inj (hsource.symm.trans hi)
  obtain rfl := Option.some.inj (htarget.symm.trans ho)
  have hsettled := State.settled_submit_target (s := d.toState) (q := stream)
    (w := inferTask world.net context source target)
  exact hsettled.trans (congrArg (world.net context) (hd.2 rfl))

end Effects

/-! ### The programs -/

/-- The machine owns the given handles, whose buffers serve their members, and every device has a
property. -/
structure Held (world : World) (handle : Slot → Option ℕ) (bytes : UInt64) (P : Device → Prop)
    (s : Machine) : Prop where
  owns : s.handle = handle
  pins : Pins handle bytes s.log
  behind : Behind world P s

section Programs

variable {P : Device → Prop}

private theorem get_held {α : Type} {f : Machine → Program α} {Q : α → Machine → Prop}
    (h : ∀ s, s.handle = handle → Ensures (Held world handle bytes P) (f s) Q) :
    Ensures (Held world handle bytes P) (MonadState.get >>= f) Q :=
  fun s hs ↦ h s hs.owns s hs

private theorem call_held {α : Type} {op : Operation} {ids : List (Option ℕ)} {answer : ℕ → α}
    {Q : α → Device → Prop} (hstable : ∀ a, Stable (Q a))
    (heffect : ∀ log d d', Pins handle bytes log → P d → Effect world log d (.use op ids) d' →
      Q (answer d.answered) d') :
    Ensures (Held world handle bytes P) (invoke op ids answer)
      fun a ↦ Held world handle bytes (Q a) := by
  intro s hs
  refine ⟨hs.owns, hs.pins.use, hs.behind.use (hstable _) fun d d' hanswered hd he ↦ ?_⟩
  have hQ := heffect s.log d d' hs.pins hd he
  rw [hanswered] at hQ
  exact hQ

private theorem plain_held {α : Type} {op : Operation} {ids : List (Option ℕ)} {answer : ℕ → α}
    (hop : op.plain = true) (hstable : Stable P) (hnext : ∀ d, P d → P d.next) :
    Keeps (Held world handle bytes P) (invoke op ids answer) := by
  refine call_held (fun _ ↦ hstable) fun log d d' _ hd he ↦ ?_
  rw [he.eq_next hop]
  exact hnext d hd

private theorem Held.imp {Q : Device → Prop} {s : Machine} (h : Held world handle bytes P s)
    (hPQ : ∀ d, P d → Q d) : Held world handle bytes Q s :=
  ⟨h.owns, h.pins, h.behind.imp hPQ⟩

private theorem enqueue_held (hseparate : Separate handle)
    (hcontext : handle .context = some context)
    (hstream : handle .stream = some stream) (hsource : handle .inputDevice = some source)
    (htarget : handle .outputDevice = some target) :
    Ensures (Held world handle bytes (Settles world handle stream source v true))
      (enqueue world.libraries)
      fun ok ↦ Held world handle bytes
        (Settles world handle stream target (world.net context v) ok) := by
  refine get_held fun s hs ↦ ?_
  rw [hs, hcontext, hstream]
  refine Ensures.bind (call_held (stable_settles hstream (mem_buffers htarget (by decide))) ?_)
    fun ok s hs ↦ ⟨hs.owns, hs.pins, hs.behind⟩
  intro log d d' _ hd he
  obtain ⟨tasks, rfl, hworks⟩ := enqueue_works hseparate hcontext hd.1 he
  rw [hd.1.launch_eq hstream]
  exact hworks.settles hcontext hstream hsource htarget hd

private theorem launch_held (hseparate : Separate handle)
    (hcontext : handle .context = some context)
    (hstream : handle .stream = some stream) (hsource : handle .inputDevice = some source)
    (htarget : handle .outputDevice = some target) :
    Ensures (Held world handle bytes (Settles world handle stream source v true))
      (launch world.libraries)
      fun ok ↦ Held world handle bytes
        (Settles world handle stream target (world.net context v) ok) := by
  refine get_held fun s hs ↦ Ensures.ite (fun hgraph ↦ ?_) fun _ ↦
    enqueue_held hseparate hcontext hstream hsource htarget
  rw [hs] at hgraph
  obtain ⟨graph, hgraph⟩ := Option.isSome_iff_exists.mp hgraph
  rw [hs, hgraph, hstream]
  refine call_held (stable_settles hstream (mem_buffers htarget (by decide))) ?_
  intro log d d' _ hd he
  obtain ⟨tasks, rfl, hworks⟩ := launch_works hseparate hgraph hd.1 he
  exact hworks.settles hcontext hstream hsource htarget hd

private theorem held_orReturn {α : Type} {x : Program Bool} {a : α} {y : Program α}
    {S : Bool → Device → Prop} {Q : α → Machine → Prop}
    (hx : Ensures (Held world handle bytes P) x fun ok ↦ Held world handle bytes (S ok))
    (hfails : ∀ s, Held world handle bytes (S false) s → Q a s)
    (hy : Ensures (Held world handle bytes (S true)) y Q) :
    Ensures (Held world handle bytes P) (x >>= fun ok ↦ if (!ok) = true then pure a else y) Q := by
  refine Ensures.bind hx fun ok ↦ ?_
  cases ok with
  | false => exact hfails
  | true => exact hy

/-- The stream has settled the contents of a buffer, and nothing waits on it. -/
def Answers (world : World) (handle : Slot → Option ℕ) (stream id : ℕ) (v : List Single)
    (ok : Bool) (d : Device) : Prop :=
  Settles world handle stream id v ok d ∧ (ok = true → d.queue stream = [])

private theorem stable_answers (hstream : handle .stream = some stream)
    (hid : id ∈ buffers handle) (ok : Bool) : Stable (Answers world handle stream id v ok) := by
  rintro d t ⟨h, hnil⟩ hstep
  exact ⟨stable_settles hstream hid ok d t h hstep, fun hok ↦ hstep.queue_nil (hnil hok)⟩

private theorem submitInference_held {n : ℕ}
    (h : Equipped handle context stream source target pinned result) :
    Ensures (Held world handle bytes fun d ↦ Coherent world handle none d ∧ d.answered = n)
      (submitInference world.libraries) fun ok ↦ Held world handle bytes
        (Answers world handle stream result (world.net context (world.written n)) ok) := by
  have hsource : source ∈ buffers handle := mem_buffers h.source (by decide)
  have htarget : target ∈ buffers handle := mem_buffers h.target (by decide)
  have hpinned : pinned ∈ buffers handle := mem_buffers h.pinned (by decide)
  have hresult : result ∈ buffers handle := mem_buffers h.result (by decide)
  have hseparate : ∀ slot id, handle slot = some id → slot ≠ .inputHost →
      handle .inputHost ≠ some id :=
    fun slot id hid hne hid' ↦ hne (h.unique slot .inputHost id hid hid')
  have hfails : ∀ {id v} s, Held world handle bytes (Settles world handle stream id v false) s →
      Held world handle bytes (Answers world handle stream result
        (world.net context (world.written n)) false) s :=
    fun s hs ↦ hs.imp fun d hd ↦ ⟨⟨hd.1, nofun⟩, nofun⟩
  have hevent : ∀ {id v ids}, id ∈ buffers handle →
      Ensures (Held world handle bytes (Settles world handle stream id v true))
        (invoke .cudaEventRecord ids world.libraries.succeeds)
        fun ok ↦ Held world handle bytes (Settles world handle stream id v ok) := by
    intro id v ids hid
    refine (plain_held rfl (stable_settles h.stream hid true) fun d ↦ Settles.next).weaken ?_
    exact fun ok s hs ↦ hs.imp fun d hd ↦ ⟨hd.1, fun _ ↦ hd.2 rfl⟩
  refine get_held fun s hs ↦ ?_
  rw [hs, h.stream, h.source, h.target, h.pinned, h.result]
  refine Ensures.bind (call_held (fun _ ↦ stable_settles h.stream hpinned true)
    fun log d d' hpins hd he ↦ settles_write h.stream h.pinned hpins hd he) fun _ ↦ ?_
  refine held_orReturn (call_held (stable_settles h.stream hsource) fun log d d' _ hd he ↦
    settles_copy h.stream h.pinned h.source (by decide) (by decide)
      (hseparate _ _ h.source (by decide)) hd he) hfails ?_
  refine held_orReturn (hevent hsource) hfails ?_
  refine held_orReturn (launch_held (fun id hid hid' ↦ hseparate _ _ hid' (by decide) hid) h.context
    h.stream h.source h.target) hfails ?_
  refine held_orReturn (hevent htarget) hfails ?_
  refine held_orReturn (call_held (stable_settles h.stream hresult) fun log d d' _ hd he ↦
    settles_copy h.stream h.target h.result (by decide) (by decide)
      (hseparate _ _ h.result (by decide)) hd he) hfails ?_
  refine call_held (stable_answers h.stream hresult) fun log d d' _ hd he ↦ ?_
  cases he with
  | plain _ hwait =>
    refine ⟨⟨hd.1.next, fun _ ↦ hd.2 rfl⟩, fun hok ↦ hwait rfl hok stream ?_⟩
    exact List.mem_singleton_self _

/-- The first elements of a buffer. -/
def elements (count : ℕ) (contents : List Single) : List Single :=
  (List.range count).map fun i ↦ contents.getD i 0

private theorem answers_read (hresult : handle .outputHost = some result)
    (hpins : Pins handle bytes log) (hd : Answers world handle stream result v true d)
    (h : Effect world log d (.use .memcpy [some result]) d') :
    Coherent world handle none d' ∧
      (List.range (bytes / 4).toNat).map (world.libraries.outputElement d.answered) =
        elements (bytes / 4).toNat v := by
  cases h with
  | plain hplain => cases hplain
  | write hid => cases hpins.serves _ _ hresult _ _ hid
  | read hid hread =>
    obtain rfl := hpins.holds _ hresult _ hid
    refine ⟨hd.1.1.next, List.map_congr_left fun i hi ↦ ?_⟩
    rw [hread i (List.mem_range.mp hi), ← hd.1.2 rfl, State.settled_of_nil (hd.2 rfl)]

/-- What an inference answers. -/
def Infers (world : World) (handle : Slot → Option ℕ) (bytes : UInt64) (input : List Single)
    (output : Option (List Single)) (r : Inferred) : Prop :=
  r.ok = true → ∃ context, handle .context = some context ∧
    r.output = output.map (copyInto (elements (bytes / 4).toNat (world.net context input))) ∧
    r.outputElements = bytes / 4

/-- An inference that succeeds returns the answer of the network to its input. -/
theorem inferInto_held {n : ℕ} {bytes : UInt64}
    (hunique : ∀ slot slot' id, handle slot = some id → handle slot' = some id → slot = slot')
    (input output : Option (List Single)) (inputElements outputCapacity : UInt64) :
    Ensures (fun s ↦ s.outputBytes = bytes ∧
        Held world handle bytes (fun d ↦ Coherent world handle none d ∧ d.answered = n) s)
      (inferInto world.libraries input output inputElements outputCapacity) fun r ↦
        Held world handle bytes fun d ↦ Coherent world handle none d ∧
          Infers world handle bytes (world.written n) output r := by
  have hreset : Keeps (fun s ↦ s.outputBytes = bytes ∧
      Held world handle bytes (fun d ↦ Coherent world handle none d ∧ d.answered = n) s)
      (modify fun s ↦ { s with lastDeviceLatencyUs := none } : Program Unit) :=
    fun s hs ↦ ⟨hs.1, hs.2.owns, hs.2.pins, hs.2.behind⟩
  refine Ensures.bind hreset fun _ ↦ Ensures.get fun s ↦ Ensures.of_pre ?_
  rintro s ⟨rfl, rfl, hs⟩
  refine Ensures.mono (P := Held world handle s.outputBytes fun d ↦ Coherent world handle none d ∧
    d.answered = n) ?_ (fun t ht ↦ ht ▸ hs) fun _ _ h ↦ h
  have hrefused : ∀ r : Inferred, r.ok = false → ∀ {P : Device → Prop} t,
      (∀ d, P d → Coherent world handle none d) → Held world handle s.outputBytes P t →
      Held world handle s.outputBytes (fun d ↦ Coherent world handle none d ∧
        Infers world handle s.outputBytes (world.written n) output r) t :=
    fun r hr _ t hP ht ↦ ht.imp fun d hd ↦ ⟨hP d hd, fun hok ↦ by rw [hr] at hok; cases hok⟩
  refine Ensures.ite (fun _ t ht ↦ hrefused _ rfl t (fun d hd ↦ hd.1) ht) fun hchecks ↦ ?_
  have hall : ∀ slot ∈ ([.context, .stream, .inputDevice, .outputDevice, .inputHost,
      .outputHost] : List Slot), ∃ id, handle slot = some id := by
    rw [Bool.not_eq_true, Bool.not_eq_false', Members.passesChecks] at hchecks
    simp only [Bool.and_eq_true, List.all_eq_true] at hchecks
    intro slot hslot
    rw [← hs.owns]
    exact Option.isSome_iff_exists.mp (hchecks.1.1.1.1.1 slot hslot)
  obtain ⟨context, hcontext⟩ := hall .context (by decide)
  obtain ⟨stream, hstream⟩ := hall .stream (by decide)
  obtain ⟨source, hsource⟩ := hall .inputDevice (by decide)
  obtain ⟨target, htarget⟩ := hall .outputDevice (by decide)
  obtain ⟨pinned, hpinned⟩ := hall .inputHost (by decide)
  obtain ⟨result, hresult⟩ := hall .outputHost (by decide)
  have hid : result ∈ buffers handle := mem_buffers hresult (by decide)
  refine held_orReturn (submitInference_held ⟨hcontext, hstream, hsource, htarget, hpinned, hresult,
    hunique⟩) (fun t ht ↦ hrefused _ rfl t (fun d hd ↦ hd.1.1) ht) ?_
  refine get_held fun t _ ↦ ?_
  refine held_orReturn (S := fun _ ↦ Answers world handle stream result _ true)
    (plain_held rfl (stable_answers hstream hid true) fun d hd ↦ ⟨hd.1.next, hd.2⟩)
    (fun t ht ↦ hrefused _ rfl t (fun d hd ↦ hd.1.1) ht) ?_
  refine Ensures.bind (R := fun _ ↦ Held world handle s.outputBytes
    (Answers world handle stream result _ true)) (fun t ht ↦ ⟨ht.owns, ht.pins, ht.behind⟩)
    fun _ ↦ ?_
  rw [hs.owns, hresult]
  refine Ensures.bind (call_held (Q := fun data d ↦ Coherent world handle none d ∧
    data = elements (s.outputBytes / 4).toNat (world.net context (world.written n))) ?_ ?_) ?_
  · exact fun data d t hd hstep ↦ ⟨stable_coherent d t hd.1 hstep, hd.2⟩
  · exact fun log d d' hpins hd he ↦ answers_read hresult hpins hd he
  · intro data t ht
    refine ht.imp fun d hd ↦ ⟨hd.1, fun _ ↦ ⟨context, hcontext, ?_⟩⟩
    exact ⟨congrArg (fun data ↦ output.map (copyInto data)) hd.2, rfl⟩

end Programs

end

end MarketData.TensorRT
