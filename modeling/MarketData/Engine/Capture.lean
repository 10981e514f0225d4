import MarketData.Engine.Coherence

/-!
# The data of a capture

A graph that is captured is one inference of the context, and what a capture leaves is coherent,
whichever of its calls fail.
-/

namespace MarketData.TensorRT

open ByteText Cpp Ledger StateProgram Streams

variable {world : World} {handle : Slot → Option ℕ} {d : Device} {context stream : ℕ}

/-- The machine owns the given handles, and every device has a property. -/
def Owned (world : World) (handle : Slot → Option ℕ) (P : Device → Prop) (s : Machine) : Prop :=
  s.handle = handle ∧ Behind world P s

section Capture

variable {P : Device → Prop}

private theorem get_owned {α : Type} {f : Machine → Program α} {Q : α → Machine → Prop}
    (h : ∀ s, s.handle = handle → Ensures (Owned world handle P) (f s) Q) :
    Ensures (Owned world handle P) (MonadState.get >>= f) Q :=
  fun s hs ↦ h s hs.1 s hs

private theorem call_owned {α : Type} {op : Operation} {ids : List (Option ℕ)} {answer : ℕ → α}
    {Q : α → Device → Prop} (hstable : ∀ a, Stable (Q a))
    (heffect : ∀ log d d', P d → Effect world log d (.use op ids) d' → Q (answer d.answered) d') :
    Ensures (Owned world handle P) (invoke op ids answer) fun a ↦ Owned world handle (Q a) := by
  rintro s ⟨hs, hbehind⟩
  refine ⟨hs, hbehind.use (hstable _) fun d d' hanswered hd he ↦ ?_⟩
  have hQ := heffect s.log d d' hd he
  rw [hanswered] at hQ
  exact hQ

private theorem destroy_owned (hstable : Stable P) (id : ℕ) :
    Keeps (Owned world handle P) (destroy id) :=
  fun _ hs ↦ ⟨hs.1, hs.2.destroy hstable⟩

private theorem modify_owned (captured : Option (List ℕ)) :
    Keeps (Owned world handle P) (modify fun s ↦ { s with captured } : Program Unit) :=
  fun _ hs ↦ hs

/-- The stream captures, and what it has captured so far is the work of the context. -/
def Capturing (world : World) (handle : Slot → Option ℕ) (ok : Bool) (d : Device) : Prop :=
  ∃ tasks, Coherent world handle (some tasks) d ∧ Works world handle ok tasks

/-- The graph is the work of the context. -/
def Captures (world : World) (handle : Slot → Option ℕ) (ok : Bool) (graph : ℕ) (d : Device) :
    Prop :=
  Coherent world handle none d ∧ Works world handle ok (d.graph graph)

private theorem stable_capturing (ok : Bool) : Stable (Capturing world handle ok) :=
  fun d t ⟨tasks, h, hworks⟩ hstep ↦ ⟨tasks, stable_coherent d t h hstep, hworks⟩

private theorem stable_captures (ok : Bool) (graph : ℕ) :
    Stable (Captures world handle ok graph) :=
  fun d t h hstep ↦ ⟨stable_coherent d t h.1 hstep, h.2⟩

private theorem prime_owned (hseparate : Separate handle)
    (hcontext : handle .context = some context)
    (hstream : handle .stream = some stream) :
    Keeps (Owned world handle (Coherent world handle none)) (enqueue world.libraries) := by
  refine get_owned fun s hs ↦ ?_
  rw [hs, hcontext, hstream]
  refine Ensures.bind (call_owned (fun _ ↦ stable_coherent) ?_) fun ok _ hs ↦ hs
  intro log d d' hd he
  obtain ⟨tasks, rfl, hworks⟩ := enqueue_works hseparate hcontext hd he
  rw [hd.launch_eq hstream]
  exact (hd.submit hstream hworks.1).next

private theorem capture_owned (hseparate : Separate handle)
    (hcontext : handle .context = some context) (hstream : handle .stream = some stream) :
    Ensures (Owned world handle (Coherent world handle (some []))) (enqueue world.libraries)
      fun ok ↦ Owned world handle (Capturing world handle ok) := by
  refine get_owned fun s hs ↦ ?_
  rw [hs, hcontext, hstream]
  refine Ensures.bind (call_owned stable_capturing ?_) fun ok _ hs ↦ hs
  intro log d d' hd he
  obtain ⟨tasks, rfl, hworks⟩ := enqueue_works hseparate hcontext hd he
  rw [Device.launch, hd.capture stream hstream]
  refine ⟨tasks, { hd with capture := fun q hq ↦ ?_ }, hworks⟩
  obtain rfl := Option.some.inj (hstream.symm.trans hq)
  exact Function.update_self ..

private theorem endCapture_owned {capture : ℕ} {ok : Bool}
    (hgraph : handle .graphExecution = none) (hstream : handle .stream = some stream) :
    Ensures (Owned world handle (Capturing world handle ok)) (endCapture world.libraries capture)
      fun r ↦ match r.2 with
        | none => Owned world handle (Coherent world handle none)
        | some (graph, _) => Owned world handle (Captures world handle ok graph) := by
  let Ended (d : Device) : Prop := Coherent world handle none d ∧ Works world handle ok d.template
  have hended : Stable Ended := fun d t h hstep ↦ ⟨stable_coherent d t h.1 hstep, h.2⟩
  refine get_owned fun s hs ↦ ?_
  rw [hs, hstream]
  refine Ensures.bind (call_owned (Q := fun _ ↦ Ended) (fun _ ↦ hended) ?_) fun status ↦ ?_
  · rintro log d d' ⟨tasks, hd, hworks⟩ he
    cases he with
    | plain hplain => cases hplain
    | endCapture =>
      have hcapture := hd.capture stream hstream
      refine ⟨{ hd with capture := fun q hq ↦ ?_ }, ?_⟩
      · obtain rfl := Option.some.inj (hstream.symm.trans hq)
        exact Function.update_self ..
      · change Works world handle ok ((d.capture stream).getD [])
        rwa [hcapture]
  refine Ensures.bind (modify_owned none) fun _ ↦ Ensures.bind (destroy_owned hended _) fun _ ↦ ?_
  refine Ensures.ite (fun _ ↦ ?_) fun _ _ hs ↦ ⟨hs.1, hs.2.imp fun d hd ↦ hd.1⟩
  rintro t ⟨ht, hbehind⟩
  refine ⟨ht, hbehind.create (fun d contents hd ↦ ?_) (stable_captures ok _)⟩
  refine ⟨{ hd.1 with graph := fun graph h ↦ by rw [hgraph] at h; cases h }, ?_⟩
  change Works world handle ok (Function.update d.graph t.next d.template t.next)
  rw [Function.update_self]
  exact hd.2

private theorem Owned.quiet {s : Machine} (h : Owned world handle (Coherent world handle none) s) :
    Quiet world s := by
  obtain ⟨rfl, hs⟩ := h
  exact hs

private theorem coherent_graph {graph : ℕ} (h : Captures world handle true graph d) :
    Coherent world (Function.update handle .graphExecution (some graph)) none d := by
  have hother : ∀ slot, slot ≠ .graphExecution →
      Function.update handle .graphExecution (some graph) slot = handle slot :=
    fun slot hne ↦ Function.update_of_ne hne ..
  obtain ⟨hd, hworks⟩ := h
  obtain ⟨context, source, target, hcontext, hsource, htarget, hwork⟩ := hworks.2 rfl
  have hbuffers : buffers (Function.update handle .graphExecution (some graph)) =
      buffers handle := by
    ext id
    refine exists_congr fun slot ↦ and_congr_right fun hslot ↦ ?_
    rw [hother slot (by rintro rfl; exact absurd hslot (by decide))]
  refine ⟨?_, ?_, ?_, ?_, ?_⟩
  · rw [hother .stream (by decide), hbuffers]
    exact hd.isolated
  · rw [hother .stream (by decide), hother .inputHost (by decide)]
    exact hd.pinned
  · rw [hother .context (by decide), bindings, hother .inputDevice (by decide),
      hother .outputDevice (by decide)]
    exact hd.addresses
  · rw [hother .stream (by decide)]
    exact hd.capture
  · intro g hg
    rw [Function.update_self] at hg
    obtain rfl := Option.some.inj hg
    refine ⟨context, source, target, ?_, ?_, ?_, hwork⟩
    · rwa [hother .context (by decide)]
    · rwa [hother .inputDevice (by decide)]
    · rwa [hother .outputDevice (by decide)]

private theorem instantiate_quiet {graph : ℕ} {contexts : List ℕ}
    (hgraph : handle .graphExecution = none) :
    Ensures (Owned world handle (Captures world handle true graph))
      (instantiate world.libraries graph contexts) fun _ ↦ Quiet world := by
  let Ended (d : Device) : Prop := Coherent world handle none d ∧ Works world handle true d.template
  have hended : Stable Ended := fun d t h hstep ↦ ⟨stable_coherent d t h.1 hstep, h.2⟩
  have hinvoke : Ensures (Owned world handle (Captures world handle true graph))
      (invoke .cudaGraphInstantiateWithFlags [some graph] world.libraries.succeeds)
      fun _ ↦ Owned world handle Ended := by
    refine call_owned (Q := fun _ ↦ Ended) (fun _ ↦ hended) fun log d d' hd he ↦ ?_
    cases he with
    | plain hplain => cases hplain
    | instantiate => exact ⟨{ hd.1 with }, hd.2⟩
  have hcreate : Ensures (Owned world handle (Captures world handle true graph))
      (createInto world.libraries .graphExecution .cudaGraphInstantiateWithFlags [some graph]
        (.executableGraph contexts)) fun _ ↦ Quiet world := by
    refine Ensures.bind (R := fun h ↦ Owned world handle
      (h.elim (Coherent world handle none) (Captures world handle true)))
      (Ensures.bind hinvoke fun ok ↦ ?_) fun h ↦ ?_
    · cases ok with
      | false => exact fun s hs ↦ ⟨hs.1, hs.2.imp fun d hd ↦ hd.1⟩
      | true =>
        rintro s ⟨hs, hbehind⟩
        refine ⟨hs, hbehind.create (fun d contents hd ↦ ?_) (stable_captures true _)⟩
        refine ⟨{ hd.1 with graph := fun graph h ↦ by rw [hgraph] at h; cases h }, ?_⟩
        change Works world handle true (Function.update d.graph s.next d.template s.next)
        rw [Function.update_self]
        exact hd.2
    · cases h with
      | none =>
        rintro s ⟨rfl, hbehind⟩
        have hnone : Function.update s.handle .graphExecution none = s.handle := by
          rw [← hgraph]
          exact Function.update_eq_self ..
        change Behind world (Coherent world (Function.update s.handle .graphExecution none) none) _
        rw [hnone]
        exact hbehind
      | some id =>
        rintro s ⟨rfl, hbehind⟩
        exact hbehind.imp fun d hd ↦ coherent_graph hd
  refine Ensures.bind hcreate fun ok ↦ Ensures.bind ?_ fun _ _ hs ↦ hs
  exact fun s hs ↦ hs.destroy stable_coherent

private theorem captureGraph_quiet (hseparate : Separate handle)
    (hcontext : handle .context = some context) (hstream : handle .stream = some stream)
    (hgraph : handle .graphExecution = none) :
    Ensures (Owned world handle (Coherent world handle none)) (captureGraph world.libraries)
      fun _ ↦ Quiet world := by
  refine get_owned fun s hs ↦ ?_
  rw [hs, hstream]
  have hbegin : Ensures (Owned world handle (Coherent world handle none))
      (tryCreate world.libraries .cudaStreamBeginCapture [some stream] .capture)
      fun h ↦ Owned world handle (Coherent world handle (h.map fun _ ↦ [])) := by
    refine Ensures.bind (call_owned
      (Q := fun ok ↦ Coherent world handle (if ok then some [] else none))
      (fun _ ↦ stable_coherent) ?_) fun ok ↦ ?_
    · intro log d d' hd he
      cases he with
      | plain hplain => cases hplain
      | beginCapture =>
        split
        · refine { hd with capture := fun q hq ↦ ?_ }
          obtain rfl := Option.some.inj (hstream.symm.trans hq)
          exact Function.update_self ..
        · exact hd.next
    · cases ok with
      | false => exact fun _ hs ↦ hs
      | true => exact fun s hs ↦ ⟨hs.1, hs.2.create (fun d contents hd ↦ hd) stable_coherent⟩
  refine Ensures.bind hbegin fun capture ↦ ?_
  cases capture with
  | none => exact fun s hs ↦ hs.quiet
  | some capture =>
    refine Ensures.bind (modify_owned (some [])) fun _ ↦ ?_
    refine Ensures.bind (capture_owned hseparate hcontext hstream) fun ok ↦ ?_
    refine Ensures.bind (endCapture_owned hgraph hstream) fun ⟨status, r⟩ ↦ ?_
    cases r with
    | none => exact fun s hs ↦ hs.quiet
    | some r =>
      obtain ⟨graph, contexts⟩ := r
      refine Ensures.ite (fun _ ↦ ?_) fun hok ↦ ?_
      · refine Ensures.bind (destroy_owned (stable_captures ok graph) graph) fun _ s hs ↦ ?_
        have hs : Owned world handle (Coherent world handle none) s :=
          ⟨hs.1, hs.2.imp fun d hd ↦ hd.1⟩
        exact hs.quiet
      · -- Only a capture whose work was enqueued is instantiated.
        have hwork : ok = true := by
          by_contra h
          exact hok (.inl (by simpa using h))
        subst hwork
        exact instantiate_quiet hgraph

/-- Behind an attempt to capture a graph the engine is quiet. -/
theorem enableCudaGraph_quiet (hseparate : Separate handle) :
    Ensures (Owned world handle (Coherent world handle none)) (enableCudaGraph world.libraries)
      fun _ ↦ Quiet world := by
  refine get_owned fun s hs ↦ ?_
  rw [hs]
  refine Ensures.ite (fun _ t ht ↦ ht.quiet) fun hgraph ↦ ?_
  refine Ensures.ite (fun _ t ht ↦ ht.quiet) fun hmissing ↦ ?_
  simp only [not_or, Bool.not_eq_true, Option.isNone_eq_false_iff] at hmissing
  obtain ⟨context, hcontext⟩ := Option.isSome_iff_exists.mp hmissing.1
  obtain ⟨stream, hstream⟩ := Option.isSome_iff_exists.mp hmissing.2
  refine Keeps.orReturn (prime_owned hseparate hcontext hstream) (fun t ht ↦ ht.quiet) ?_
  have hsynchronize : Keeps (Owned world handle (Coherent world handle none))
      (invoke .cudaStreamSynchronize [handle .stream] world.libraries.succeeds) := by
    refine call_owned (fun _ ↦ stable_coherent) fun log d d' hd he ↦ ?_
    rw [he.eq_next rfl]
    exact hd.next
  refine Keeps.orReturn hsynchronize (fun t ht ↦ ht.quiet) ?_
  exact captureGraph_quiet hseparate hcontext hstream (by simpa using hgraph)

end Capture

end MarketData.TensorRT
