import MarketData.Base.Streams
import MarketData.Engine.TensorRT

/-!
# The device behind the TensorRT engine

What the CUDA and TensorRT libraries promise about the data, read along the ledger of the engine.
Buffers, streams, contexts and graphs are known by their handles. What is submitted to a stream
waits there and is done at any later time, in order. A call that fails may leave work behind, but
none that writes to an input. A handle is given once: what is freed is not handed out again while
work waits for it.
-/

namespace MarketData.TensorRT

open Cpp Ledger Streams

/-- Work on the contents of buffers. -/
abbrev Task := Work ℕ (List Single)

/-- `cudaMemcpyAsync` between two buffers of one size: the target gets what the source holds when
the stream comes to it. -/
def copyTask (target source : ℕ) : Task := ⟨target, [source], fun contents ↦ contents.headD []⟩

/-- One inference of a context, whose network computes the output tensor from the input tensor. -/
def inferTask (net : ℕ → List Single → List Single) (context source target : ℕ) : Task :=
  ⟨target, [source], fun contents ↦ net context (contents.headD [])⟩

/-- The device: the contents of its buffers and the work that waits on its streams, the addresses
of the tensors of each context in the order in which they were set, the work captured so far on
the streams that capture, the work that the next graph is made of, the work of the graphs, and the
number of answers given. -/
structure Device extends Streams.State ℕ ℕ (List Single) where
  addresses : ℕ → List ℕ
  capture : ℕ → Option (List Task)
  template : List Task
  graph : ℕ → List Task
  answered : ℕ

namespace Device

/-- The device before the first call. -/
def initial : Device where
  memory _ := []
  queue _ := []
  addresses _ := []
  capture _ := none
  template := []
  graph _ := []
  answered := 0

/-- The device has given one more answer. -/
def next (d : Device) : Device := { d with answered := d.answered + 1 }

/-- Work is submitted to a stream. -/
def submit (d : Device) (stream : ℕ) (tasks : List Task) : Device :=
  { d with toState := d.toState.submit stream tasks }

/-- A context works on a stream, or into the capture while one is under way there. -/
def launch (d : Device) (stream : ℕ) (tasks : List Task) : Device :=
  match d.capture stream with
  | none => d.submit stream tasks
  | some captured =>
    { d with capture := Function.update d.capture stream (some (captured ++ tasks)) }

/-- A new handle. The contents of a new buffer are arbitrary, and a graph is made of what was
captured. -/
def create (d : Device) (id : ℕ) (contents : List Single) : Resource → Device
  | .buffer _ _ => { d with toState := d.toState.write id contents }
  | .graph _ | .executableGraph _ => { d with graph := Function.update d.graph id d.template }
  | _ => d

/-- One more tensor of a context has an address. -/
def bind (d : Device) (context address : ℕ) : Device :=
  { d with addresses :=
      Function.update d.addresses context (d.addresses context ++ [address]) }

/-- A stream starts to capture. -/
def beginCapture (d : Device) (stream : ℕ) : Device :=
  { d with capture := Function.update d.capture stream (some []) }

/-- A stream ends its capture. -/
def endCapture (d : Device) (stream : ℕ) : Device :=
  { d with
    capture := Function.update d.capture stream none
    template := (d.capture stream).getD [] }

end Device

/-- The operation leaves all work and all addresses as they are, though it may wait. -/
def Operation.plain : Operation → Bool
  | .memcpy | .cudaMemcpyAsync | .enqueueV3 | .cudaGraphLaunch | .setTensorAddress
  | .cudaStreamBeginCapture | .cudaStreamEndCapture | .cudaGraphInstantiateWithFlags => false
  | _ => true

/-- What is given to a run: the answers of the libraries, the networks of the contexts, and what the
caller's memory holds at each call. -/
structure World where
  libraries : Libraries
  net : ℕ → List Single → List Single
  written : ℕ → List Single

section Semantics

variable (world : World)

/-- What an entry of the ledger does on the device. -/
inductive Effect (log : List (Entry ℕ Resource Operation)) (d : Device) :
    Entry ℕ Resource Operation → Device → Prop where
  | create {id : ℕ} {what : Resource} (contents : List Single) :
      Effect log d (.create id what) (d.create id contents what)
  | destroy {id : ℕ} : Effect log d (.destroy id) d
  /-- A wait that succeeds is over when nothing waits on the stream. -/
  | plain {op : Operation} {ids : List (Option ℕ)} (hplain : op.plain = true)
      (hwait : op = .cudaStreamSynchronize → world.libraries.succeeds d.answered = true →
        ∀ stream, some stream ∈ ids → d.queue stream = []) :
      Effect log d (.use op ids) d.next
  /-- `memcpy` into the pinned input takes what the caller's memory holds. -/
  | write {id : ℕ} {bytes : UInt64} (hid : .create id (.buffer .inputHost bytes) ∈ log) :
      Effect log d (.use .memcpy [some id])
        { d.next with toState := d.toState.write id (world.written d.answered) }
  /-- `memcpy` from the pinned output answers what the buffer holds. -/
  | read {id : ℕ} {bytes : UInt64} (hid : .create id (.buffer .outputHost bytes) ∈ log)
      (hread : ∀ i < (bytes / 4).toNat,
        world.libraries.outputElement d.answered i = (d.memory id).getD i 0) :
      Effect log d (.use .memcpy [some id]) d.next
  | copy {target source stream : ℕ} :
      Effect log d (.use .cudaMemcpyAsync [some target, some source, some stream])
        (d.submit stream [copyTask target source]).next
  | copyFails {target source stream : ℕ} (hfails : world.libraries.succeeds d.answered = false) :
      Effect log d (.use .cudaMemcpyAsync [some target, some source, some stream]) d.next
  /-- A context works once both of its tensors have an address, that of the input set first. -/
  | enqueue {context stream source target : ℕ} (hok : world.libraries.succeeds d.answered = true)
      (haddresses : d.addresses context = [source, target]) :
      Effect log d (.use .enqueueV3 [some context, some stream])
        (d.launch stream [inferTask world.net context source target]).next
  /-- A context that fails may leave anything in its output. -/
  | enqueueFails {context stream : ℕ} {tasks : List Task}
      (hfails : world.libraries.succeeds d.answered = false)
      (htasks : ∀ w ∈ tasks, w.sources = [] ∧ (d.addresses context)[1]? = some w.target) :
      Effect log d (.use .enqueueV3 [some context, some stream]) (d.launch stream tasks).next
  | launch {graph stream : ℕ} (hok : world.libraries.succeeds d.answered = true) :
      Effect log d (.use .cudaGraphLaunch [some graph, some stream])
        (d.submit stream (d.graph graph)).next
  | launchFails {graph stream : ℕ} {tasks : List Task}
      (hfails : world.libraries.succeeds d.answered = false)
      (htasks : ∀ w ∈ tasks, w.sources = [] ∧ ∃ v ∈ d.graph graph, w.target = v.target) :
      Effect log d (.use .cudaGraphLaunch [some graph, some stream]) (d.submit stream tasks).next
  | bind {context address : ℕ} :
      Effect log d (.use .setTensorAddress [some context, some address])
        (if world.libraries.succeeds d.answered then (d.bind context address).next else d.next)
  | beginCapture {stream : ℕ} :
      Effect log d (.use .cudaStreamBeginCapture [some stream])
        (if world.libraries.succeeds d.answered then (d.beginCapture stream).next else d.next)
  | endCapture {stream capture : ℕ} :
      Effect log d (.use .cudaStreamEndCapture [some stream, some capture])
        (d.endCapture stream).next
  | instantiate {graph : ℕ} :
      Effect log d (.use .cudaGraphInstantiateWithFlags [some graph])
        { d.next with template := d.graph graph }

/-- A device behind a ledger: at any time some stream may do the first work that waits on it. -/
inductive After : List (Entry ℕ Resource Operation) → Device → Prop where
  | start : After [] .initial
  | step {log : List (Entry ℕ Resource Operation)} {d : Device} {t : State ℕ ℕ (List Single)}
      (h : After log d) (hstep : d.toState.Step t) : After log { d with toState := t }
  | entry {log : List (Entry ℕ Resource Operation)} {e : Entry ℕ Resource Operation}
      {d d' : Device} (h : After log d) (heffect : Effect world log d e d') :
      After (log ++ [e]) d'

end Semantics

/-! ### What a device knows -/

namespace Device

/-- All that the device has work or addresses for is among some handles. -/
structure Within (S : Set ℕ) (d : Device) : Prop where
  queue : ∀ stream, ∀ w ∈ d.queue stream, stream ∈ S ∧ w.Within S
  addresses : ∀ context, ∀ address ∈ d.addresses context, context ∈ S ∧ address ∈ S
  capture : ∀ stream tasks, d.capture stream = some tasks → stream ∈ S ∧ ∀ w ∈ tasks, w.Within S
  template : ∀ w ∈ d.template, w.Within S
  graph : ∀ graph, ∀ w ∈ d.graph graph, w.Within S

variable {S S' : Set ℕ} {d : Device} {id stream : ℕ} {tasks : List Task}
  {t : State ℕ ℕ (List Single)} {what : Resource}

/-- At first the device works inside every set. -/
theorem within_initial : initial.Within S where
  queue _ _ h := by cases h
  addresses _ _ h := by cases h
  capture _ _ h := by cases h
  template _ h := by cases h
  graph _ _ h := by cases h

private theorem within_mono {w : Task} (h : w.Within S) (hS : S ⊆ S') : w.Within S' :=
  fun k hk ↦ hS (h k hk)

/-- A device works inside a larger set too. -/
theorem Within.mono (h : d.Within S) (hS : S ⊆ S') : d.Within S' where
  queue stream w hw := ⟨hS (h.queue stream w hw).1, within_mono (h.queue stream w hw).2 hS⟩
  addresses context address ha :=
    ⟨hS (h.addresses context address ha).1, hS (h.addresses context address ha).2⟩
  capture stream tasks hs :=
    ⟨hS (h.capture stream tasks hs).1,
      fun w hw ↦ within_mono ((h.capture stream tasks hs).2 w hw) hS⟩
  template w hw := within_mono (h.template w hw) hS
  graph graph w hw := within_mono (h.graph graph w hw) hS

/-- The number of the next handle does not matter. -/
theorem Within.next (h : d.Within S) : d.next.Within S := ⟨h.1, h.2, h.3, h.4, h.5⟩

/-- Work that is done leaves the rest of the work inside. -/
theorem Within.step (h : d.Within S) (hstep : d.toState.Step t) :
    ({ d with toState := t } : Device).Within S :=
  { h with queue := fun stream w hw ↦ h.queue stream w (hstep.mem_queue hw) }

/-- Work inside the set may be submitted. -/
theorem Within.submit (h : d.Within S) (hstream : stream ∈ S) (htasks : ∀ w ∈ tasks, w.Within S) :
    (d.submit stream tasks).Within S := by
  refine { h with queue := fun q w hw ↦ ?_ }
  rcases State.mem_queue_submit hw with hwaits | ⟨rfl, hnew⟩
  · exact h.queue q w hwaits
  · exact ⟨hstream, htasks w hnew⟩

/-- Work inside the set may be launched, whether it is captured or done. -/
theorem Within.launch (h : d.Within S) (hstream : stream ∈ S) (htasks : ∀ w ∈ tasks, w.Within S) :
    (d.launch stream tasks).Within S := by
  unfold Device.launch
  split
  · exact h.submit hstream htasks
  · next captured hcapture =>
    refine { h with capture := fun q tasks' hq ↦ ?_ }
    by_cases hne : q = stream
    · subst hne
      obtain rfl : captured ++ tasks = tasks' := by simpa using hq
      refine ⟨hstream, fun w hw ↦ (List.mem_append.mp hw).elim ?_ (htasks w)⟩
      exact (h.capture q captured hcapture).2 w
    · exact h.capture q tasks' (by simpa [hne] using hq)

/-- A new buffer brings no work. -/
theorem Within.create (h : d.Within S) (contents : List Single) :
    (d.create id contents what).Within S := by
  have hgraph : ({ d with graph := Function.update d.graph id d.template } : Device).Within S := by
    refine { h with graph := fun graph w hw ↦ ?_ }
    by_cases hne : graph = id
    · subst hne
      exact h.template w (by simpa using hw)
    · exact h.graph graph w (by simpa [hne] using hw)
  cases what with
  | buffer slot bytes => exact { h with }
  | graph contexts => exact hgraph
  | executableGraph contexts => exact hgraph
  | _ => exact h

/-- An address inside the set may be bound. -/
theorem Within.bind {context address : ℕ} (h : d.Within S) (hcontext : context ∈ S)
    (haddress : address ∈ S) : (d.bind context address).Within S := by
  refine { h with addresses := fun c a ha ↦ ?_ }
  by_cases hne : c = context
  · subst hne
    have hmem : a ∈ d.addresses c ++ [address] := by simpa [Device.bind] using ha
    rcases List.mem_append.mp hmem with ha | ha
    · exact h.addresses c a ha
    · rw [List.mem_singleton.mp ha]
      exact ⟨hcontext, haddress⟩
  · exact h.addresses c a (by simpa [Device.bind, hne] using ha)

/-- A capture may begin on a stream inside the set. -/
theorem Within.beginCapture (h : d.Within S) (hstream : stream ∈ S) :
    (d.beginCapture stream).Within S := by
  refine { h with capture := fun q tasks hq ↦ ?_ }
  by_cases hne : q = stream
  · subst hne
    obtain rfl : [] = tasks := by simpa [Device.beginCapture] using hq
    exact ⟨hstream, fun _ hw ↦ by cases hw⟩
  · exact h.capture q tasks (by simpa [Device.beginCapture, hne] using hq)

/-- The end of a capture brings no work from outside. -/
theorem Within.endCapture (h : d.Within S) : (d.endCapture stream).Within S := by
  refine { h with capture := fun q tasks hq ↦ ?_, template := fun w hw ↦ ?_ }
  · by_cases hne : q = stream
    · subst hne
      simp [Device.endCapture] at hq
    · exact h.capture q tasks (by simpa [Device.endCapture, hne] using hq)
  · cases hcapture : d.capture stream with
    | none => simp [Device.endCapture, hcapture] at hw
    | some tasks =>
      exact (h.capture stream tasks hcapture).2 w (by simpa [Device.endCapture, hcapture] using hw)

end Device

section

variable {world : World}
  {log : List (Entry ℕ Resource Operation)} {e : Entry ℕ Resource Operation} {d d' : Device}
  {S : Set ℕ}

private theorem within_copyTask {target source : ℕ} (htarget : target ∈ S) (hsource : source ∈ S) :
    (copyTask target source).Within S := by
  rintro k (rfl | hk)
  · exact htarget
  · rw [List.mem_singleton.mp hk]
    exact hsource

private theorem within_inferTask {net : ℕ → List Single → List Single}
    {context source target : ℕ} (hsource : source ∈ S)
    (htarget : target ∈ S) : (inferTask net context source target).Within S := by
  rintro k (rfl | hk)
  · exact htarget
  · rw [List.mem_singleton.mp hk]
    exact hsource

private theorem within_of_target {w : Task} (hsources : w.sources = []) (htarget : w.target ∈ S) :
    w.Within S := by
  rintro k (rfl | hk)
  · exact htarget
  · rw [hsources] at hk
    cases hk

/-- An entry adds no more to what the device knows than the handles that it uses. -/
theorem Effect.within (h : Effect world log d e d') (hd : d.Within S)
    (hids : ∀ op ids, e = .use op ids → op.plain = false → ∀ id, some id ∈ ids → id ∈ S) :
    d'.Within S := by
  cases h with
  | create contents => exact hd.create contents
  | destroy => exact hd
  | plain => exact hd.next
  | write => exact { hd with }
  | read => exact hd.next
  | copy =>
    have hids := hids _ _ rfl rfl
    refine (hd.submit (hids _ (by simp)) fun w hw ↦ ?_).next
    rw [List.mem_singleton.mp hw]
    exact within_copyTask (hids _ (by simp)) (hids _ (by simp))
  | copyFails => exact hd.next
  | @enqueue context stream source target hok haddresses =>
    have hmem := hd.addresses context
    rw [haddresses] at hmem
    refine (hd.launch (hids _ _ rfl rfl _ (by simp)) fun w hw ↦ ?_).next
    rw [List.mem_singleton.mp hw]
    exact within_inferTask (hmem _ (by simp)).2 (hmem _ (by simp)).2
  | enqueueFails hfails htasks =>
    refine (hd.launch (hids _ _ rfl rfl _ (by simp)) fun w hw ↦ ?_).next
    obtain ⟨hsources, htarget⟩ := htasks w hw
    exact within_of_target hsources (hd.addresses _ _ (List.mem_of_getElem? htarget)).2
  | launch hok => exact (hd.submit (hids _ _ rfl rfl _ (by simp)) (hd.graph _)).next
  | launchFails hfails htasks =>
    refine (hd.submit (hids _ _ rfl rfl _ (by simp)) fun w hw ↦ ?_).next
    obtain ⟨hsources, v, hv, htarget⟩ := htasks w hw
    exact within_of_target hsources (htarget ▸ hd.graph _ v hv _ (.inl rfl))
  | bind =>
    have hids := hids _ _ rfl rfl
    split
    · exact (hd.bind (hids _ (by simp)) (hids _ (by simp))).next
    · exact hd.next
  | beginCapture =>
    split
    · exact (hd.beginCapture (hids _ _ rfl rfl _ (by simp))).next
    · exact hd.next
  | endCapture => exact hd.endCapture.next
  | instantiate => exact { hd with template := hd.graph _ }

/-- Every call takes one answer. -/
theorem Effect.answered_use {op : Operation} {ids : List (Option ℕ)}
    (h : Effect world log d (.use op ids) d') : d'.answered = d.answered + 1 := by
  have hlaunch : ∀ stream tasks, (d.launch stream tasks).answered = d.answered := by
    intro stream tasks
    unfold Device.launch
    split <;> rfl
  cases h with
  | enqueue => exact congrArg (· + 1) (hlaunch _ _)
  | enqueueFails => exact congrArg (· + 1) (hlaunch _ _)
  | bind => split <;> rfl
  | beginCapture => split <;> rfl
  | _ => rfl

/-- A plain call does nothing on the device. -/
theorem Effect.eq_next {op : Operation} {ids : List (Option ℕ)}
    (h : Effect world log d (.use op ids) d') (hop : op.plain = true) :
    d' = d.next := by
  cases h with
  | plain => rfl
  | _ => cases hop

/-- What an address does. -/
theorem Effect.bind_cases {context address : Option ℕ}
    (h : Effect world log d (.use .setTensorAddress [context, address]) d') :
    ∃ c a, context = some c ∧ address = some a ∧
      d' = if world.libraries.succeeds d.answered then (d.bind c a).next else d.next := by
  cases h with
  | plain hplain => cases hplain
  | bind => exact ⟨_, _, rfl, rfl, rfl⟩

/-- A device knows no handle that is not given. -/
theorem After.within (h : After world log d) (hlog : Lawful log) :
    d.Within {id | id ∈ created log} := by
  induction h with
  | start => exact Device.within_initial
  | step _ hstep ih => exact (ih hlog).step hstep
  | @entry log e d d' _ heffect ih =>
    obtain ⟨hlog, he⟩ := lawful_concat.mp hlog
    have hcreated : {id | id ∈ created log} ⊆ {id | id ∈ created (log ++ [e])} := by
      intro id hid
      rw [Set.mem_ofPred_eq, created_concat]
      exact List.mem_append_left _ hid
    refine (heffect.within (ih hlog) ?_).mono hcreated
    rintro op ids rfl - id hid
    obtain ⟨_, what, heq, hlive⟩ := he (some id) hid
    obtain rfl := Option.some.inj heq
    exact hlive.mem_created

private theorem Effect.answered_le (h : Effect world log d e d') : d.answered ≤ d'.answered := by
  cases e with
  | create id what =>
    cases h
    cases what <;> exact le_rfl
  | destroy id =>
    cases h
    exact le_rfl
  | use op ids =>
    rw [h.answered_use]
    exact Nat.le_succ _

/-- Behind the first part of a ledger there was a device, which had given no more answers. -/
theorem After.exists_before {more : List (Entry ℕ Resource Operation)}
    (h : After world (log ++ more) d) : ∃ d', After world log d' ∧ d'.answered ≤ d.answered := by
  generalize hlog : log ++ more = whole at h
  induction h generalizing more with
  | start =>
    obtain ⟨rfl, -⟩ := List.append_eq_nil_iff.mp hlog
    exact ⟨.initial, .start, le_rfl⟩
  | step _ _ ih =>
    obtain ⟨d', hd', hle⟩ := ih hlog
    exact ⟨d', hd', hle⟩
  | entry hafter heffect ih =>
    rcases List.eq_nil_or_concat more with rfl | ⟨more, last, rfl⟩
    · rw [List.append_nil] at hlog
      exact ⟨_, hlog ▸ hafter.entry heffect, le_rfl⟩
    · rw [List.concat_eq_append, ← List.append_assoc] at hlog
      obtain ⟨d', hd', hle⟩ := ih (List.append_inj' hlog rfl).1
      exact ⟨d', hd', hle.trans heffect.answered_le⟩

/-- What holds of every device behind one more entry: the entry brings it about, and no work that
is done later changes it. -/
theorem After.concat {P Q : Device → Prop}
    (hstep : ∀ d t, Q d → d.toState.Step t → Q { d with toState := t })
    (hentry : ∀ d d', P d → Effect world log d e d' → Q d')
    (hP : ∀ d, After world log d → P d)
    (h : After world (log ++ [e]) d) : Q d := by
  generalize hlog : log ++ [e] = whole at h
  induction h with
  | start => simp at hlog
  | step _ hs ih => exact hstep _ _ (ih hlog) hs
  | entry hafter heffect ih =>
    obtain ⟨rfl, he⟩ := List.append_inj' hlog rfl
    obtain rfl := List.singleton_inj.mp he
    exact hentry _ _ (hP _ hafter) heffect

end

end MarketData.TensorRT
