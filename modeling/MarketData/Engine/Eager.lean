import MarketData.Engine.Device

/-!
# A device that waits for nothing

The least that the libraries can do: every piece of work is done when it is submitted, and no call
that submits work fails. It is a device behind every ledger that it can follow.
-/

namespace MarketData.TensorRT

open Cpp Ledger Streams

/-- The entry creates a buffer with the handle. -/
def bufferOf? (id : ℕ) : Entry ℕ Resource Operation → Option (Slot × UInt64)
  | .create id' (.buffer slot bytes) => if id' = id then some (slot, bytes) else none
  | _ => none

namespace Device

/-- Work is done at once, or goes into the capture while one is under way. -/
def work (d : Device) (stream : ℕ) (tasks : List Task) : Device :=
  match d.capture stream with
  | none => { d with memory := Work.performAll tasks d.memory }
  | some captured =>
    { d with capture := Function.update d.capture stream (some (captured ++ tasks)) }

variable (world : World)

/-- A copy from or to pinned memory. -/
def copyPinned (log : List (Entry ℕ Resource Operation)) (d : Device) (id : ℕ) : Option Device :=
  match log.findSome? (bufferOf? id) with
  | some (.inputHost, _) =>
    some { d.next with memory := Function.update d.memory id (world.written d.answered) }
  | some (.outputHost, bytes) =>
    if (List.range (bytes / 4).toNat).all fun i ↦
        decide (world.libraries.outputElement d.answered i = (d.memory id).getD i 0) then
      some d.next
    else none
  | _ => none

/-- A call that succeeds and that is not plain. -/
def call (d : Device) : Operation → List (Option ℕ) → Option Device
  | .cudaMemcpyAsync, [some target, some source, some _] =>
    some { d.next with memory := (copyTask target source).perform d.memory }
  | .enqueueV3, [some context, some stream] =>
    match d.addresses context with
    | [source, target] => some (d.work stream [inferTask world.net context source target]).next
    | _ => none
  | .cudaGraphLaunch, [some graph, some _] =>
    some { d.next with memory := Work.performAll (d.graph graph) d.memory }
  | .setTensorAddress, [some context, some address] => some (d.bind context address).next
  | .cudaStreamBeginCapture, [some stream] => some (d.beginCapture stream).next
  | .cudaStreamEndCapture, [some stream, some _] => some (d.endCapture stream).next
  | .cudaGraphInstantiateWithFlags, [some graph] => some { d.next with template := d.graph graph }
  | _, _ => none

/-- The device behind one more entry. -/
def follow (log : List (Entry ℕ Resource Operation)) (d : Device) :
    Entry ℕ Resource Operation → Option Device
  | .create id what => some (d.create id [] what)
  | .destroy _ => some d
  | .use op ids =>
    if op.plain then some d.next
    else match op, ids with
      | .memcpy, [some id] => d.copyPinned world log id
      | op, ids => if world.libraries.succeeds d.answered then d.call world op ids else none

/-- The device behind a ledger, if it can follow it. -/
def followAll (log : List (Entry ℕ Resource Operation)) : Option Device :=
  (log.foldlM (fun (past, d) e ↦ (follow world past d e).map fun d ↦ (past ++ [e], d))
    ([], initial)).map Prod.snd

end Device

section

variable {world : World} {log : List (Entry ℕ Resource Operation)} {d d' : Device} {stream : ℕ}
  {tasks : List Task}

private theorem After.done (h : After world log (d.submit stream tasks))
    (hqueue : d.queue = fun _ ↦ []) :
    After world log { d with memory := Work.performAll tasks d.memory } := by
  induction tasks generalizing d with
  | nil =>
    have hsubmit : d.submit stream [] = d := by
      simp [Device.submit, State.submit]
    rwa [hsubmit] at h
  | cons w tasks ih =>
    have hfirst : (d.submit stream (w :: tasks)).queue stream = w :: tasks := by
      simp [Device.submit, hqueue]
    have hstep := h.step (.done hfirst)
    refine ih (d := { d with memory := w.perform d.memory }) ?_ hqueue
    simpa [Device.submit, State.submit, hqueue] using hstep

private theorem After.work (h : After world log (d.launch stream tasks).next)
    (hqueue : d.queue = fun _ ↦ []) :
    After world log (d.work stream tasks).next ∧
      (d.work stream tasks).next.queue = fun _ ↦ [] := by
  unfold Device.launch at h
  unfold Device.work
  cases hcapture : d.capture stream with
  | none =>
    rw [hcapture] at h
    exact ⟨After.done (d := d.next) h hqueue, hqueue⟩
  | some captured =>
    rw [hcapture] at h
    exact ⟨h, hqueue⟩

private theorem mem_of_bufferOf? {id : ℕ} {slot : Slot} {bytes : UInt64}
    (h : log.findSome? (bufferOf? id) = some (slot, bytes)) :
    .create id (.buffer slot bytes) ∈ log := by
  obtain ⟨e, he, hbuffer⟩ := List.exists_of_findSome?_eq_some h
  unfold bufferOf? at hbuffer
  split at hbuffer
  · next id' slot' bytes' =>
    split at hbuffer
    · next hid =>
      obtain ⟨rfl, rfl⟩ := Prod.mk.inj (Option.some.inj hbuffer)
      rwa [hid] at he
    · cases hbuffer
  · cases hbuffer

private theorem After.copyPinned {id : ℕ} (h : After world log d) (hqueue : d.queue = fun _ ↦ [])
    (hcopy : d.copyPinned world log id = some d') :
    After world (log ++ [.use .memcpy [some id]]) d' ∧ d'.queue = fun _ ↦ [] := by
  unfold Device.copyPinned at hcopy
  split at hcopy
  · next bytes hbuffer =>
    obtain rfl := Option.some.inj hcopy
    exact ⟨h.entry (.write (mem_of_bufferOf? hbuffer)), hqueue⟩
  · next bytes hbuffer =>
    split at hcopy
    · next hread =>
      obtain rfl := Option.some.inj hcopy
      refine ⟨h.entry (.read (mem_of_bufferOf? hbuffer) fun i hi ↦ ?_), hqueue⟩
      exact of_decide_eq_true (List.all_eq_true.mp hread i (List.mem_range.mpr hi))
    · cases hcopy
  · cases hcopy

private theorem After.call {op : Operation} {ids : List (Option ℕ)} (h : After world log d)
    (hqueue : d.queue = fun _ ↦ []) (hok : world.libraries.succeeds d.answered = true)
    (hcall : d.call world op ids = some d') :
    After world (log ++ [.use op ids]) d' ∧ d'.queue = fun _ ↦ [] := by
  unfold Device.call at hcall
  split at hcall
  · next target source stream =>
    obtain rfl := Option.some.inj hcall
    exact ⟨After.done (d := d.next) (h.entry .copy) hqueue, hqueue⟩
  · next context stream =>
    split at hcall
    · next source target haddresses =>
      obtain rfl := Option.some.inj hcall
      exact After.work (h.entry (.enqueue hok haddresses)) hqueue
    · cases hcall
  · next graph stream =>
    obtain rfl := Option.some.inj hcall
    exact ⟨After.done (d := d.next) (h.entry (.launch hok)) hqueue, hqueue⟩
  · next context address =>
    obtain rfl := Option.some.inj hcall
    have hentry := h.entry (@Effect.bind world log d context address)
    rw [if_pos hok] at hentry
    exact ⟨hentry, hqueue⟩
  · next stream =>
    obtain rfl := Option.some.inj hcall
    have hentry := h.entry (@Effect.beginCapture world log d stream)
    rw [if_pos hok] at hentry
    exact ⟨hentry, hqueue⟩
  · obtain rfl := Option.some.inj hcall
    exact ⟨h.entry .endCapture, hqueue⟩
  · obtain rfl := Option.some.inj hcall
    exact ⟨h.entry .instantiate, hqueue⟩
  · cases hcall

private theorem After.follow {e : Entry ℕ Resource Operation} (h : After world log d)
    (hqueue : d.queue = fun _ ↦ []) (hfollow : d.follow world log e = some d') :
    After world (log ++ [e]) d' ∧ d'.queue = fun _ ↦ [] := by
  unfold Device.follow at hfollow
  split at hfollow
  · next id what =>
    obtain rfl := Option.some.inj hfollow
    refine ⟨h.entry (.create []), ?_⟩
    cases what <;> exact hqueue
  · obtain rfl := Option.some.inj hfollow
    exact ⟨h.entry .destroy, hqueue⟩
  · next op ids =>
    split at hfollow
    · next hplain =>
      obtain rfl := Option.some.inj hfollow
      exact ⟨h.entry (.plain hplain fun _ _ stream _ ↦ congrFun hqueue stream), hqueue⟩
    · split at hfollow
      · exact h.copyPinned hqueue hfollow
      · split at hfollow
        · next hok => exact h.call hqueue hok hfollow
        · cases hfollow

/-- What the device follows it is behind. -/
theorem after_followAll (h : Device.followAll world log = some d) : After world log d := by
  obtain ⟨⟨past, d⟩, hfold, rfl⟩ := Option.map_eq_some_iff.mp h
  suffices past = log ∧ After world log d ∧ d.queue = fun _ ↦ [] from this.2.1
  clear h
  induction log using List.reverseRecOn generalizing past d with
  | nil =>
    obtain ⟨rfl, rfl⟩ := Prod.mk.inj (Option.some.inj hfold)
    exact ⟨rfl, .start, rfl⟩
  | append_singleton log e ih =>
    rw [List.foldlM_append, Option.bind_eq_bind, Option.bind_eq_some_iff] at hfold
    obtain ⟨⟨past', d'⟩, hbefore, hlast⟩ := hfold
    obtain ⟨rfl, hafter, hqueue⟩ := ih _ _ hbefore
    simp only [List.foldlM_cons, List.foldlM_nil] at hlast
    obtain ⟨d'', hfollow, heq⟩ : ∃ d'', d'.follow world past' e = some d'' ∧
        (past' ++ [e], d'') = (past, d) := by
      simpa using hlast
    obtain ⟨rfl, rfl⟩ := Prod.mk.inj heq
    exact ⟨rfl, hafter.follow hqueue hfollow⟩

end

end MarketData.TensorRT
