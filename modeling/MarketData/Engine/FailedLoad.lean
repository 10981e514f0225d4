import MarketData.Engine.Handles

/-!
# Calls behind a failed load

A load that fails leaves the members that it created. The later calls check for some of them only:
they refuse exactly when the load failed before there was a stream.
-/

namespace MarketData.TensorRT

open ByteText Cpp Ledger StateProgram

/-- The entry puts work on a stream. -/
def submission : Entry ℕ Resource Operation → Bool
  | .create _ _ => false
  | .use op _ => op.submits
  | .destroy _ => false

/-- How often work was put on a stream. -/
def submissions (log : List (Entry ℕ Resource Operation)) : ℕ := log.countP submission

variable (libraries : Libraries)

/-- The call returns false and puts no work on a stream. -/
def Refuses (s : Machine) (call : Call) : Prop :=
  ((perform libraries call).run s).1 = false ∧
    submissions ((perform libraries call).run s).2.log = submissions s.log

variable {past : List (Entry ℕ Resource Operation)} {k : ℕ} {s : Machine}

private theorem no_stream_iff (h : Resting past k s) : s.handle .stream = none ↔ k ≤ 3 := by
  obtain ⟨p, -, -, -, hp, hs⟩ := h
  rw [hs.members, ← Option.not_isSome_iff_eq_none, hp.rank .stream (by decide)]
  exact Nat.not_lt

/-! ### Without a stream -/

private theorem inferInto_refuses (h : s.handle .stream = none)
    (input output : Option (List Single)) (inputElements outputCapacity : UInt64) :
    Refuses libraries s (.inferInto input output inputElements outputCapacity) := by
  have hchecks : ∀ t : Machine, t.handle .stream = none →
      t.passesChecks input output inputElements outputCapacity = false := by
    intro t ht
    simp [Members.passesChecks, ht]
  have hend : Ensures (fun t ↦ t.handle .stream = none ∧ t.log = s.log)
      (inferInto libraries input output inputElements outputCapacity)
      fun r t ↦ r.ok = false ∧ t.log = s.log := by
    have hreset : Keeps (fun t ↦ t.handle .stream = none ∧ t.log = s.log)
        (modify fun t ↦ { t with lastDeviceLatencyUs := none } : Program Unit) := fun _ ht ↦ ht
    refine Ensures.bind hreset fun _ ↦ Ensures.get fun t ↦ ?_
    refine Ensures.ite (fun _ ↦ ?_) fun hpass ↦ ?_
    · rintro _ ⟨rfl, ht⟩
      exact ⟨rfl, ht.2⟩
    · rintro _ ⟨rfl, ht⟩
      rw [hchecks _ ht.1] at hpass
      exact absurd rfl hpass
  obtain ⟨hok, hlog⟩ := hend s ⟨h, rfl⟩
  exact ⟨hok, congrArg submissions hlog⟩

private theorem enableCudaGraph_refuses (h : s.handle .stream = none)
    (hgraph : s.handle .graphExecution = none) : Refuses libraries s .enableCudaGraph := by
  have hrun : (enableCudaGraph libraries).run s = (false, s) := by
    simp [enableCudaGraph, h, hgraph]
    rfl
  rw [Refuses, perform, hrun]
  exact ⟨rfl, rfl⟩

/-- An engine without a stream refuses. -/
theorem refuses_of_no_stream (h : Resting past k s) (hstream : s.handle .stream = none)
    {call : Call} (hcall : call.isLoad = false) : Refuses libraries s call := by
  cases call with
  | load modelPath => cases hcall
  | inferInto input output inputElements outputCapacity =>
    exact inferInto_refuses libraries hstream input output inputElements outputCapacity
  | enableCudaGraph =>
    refine enableCudaGraph_refuses libraries hstream ?_
    have hk : k ≤ 3 := (no_stream_iff h).mp hstream
    obtain ⟨p, -, -, -, hp, hs⟩ := h
    rw [hs.members, ← Option.not_isSome_iff_eq_none]
    exact fun hsome ↦ absurd (hp.graph hsome) (by omega)

/-! ### With a stream -/

/-- An engine with a stream and no graph puts work on the stream to capture one. -/
theorem enableCudaGraph_submits (h : Resting past k s) (hstream : (s.handle .stream).isSome)
    (hgraph : s.handle .graphExecution = none) :
    submissions s.log < submissions ((enableCudaGraph libraries).run s).2.log := by
  obtain ⟨p, -, -, hcaptured, hp, hs⟩ := h
  rw [hs.members] at hstream hgraph
  have hcontext : (p.members.handle .context).isSome :=
    hp.isSome ((by decide : Slot.rank .context < Slot.rank .stream).trans
      ((hp.rank .stream (by decide)).mp hstream))
  let submit : Entry ℕ Resource Operation :=
    .use .enqueueV3 [s.handle .context, s.handle .stream]
  -- The log behind the first call, which is a prefix of the log behind all others.
  let q : Point := { p with past := s.log ++ [submit] }
  have hprime : Ensures (fun t ↦ t = s) (enqueue libraries) fun _ ↦ At q := by
    rintro t rfl
    have hend := @prime_spec libraries p hcaptured hcontext hstream t hs
    exact { hend with past := List.prefix_rfl }
  have hlog : ∀ t, At q t → s.log ++ [submit] <+: t.log := fun t ht ↦ ht.past
  have hend : Ensures (fun t ↦ t = s) (enableCudaGraph libraries)
      fun _ t ↦ s.log ++ [submit] <+: t.log := by
    refine Ensures.get fun t ↦ ?_
    refine Ensures.ite (fun hsome ↦ ?_) fun _ ↦ Ensures.ite (fun hmissing ↦ ?_) fun _ ↦ ?_
    · rintro _ ⟨rfl, rfl⟩
      rw [hs.members, hgraph] at hsome
      cases hsome
    · rintro _ ⟨rfl, rfl⟩
      rw [hs.members] at hmissing
      simp [Option.isNone_eq_false_iff.mpr, hcontext, hstream] at hmissing
    · refine Ensures.of_pre ?_
      rintro _ ⟨rfl, rfl⟩
      rw [hs.members]
      refine Ensures.bind hprime fun ok ↦ ?_
      cases ok with
      | false => exact hlog
      | true =>
        refine Keeps.orReturn (invoke_spec (List.forall_mem_singleton.mpr
          (Point.names_handle (p := q) hstream))) hlog ?_
        refine (captureGraph_spec (p := q) hp hcaptured hgraph hcontext hstream).weaken ?_
        rintro _ t ⟨m, -, ht⟩
        exact ht.past
  have hcount : (s.log ++ [submit]).countP submission ≤ _ := (hend s rfl).sublist.countP_le
  refine lt_of_lt_of_le ?_ hcount
  rw [List.countP_append]
  exact Nat.lt_succ_self _

/-! ### Failed loads -/

private theorem stream_iff (earlier : List Call) (modelPath : Bytes) :
    streamsCreated (reached libraries (earlier ++ [.load modelPath])).log =
        streamsCreated (reached libraries earlier).log ↔
      (reached libraries (earlier ++ [.load modelPath])).handle .stream = none := by
  obtain ⟨k, p, -, hlocals, -, -, hs⟩ := reached_resting libraries earlier
  obtain ⟨m, -, hend⟩ := load_spec libraries modelPath _ hs
  rw [reached_load, hend.streams, hs.streams, hend.members]
  simp only [hlocals, List.map_nil, List.sum_nil, add_zero, Nat.add_eq_left, Members.streams,
    List.length_eq_zero_iff, Option.toList_eq_nil_iff]

/-- Behind a load, and so behind one that fails, every call until the next load refuses, whatever it
is given and whatever the libraries answer, exactly when the load created no stream. -/
theorem refuses_iff_no_stream (earlier : List Call) (modelPath : Bytes) :
    (∀ later call, (∀ c ∈ later, c.isLoad = false) → call.isLoad = false →
        Refuses libraries (reached libraries (earlier ++ .load modelPath :: later)) call) ↔
      streamsCreated (reached libraries (earlier ++ [.load modelPath])).log =
        streamsCreated (reached libraries earlier).log := by
  obtain ⟨k₀, hk₀⟩ := reached_resting libraries earlier
  obtain ⟨k, hload, hnone⟩ := load_resting libraries hk₀ modelPath
  rw [← reached_load] at hload hnone
  rw [stream_iff]
  constructor
  · intro h
    by_contra hstream
    have hrefuses := h [] .enableCudaGraph (fun _ hc ↦ by cases hc) rfl
    exact (enableCudaGraph_submits libraries hload (Option.isSome_iff_ne_none.mpr hstream) hnone).ne
      hrefuses.2.symm
  · intro hstream later call hlater hcall
    have hlast := foldl_resting libraries hload hlater
    rw [← reached_append, List.append_assoc, List.singleton_append] at hlast
    exact refuses_of_no_stream libraries hlast
      ((no_stream_iff hlast).mpr ((no_stream_iff hload).mp hstream)) hcall

/-! ### A load that fails late -/

/-- Libraries that read a plan of one input and one output with one element each, and fail in a
single call. -/
def failingAt (n : ℕ) : Libraries where
  succeeds := fun i ↦ i != n
  modelFile := fun _ ↦ some [0]
  errorCount := fun _ ↦ 0
  tensorCount := fun _ ↦ 2
  tensorName := fun i ↦ some (if i = 4 then ascii "input" else ascii "output")
  tensorMode := fun i ↦ if i = 5 then .input else .output
  tensorIsFloat := fun _ ↦ true
  tensorShape := fun _ ↦ [1]
  givesGraph := fun _ ↦ true
  elapsedMs := fun _ ↦ .zero
  outputElement := fun _ _ ↦ .zero
  runtimeVersion := fun _ ↦ none
  driverVersion := fun _ ↦ none
  deviceProperties := fun _ ↦ ⟨[], 0, 0, 0⟩
  version := (10, 0, 0)

/-- The only load of an engine, behind which the stream is there but an event is not. -/
def failedLoad : List Call := [.load (ascii "model.engine")]

/-- The load fails at its first event, and the capture of a graph succeeds nevertheless. A load that
fails at the last address leaves an engine that answers. -/
theorem failed_load_answers :
    ((load (failingAt 14) (ascii "model.engine")).run {}).1 = false ∧
      ((perform (failingAt 14) .enableCudaGraph).run (reached (failingAt 14) failedLoad)).1 = true ∧
    ((load (failingAt 21) (ascii "model.engine")).run {}).1 = false ∧
      ((perform (failingAt 21) (.inferInto (some [0]) (some [0]) 1 1)).run
        (reached (failingAt 21) failedLoad)).1 = true := by
  decide +kernel

end MarketData.TensorRT
