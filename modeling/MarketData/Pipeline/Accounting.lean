import MarketData.Exporter.Defined
import MarketData.Pipeline.Verdicts

/-!
# Accounting of the exporter

The counters of the exporter over whole runs of connections, and what the body of a scrape says
about them. A load can fail at every file access; the success time is set before the last one.
-/

namespace MarketData.Pipeline

open ByteText Cpp Exporter Prometheus

/-! ### One scrape -/

/-- The file accesses of a scrape: the snapshot and the modification time. -/
def load (surroundings : Surroundings) : Checked (Snapshot × Double) := do
  let snapshot ← surroundings.contents >>= parseSnapshot
  let timestamp ← surroundings.modified
  .ok (snapshot, timestamp)

/-- The load of a scrape fails. -/
def loadFails (surroundings : Surroundings) : Bool :=
  match load surroundings with
  | .error (.exception _) => true
  | _ => false

/-- The load fails at its last access, the modification time, behind a snapshot that was read. -/
def FailsLate (surroundings : Surroundings) : Prop :=
  (∃ s, surroundings.contents >>= parseSnapshot = .ok s) ∧
    ∃ what, surroundings.modified = .error (.exception what)

/-- What a scrape does: a load that succeeds or one that fails, early or late. -/
theorem loadForScrape_cases {surroundings : Surroundings} {before after : ExporterState}
    {body : Bytes} (h : loadForScrape surroundings before = .ok (body, after)) :
    (∃ s t, load surroundings = .ok (s, t) ∧
      after = ⟨before.scrapes + 1, before.failures, surroundings.now⟩ ∧
      body = renderExporterState after true ++ renderSnapshot s t) ∨
    (loadFails surroundings = true ∧ FailsLate surroundings ∧
      after = ⟨before.scrapes + 1, before.failures + 1, surroundings.now⟩ ∧
      body = renderExporterState after false) ∨
    (loadFails surroundings = true ∧ ¬ FailsLate surroundings ∧
      after = ⟨before.scrapes + 1, before.failures + 1, before.lastSuccessTimestamp⟩ ∧
      body = renderExporterState after false) := by
  simp only [loadForScrape] at h
  cases hread : surroundings.contents >>= parseSnapshot with
  | error e =>
    rw [hread] at h
    cases e with
    | undefined => cases h
    | exception what =>
      obtain ⟨rfl, rfl⟩ := Prod.mk.inj (Except.ok.inj h)
      refine .inr (.inr ⟨by rw [loadFails, load, hread]; rfl, ?_, rfl, rfl⟩)
      rintro ⟨⟨s, hs⟩, -⟩
      rw [hread] at hs
      cases hs
  | ok s =>
    rw [hread] at h
    cases hmodified : surroundings.modified with
    | error e =>
      rw [hmodified] at h
      cases e with
      | undefined => cases h
      | exception what =>
        obtain ⟨rfl, rfl⟩ := Prod.mk.inj (Except.ok.inj h)
        exact .inr (.inl ⟨by rw [loadFails, load, hread, hmodified]; rfl,
          ⟨⟨s, hread⟩, what, hmodified⟩, rfl, rfl⟩)
    | ok t =>
      rw [hmodified] at h
      obtain ⟨rfl, rfl⟩ := Prod.mk.inj (Except.ok.inj h)
      exact .inl ⟨s, t, by rw [load, hread, hmodified]; rfl, rfl, rfl⟩

/-! ### The body of a scrape -/

/-- The body reports the state of the exporter and the outcome of the load. -/
structure Reports (body : Bytes) (state : ExporterState) (success : Bool) : Prop where
  scrapes : scraped body "marketdata_exporter_scrapes_total" = some (printUnsigned state.scrapes)
  failures : scraped body "marketdata_exporter_load_failures_total" =
    some (printUnsigned state.failures)
  lastLoad : scraped body "marketdata_exporter_last_load_success" = some (printFlag success)
  lastSuccess : scraped body "marketdata_exporter_last_success_timestamp_seconds" =
    some (printGeneral state.lastSuccessTimestamp)

private theorem reports_of_read {body : Bytes} {state : ExporterState} {success : Bool}
    (ls : List Line) (h : read body = some (samples (stateLines state success ++ ls))) :
    Reports body state success := by
  rw [samples_append, samples_stateLines] at h
  constructor <;> simp [scraped, h, valueOf_cons]

/-- The exporter reports its own state. -/
theorem reports_state (state : ExporterState) (success : Bool) :
    Reports (renderExporterState state success) state success :=
  reports_of_read [] (by rw [List.append_nil, read_renderExporterState])

/-- It does so in front of a snapshot too. -/
theorem reports_append (state : ExporterState) (success : Bool) (s : Snapshot) (t : Double) :
    Reports (renderExporterState state success ++ renderSnapshot s t) state success :=
  reports_of_read _ (read_renderExporterState_append state success s t)

-- Two bytes that do not stand next to each other in the exporter's own metrics.
private def Apart (a b : UInt8) : Prop := ¬ (a = 95 ∧ b = 105)

private instance : DecidableRel Apart :=
  fun a b ↦ inferInstanceAs (Decidable (¬ (a = 95 ∧ b = 105)))

-- A piece of text without an underscore before the letter `i`, inside or at its end.
private def Clean (piece : Bytes) : Prop := piece.IsChain Apart ∧ 95 ∉ piece.getLast?

private instance (piece : Bytes) : Decidable (Clean piece) :=
  inferInstanceAs (Decidable (_ ∧ _))

private theorem clean_append {a b : Bytes} (ha : Clean a) (hb : Clean b) : Clean (a ++ b) := by
  refine ⟨List.isChain_append.mpr ⟨ha.1, hb.1, ?_⟩, ?_⟩
  · rintro x hx y - ⟨rfl, -⟩
    exact ha.2 hx
  · rw [List.getLast?_append]
    cases hlast : b.getLast? with
    | none => exact ha.2
    | some x => simpa only [hlast, Option.some_or] using hb.2

private theorem clean_stream {pieces : List Bytes} (h : ∀ piece ∈ pieces, Clean piece) :
    Clean (stream pieces) := by
  induction pieces with
  | nil => decide
  | cons piece pieces ih =>
    obtain ⟨hpiece, hrest⟩ := List.forall_mem_cons.mp h
    exact clean_append hpiece (ih hrest)

private theorem clean_of_not_mem {piece : Bytes} (h : 95 ∉ piece) : Clean piece := by
  refine ⟨List.Pairwise.isChain (List.pairwise_of_forall_mem_list ?_),
    fun hm ↦ h (List.mem_of_getLast? hm)⟩
  rintro a ha b - ⟨rfl, -⟩
  exact h ha

private theorem clean_state (state : ExporterState) (success : Bool) :
    Clean (renderExporterState state success) := by
  have hunsigned : ∀ n, Clean (printUnsigned n) := fun n ↦
    clean_of_not_mem fun h ↦ absurd (isDigit_of_mem_decimal h) (by decide)
  have hgeneral : ∀ x, Clean (printGeneral x) := by
    refine fun x ↦ clean_of_not_mem fun h ↦ ?_
    rcases Ieee.mem_formatGeneral h with h | h <;> exact absurd h (by decide)
  have hflag : Clean (printFlag success) := by cases success <;> decide
  apply clean_stream
  simp only [List.forall_mem_cons, List.not_mem_nil, false_implies, implies_true, and_true,
    hunsigned, hgeneral, hflag, true_and]
  decide +kernel

/-- The exporter's own metrics mention no metric of a snapshot. -/
theorem inference_not_mentioned (state : ExporterState) (success : Bool) :
    ¬ ascii "marketdata_inference_" <:+: renderExporterState state success := by
  rintro ⟨before, after, htext⟩
  have hchain := (clean_state state success).1
  rw [← htext] at hchain
  exact absurd hchain.left_of_append.right_of_append (by decide)

/-! ### Runs of connections -/

/-- A request that is routed to the metrics: the method `GET` and the path `/metrics`. -/
def IsScrape (c : Connection) : Prop :=
  parseRequest c.request = some ⟨ascii "GET", ascii "/metrics"⟩

/-- The parsed request tells whether a connection is a scrape. -/
instance : DecidablePred IsScrape := fun _ ↦ inferInstanceAs (Decidable (_ = _))

/-- The scrapes of some connections. -/
def scrapesOf (connections : List Connection) : Nat :=
  connections.countP fun c ↦ decide (IsScrape c)

/-- The scrapes of some connections whose load fails. -/
def failuresOf (connections : List Connection) : Nat :=
  connections.countP fun c ↦ decide (IsScrape c) && loadFails c.surroundings

/-- What one connection does: at most one response, a state that only a scrape changes, and a body
that tells the state and the outcome. -/
structure Answered (c : Connection) (before : ExporterState) (response : Option Response)
    (after : ExporterState) : Prop where
  once : response.isSome = true ↔ c.request ≠ []
  other : ¬ IsScrape c → after = before
  scrape : IsScrape c → ∃ r, response = some r ∧ after.scrapes = before.scrapes + 1 ∧
    ((loadFails c.surroundings = false ∧ after.failures = before.failures ∧
        Reports r.body after true ∧ ∃ s t, load c.surroundings = .ok (s, t) ∧
          r.body = renderExporterState after true ++ renderSnapshot s t) ∨
      (loadFails c.surroundings = true ∧ after.failures = before.failures + 1 ∧
        Reports r.body after false ∧ ¬ ascii "marketdata_inference_" <:+: r.body))

private theorem answered_scrape {surroundings : Surroundings} {before after : ExporterState}
    {body : Bytes} (h : loadForScrape surroundings before = .ok (body, after)) :
    after.scrapes = before.scrapes + 1 ∧
    ((loadFails surroundings = false ∧ after.failures = before.failures ∧
        Reports body after true ∧ ∃ s t, load surroundings = .ok (s, t) ∧
          body = renderExporterState after true ++ renderSnapshot s t) ∨
      (loadFails surroundings = true ∧ after.failures = before.failures + 1 ∧
        Reports body after false ∧ ¬ ascii "marketdata_inference_" <:+: body)) := by
  rcases loadForScrape_cases h with
    ⟨s, t, hload, rfl, rfl⟩ | ⟨hfails, -, rfl, rfl⟩ | ⟨hfails, -, rfl, rfl⟩
  · exact ⟨rfl, .inl ⟨by rw [loadFails, hload], rfl, reports_append .., s, t, hload, rfl⟩⟩
  · exact ⟨rfl, .inr ⟨hfails, rfl, reports_state .., inference_not_mentioned _ _⟩⟩
  · exact ⟨rfl, .inr ⟨hfails, rfl, reports_state .., inference_not_mentioned _ _⟩⟩

private theorem answer_metrics {surroundings : Surroundings} {before after : ExporterState}
    {r : Response} (h : answer (ascii "/metrics") surroundings before = .ok (r, after)) :
    loadForScrape surroundings before = .ok (r.body, after) := by
  rw [answer, if_neg (by decide), if_neg (by decide), if_pos rfl] at h
  obtain ⟨⟨body, state⟩, hload, h⟩ := bind_eq_ok.mp h
  obtain ⟨rfl, rfl⟩ := Prod.mk.inj (Except.ok.inj h)
  exact hload

private theorem answer_other {path : Bytes} {surroundings : Surroundings}
    {before after : ExporterState} {r : Response} (hpath : path ≠ ascii "/metrics")
    (h : answer path surroundings before = .ok (r, after)) : after = before := by
  unfold answer at h
  split at h
  · exact (Prod.mk.inj (Except.ok.inj h)).2.symm
  · split at h
    · obtain ⟨error, -, h⟩ := bind_eq_ok.mp h
      cases error <;> exact (Prod.mk.inj (Except.ok.inj h)).2.symm
    · exact (Prod.mk.inj (Except.ok.inj h)).2.symm

/-- Every connection is answered. -/
theorem handleConnection_answered {c : Connection} {before after : ExporterState}
    {response : Option Response} (h : handleConnection c before = .ok (response, after)) :
    Answered c before response after := by
  unfold handleConnection at h
  split at h
  · next hempty =>
    obtain ⟨rfl, rfl⟩ := Prod.mk.inj (Except.ok.inj h)
    refine ⟨by simp [hempty], fun _ ↦ rfl, fun hs ↦ ?_⟩
    rw [IsScrape, hempty] at hs
    cases hs
  · next hrequest =>
    cases hparse : parseRequest c.request with
    | none =>
      rw [hparse] at h
      obtain ⟨rfl, rfl⟩ := Prod.mk.inj (Except.ok.inj h)
      refine ⟨by simp [hrequest], fun _ ↦ rfl, fun hs ↦ ?_⟩
      rw [IsScrape, hparse] at hs
      cases hs
    | some request =>
      rw [hparse] at h
      simp only at h
      split at h
      · next hmethod =>
        obtain ⟨rfl, rfl⟩ := Prod.mk.inj (Except.ok.inj h)
        refine ⟨by simp [hrequest], fun _ ↦ rfl, fun hs ↦ ?_⟩
        rw [IsScrape, hparse] at hs
        exact absurd (congrArg Request.method (Option.some.inj hs)) hmethod
      · next hmethod =>
        rw [not_not] at hmethod
        obtain ⟨⟨r, state⟩, hanswer, h⟩ := bind_eq_ok.mp h
        obtain ⟨rfl, rfl⟩ := Prod.mk.inj (Except.ok.inj h)
        refine ⟨by simp [hrequest], fun hs ↦ answer_other ?_ hanswer, fun hs ↦ ⟨r, rfl, ?_⟩⟩
        · intro hpath
          apply hs
          rw [IsScrape, hparse, ← hmethod, ← hpath]
        · rw [IsScrape, hparse] at hs
          rw [congrArg Request.path (Option.some.inj hs)] at hanswer
          exact answered_scrape (answer_metrics hanswer)

private theorem serve_concat {connections : List Connection} {c : Connection}
    {state : ExporterState} (h : serve (connections ++ [c]) = .ok state) :
    ∃ before response, serve connections = .ok before ∧
      handleConnection c before = .ok (response, state) := by
  rw [serve, List.foldlM_append] at h
  obtain ⟨before, hbefore, h⟩ := bind_eq_ok.mp h
  rw [List.foldlM_cons] at h
  obtain ⟨after, hafter, h⟩ := bind_eq_ok.mp h
  obtain rfl := Except.ok.inj h
  obtain ⟨⟨response, _⟩, hhandle, rfl⟩ := map_eq_ok.mp hafter
  exact ⟨before, response, hbefore, hhandle⟩

private theorem failuresOf_le (connections : List Connection) :
    failuresOf connections ≤ scrapesOf connections := by
  refine List.countP_mono_left fun c _ h ↦ ?_
  exact (Bool.and_eq_true_iff.mp h).1

private theorem scrapesOf_concat (connections : List Connection) (c : Connection) :
    scrapesOf (connections ++ [c]) = scrapesOf connections + if IsScrape c then 1 else 0 := by
  simp [scrapesOf, List.countP_append, List.countP_singleton]

private theorem failuresOf_concat (connections : List Connection) (c : Connection) :
    failuresOf (connections ++ [c]) =
      failuresOf connections + if IsScrape c ∧ loadFails c.surroundings = true then 1 else 0 := by
  simp [failuresOf, List.countP_append, List.countP_singleton]

private theorem toNat_succ {n : UInt64} {k : ℕ} (h : n.toNat = k) (hk : k + 1 < 2 ^ 64) :
    (n + 1).toNat = k + 1 := by
  rw [UInt64.toNat_add, h]
  exact Nat.mod_eq_of_lt hk

private theorem counters {connections : List Connection} {state : ExporterState}
    (h : serve connections = .ok state) (hcount : scrapesOf connections < 2 ^ 64) :
    state.scrapes.toNat = scrapesOf connections ∧
      state.failures.toNat = failuresOf connections := by
  induction connections using List.reverseRecOn generalizing state with
  | nil =>
    obtain rfl := Except.ok.inj h
    exact ⟨rfl, rfl⟩
  | append_singleton connections c ih =>
    obtain ⟨before, response, hbefore, hhandle⟩ := serve_concat h
    have hanswered := handleConnection_answered hhandle
    have hle := failuresOf_le connections
    rw [scrapesOf_concat] at hcount ⊢
    rw [failuresOf_concat]
    obtain ⟨hscrapes, hfailures⟩ := ih hbefore (by omega)
    by_cases hc : IsScrape c
    · rw [if_pos hc] at hcount ⊢
      obtain ⟨r, -, hs, hcases⟩ := hanswered.scrape hc
      rw [hs]
      refine ⟨toNat_succ hscrapes hcount, ?_⟩
      rcases hcases with ⟨hok, hf, -⟩ | ⟨hfails, hf, -⟩
      · rw [hf, if_neg (by simp [hok])]
        exact hfailures
      · rw [hf, if_pos ⟨hc, hfails⟩]
        exact toNat_succ hfailures (by omega)
    · rw [hanswered.other hc, if_neg hc, if_neg (fun h ↦ hc h.1)]
      exact ⟨hscrapes, hfailures⟩

/-- Behind every run of connections with fewer than `2 ^ 64` scrapes the counters are the numbers
of scrapes and of failed loads, and the next connection is answered as it should. -/
theorem exporter_accounting {connections : List Connection} {state : ExporterState}
    (h : serve connections = .ok state) (hcount : scrapesOf connections < 2 ^ 64) :
    state.scrapes.toNat = scrapesOf connections ∧
      state.failures.toNat = failuresOf connections ∧
      state.failures ≤ state.scrapes ∧
      ∀ c response after, handleConnection c state = .ok (response, after) →
        Answered c state response after := by
  obtain ⟨hscrapes, hfailures⟩ := counters h hcount
  refine ⟨hscrapes, hfailures, ?_, fun c response after ↦ handleConnection_answered⟩
  rw [UInt64.le_iff_toNat_le, hscrapes, hfailures]
  exact failuresOf_le connections

/-- Every run of connections is served, whether the metrics file can be read and dated or not,
unless it overflows an unsigned field at one of them. -/
theorem serve_ok {connections : List Connection}
    (hread : ∀ c ∈ connections, Defined c.surroundings.contents ∧ Defined c.surroundings.modified) :
    (∃ state, serve connections = .ok state) ∨ ∃ c ∈ connections, c.surroundings.Overflow := by
  induction connections using List.reverseRecOn with
  | nil => exact .inl ⟨_, rfl⟩
  | append_singleton connections c ih =>
    rcases ih fun c' hc' ↦ hread c' (List.mem_append_left _ hc') with ⟨state, hs⟩ | ⟨c', hc', h⟩
    · obtain ⟨hcontents, hmodified⟩ := hread c (by simp)
      rcases handleConnection_ok hcontents hmodified with ⟨handled, hhandled⟩ | hoverflow
      · refine .inl ⟨handled.2, ?_⟩
        rw [serve, List.foldlM_append, ← serve, hs, ok_bind, List.foldlM_cons, hhandled]
        rfl
      · exact .inr ⟨c, by simp, hoverflow⟩
    · exact .inr ⟨c', List.mem_append_left _ hc', h⟩

/-- What a scrape meets of a metrics file that is not there. -/
def missingFile : Surroundings where
  contents := .error (.exception (ascii "cannot open metrics file: metrics.json"))
  now := .zero
  modified := .error (.exception (ascii "filesystem error: cannot get file time"))

/-- A scrape with a query, a health check and a connection without bytes. -/
def threeConnections : List Connection := [
  ⟨ascii "GET /metrics?job=edge HTTP/1.1\r\n\r\n", missingFile⟩,
  ⟨ascii "GET /healthz HTTP/1.1\r\n\r\n", missingFile⟩,
  ⟨[], missingFile⟩]

/-- The three connections are one scrape and one failure. -/
theorem exporter_accounting_three :
    scrapesOf threeConnections = 1 ∧ failuresOf threeConnections = 1 := by
  have h : serve threeConnections = .ok ⟨1, 1, .zero⟩ := rfl
  obtain ⟨hscrapes, hfailures, -⟩ := exporter_accounting h (by decide)
  exact ⟨hscrapes.symm, hfailures.symm⟩

/-! ### The success record -/

/-- A failed load leaves the time of the last success and reports it, and a time that changed comes
with a reported success. -/
structure KeepsSuccessRecord (surroundings : Surroundings) (before : ExporterState) (body : Bytes)
    (after : ExporterState) : Prop where
  failed : loadFails surroundings = true →
    after.lastSuccessTimestamp = before.lastSuccessTimestamp ∧
      scraped body "marketdata_exporter_last_success_timestamp_seconds" =
        some (printGeneral before.lastSuccessTimestamp)
  changed : after.lastSuccessTimestamp ≠ before.lastSuccessTimestamp →
    scraped body "marketdata_exporter_last_load_success" = some (ascii "1")

/-- A scrape keeps the success record unless the modification time of a snapshot that was read
cannot be told, and the clock does not show the recorded time. -/
theorem success_record_iff {surroundings : Surroundings} {before after : ExporterState}
    {body : Bytes} (h : loadForScrape surroundings before = .ok (body, after)) :
    KeepsSuccessRecord surroundings before body after ↔
      ¬ (FailsLate surroundings ∧ surroundings.now ≠ before.lastSuccessTimestamp) := by
  rcases loadForScrape_cases h with
    ⟨s, t, hload, rfl, rfl⟩ | ⟨hfails, hlate, rfl, rfl⟩ | ⟨hfails, hlate, rfl, rfl⟩
  · have hok : loadFails surroundings = false := by rw [loadFails, hload]
    refine iff_of_true ⟨fun hf ↦ ?_, fun _ ↦ (reports_append ..).lastLoad⟩ ?_
    · rw [hok] at hf
      cases hf
    · rintro ⟨⟨-, what, hmodified⟩, -⟩
      obtain ⟨_, -, hload⟩ := bind_eq_ok.mp hload
      rw [hmodified] at hload
      cases hload
  · constructor
    · rintro hkeeps ⟨-, hne⟩
      exact hne (hkeeps.failed hfails).1
    · intro hnot
      have heq : surroundings.now = before.lastSuccessTimestamp := by
        by_contra hne
        exact hnot ⟨hlate, hne⟩
      refine ⟨fun _ ↦ ⟨heq, ?_⟩, fun hne ↦ absurd heq hne⟩
      rw [← heq]
      exact (reports_state ..).lastSuccess
  · refine iff_of_true ⟨fun _ ↦ ⟨rfl, (reports_state ..).lastSuccess⟩, fun hne ↦ absurd rfl hne⟩ ?_
    exact fun hnot ↦ hlate hnot.1

/-- A scrape without a file keeps the success record. -/
theorem success_record_missing :
    KeepsSuccessRecord missingFile {} (renderExporterState ⟨1, 1, .zero⟩ false)
      ⟨1, 1, .zero⟩ := by
  refine (success_record_iff rfl).mpr ?_
  rintro ⟨⟨⟨s, hs⟩, -⟩, -⟩
  cases hs

/-- What a scrape meets of a file that is removed once it was read. -/
def removedFile : Surroundings where
  contents := .ok (formatMetricsJson {} {} sampleStats)
  now := doubleOf 5
  modified := .error (.exception (ascii "filesystem error: cannot get file time"))

/-- A load that fails late moves the time of the last success. -/
theorem loadForScrape_late {surroundings : Surroundings} (h : FailsLate surroundings)
    (before : ExporterState) :
    loadForScrape surroundings before =
      let after : ExporterState :=
        ⟨before.scrapes + 1, before.failures + 1, surroundings.now⟩
      .ok (renderExporterState after false, after) := by
  obtain ⟨⟨s, hs⟩, what, hmodified⟩ := h
  simp only [loadForScrape, hs, hmodified]

/-- The scrape fails and records a success. -/
theorem success_record_removed :
    loadForScrape removedFile {} =
        .ok (renderExporterState ⟨1, 1, removedFile.now⟩ false, ⟨1, 1, removedFile.now⟩) ∧
      loadFails removedFile = true ∧
      ¬ KeepsSuccessRecord removedFile {} (renderExporterState ⟨1, 1, removedFile.now⟩ false)
        ⟨1, 1, removedFile.now⟩ := by
  have hread : removedFile.contents >>= parseSnapshot = .ok sampleSnapshot := by
    rw [removedFile, ok_bind]
    exact parseSnapshot_sample
  have hfails : loadFails removedFile = true := by
    rw [loadFails, load, hread]
    rfl
  refine ⟨loadForScrape_late ⟨⟨_, hread⟩, _, rfl⟩ {}, hfails, fun hkeeps ↦ ?_⟩
  exact absurd (hkeeps.failed hfails).1 (by decide +kernel)

end MarketData.Pipeline
