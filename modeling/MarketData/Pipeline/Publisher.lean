import MarketData.Base.Trace
import MarketData.Pipeline.Verdicts

/-!
# The monitored benchmark loop

`scripts/run_monitored_benchmark.sh` and the scrapes that happen between its iterations. A
call of the benchmark that returns zero has its document moved over the metrics file; any
other call has it removed. The metrics file is therefore always the document of the latest
call that returned zero, and no scrape shows a verdict of a call that failed.
-/

namespace MarketData.Pipeline

open ByteText Cpp Exporter Ingress Prometheus Trace

/-! ### The loop -/

/-- A call of the ingress binary, as the loop sees it: a benchmark that wrote its document, or a
call that ended before that. The latter leaves a file behind only when it failed. -/
inductive Run where
  | measured (build : Build) (options : RunOptions) (stats : InferenceStats)
  | ended (status : Nat) (left : Option Bytes) (h : status = 0 → left = none)

/-- The exit status of a call. -/
def Run.status : Run → Nat
  | .measured _ options stats => exitCode options stats .written
  | .ended status _ _ => status

/-- What a call leaves under the name of the temporary file. -/
def Run.left : Run → Option Bytes
  | .measured build options stats => some (formatMetricsJson build options stats)
  | .ended _ left _ => left

/-- The loop and the exporter with the files they share. -/
structure System where
  metricsPath : Bytes
  metricsFile : Option Bytes
  temporaryFile : Option Bytes := none
  looping : Bool := true
  exporter : ExporterState := {}

/-- One iteration of the loop, `scripts/run_monitored_benchmark.sh:23–29`. `mv` fails without a
file to move, which ends the script. -/
def iteration (system : System) (run : Run) : System :=
  let temporaryFile := run.left.or system.temporaryFile
  if run.status = 0 then
    match temporaryFile with
    | some document => { system with metricsFile := some document, temporaryFile := none }
    | none => { system with looping := false }
  else { system with temporaryFile := none }

/-- `read_file` of the metrics file, if there is one. -/
def readFile (path : Bytes) (file : Option Bytes) : Checked Bytes :=
  match file with
  | some contents => .ok contents
  | none => .error (.exception (ascii "cannot open metrics file: " ++ path))

/-- A scrape of the exporter, at a time of the clock and of the file system. -/
def scrape (system : System) (now : Double) (modified : Checked Double) :
    Checked (Bytes × ExporterState) :=
  loadForScrape ⟨readFile system.metricsPath system.metricsFile, now, modified⟩ system.exporter

/-- What happens to the system. -/
inductive Event where
  | iteration (run : Run)
  | scrape (now : Double) (modified : Checked Double)

/-- One event: an iteration while the script runs, or a scrape that is answered. -/
def step (system : System) : Event → Option System
  | .iteration run => if system.looping then some (iteration system run) else none
  | .scrape now modified =>
    match scrape system now modified with
    | .ok (_, exporter) => some { system with exporter }
    | .error _ => none

/-! ### The published document -/

/-- The document of an iteration that is published. -/
def Event.document : Event → Option Bytes
  | .iteration (.measured build options stats) =>
    if exitCode options stats .written = 0 then some (formatMetricsJson build options stats)
    else none
  | _ => none

/-- The document of the latest call that returned zero. -/
def published (events : List Event) : Option Bytes :=
  events.foldl (fun before event ↦ event.document.or before) none

private theorem published_concat (events : List Event) (e : Event) :
    published (events ++ [e]) = e.document.or (published events) := by
  rw [published, List.foldl_append]
  rfl

private theorem step_files {before after : System} {e : Event}
    (ht : before.temporaryFile = none) (h : step before e = some after) :
    after.metricsFile = e.document.or before.metricsFile ∧ after.temporaryFile = none := by
  cases e with
  | iteration run =>
    simp only [step, Option.ite_none_right_eq_some] at h
    obtain ⟨-, h⟩ := h
    obtain rfl := Option.some.inj h
    cases run with
    | measured build options stats =>
      by_cases hz : exitCode options stats .written = 0
      · simp [iteration, Run.status, Run.left, Event.document, hz]
      · simp [iteration, Run.status, Event.document, hz]
    | ended status left hl =>
      by_cases hz : status = 0
      · simp [iteration, Run.status, Run.left, Event.document, hz, hl hz, ht]
      · simp [iteration, Run.status, Event.document, hz]
  | scrape now modified =>
    simp only [step] at h
    split at h
    · obtain rfl := Option.some.inj h
      exact ⟨rfl, ht⟩
    · cases h

/-- After any run the metrics file is the document of the latest call that returned zero, or what
was there before. -/
theorem metricsFile_runAll {system after : System} {events : List Event}
    (ht : system.temporaryFile = none) (h : runAll step system events = some after) :
    after.metricsFile = (published events).or system.metricsFile ∧ after.temporaryFile = none := by
  refine runAll_invariant (p := fun events after ↦
    after.metricsFile = (published events).or system.metricsFile ∧ after.temporaryFile = none)
    ⟨rfl, ht⟩ ?_ h
  rintro past before e after ⟨hm, ht⟩ hs
  obtain ⟨hf, ht'⟩ := step_files ht hs
  rw [published_concat, Option.or_assoc, ← hm]
  exact ⟨hf, ht'⟩

private theorem published_passed {events : List Event} {document : Bytes}
    (h : published events = some document) :
    ∃ build options stats, document = formatMetricsJson build options stats ∧
      exitCode options stats .written = 0 := by
  induction events using List.reverseRecOn with
  | nil => cases h
  | append_singleton events e ih =>
    rw [published_concat] at h
    cases hd : e.document with
    | none =>
      rw [hd, Option.none_or] at h
      exact ih h
    | some d =>
      rw [hd, Option.some_or] at h
      obtain rfl := Option.some.inj h
      unfold Event.document at hd
      split at hd
      · next build options stats =>
        rw [Option.ite_none_right_eq_some] at hd
        exact ⟨build, options, stats, (Option.some.inj hd.2).symm, hd.1⟩
      · cases hd

/-! ### What a scrape shows -/

private theorem scraped_state {name : String} (state : ExporterState) (loadSuccess : Bool)
    (h : name ∈ verdictMetrics) : scraped (renderExporterState state loadSuccess) name = none := by
  have hv := valueOf_stateLines_append state loadSuccess [] h
  rw [List.append_nil] at hv
  rw [scraped, read_renderExporterState, Option.bind_some, hv]
  rfl

/-- The exposition raises one of the two alerts. -/
def Alerts (exposition : Bytes) : Prop := SloAlert exposition ∨ ValidationAlert exposition

private theorem alerts_append (state : ExporterState) (loadSuccess : Bool) (s : Snapshot)
    (t : Double) :
    Alerts (renderExporterState state loadSuccess ++ renderSnapshot s t) ↔
      Alerts (renderSnapshot s t) := by
  simp only [Alerts, SloAlert, ValidationAlert, scraped_append _ _ _ _
    (show "marketdata_inference_slo_configured" ∈ verdictMetrics by decide),
    scraped_append _ _ _ _ (show "marketdata_inference_slo_pass" ∈ verdictMetrics by decide),
    scraped_append _ _ _ _
      (show "marketdata_inference_validation_enabled" ∈ verdictMetrics by decide),
    scraped_append _ _ _ _
      (show "marketdata_inference_validation_pass" ∈ verdictMetrics by decide)]

private theorem not_alerts_state (state : ExporterState) (loadSuccess : Bool) :
    ¬ Alerts (renderExporterState state loadSuccess) := by
  rintro (⟨h, -⟩ | ⟨h, -⟩)
  · rw [scraped_state _ _ (by decide)] at h
    cases h
  · rw [scraped_state _ _ (by decide)] at h
    cases h

private theorem scrape_loaded {system : System} {document : Bytes} {s : Snapshot}
    (hf : system.metricsFile = some document) (hp : parseSnapshot document = .ok s)
    (now t : Double) :
    scrape system now (.ok t) =
      let exporter := { system.exporter with
        scrapes := system.exporter.scrapes + 1, lastSuccessTimestamp := now }
      .ok (renderExporterState exporter true ++ renderSnapshot s t, exporter) := by
  simp only [scrape, hf, readFile, loadForScrape, ok_bind, hp]

private theorem alerts_scrape {system : System} {now : Double} {modified : Checked Double}
    {text : Bytes} {exporter : ExporterState}
    (h : scrape system now modified = .ok (text, exporter)) (ha : Alerts text) :
    ∃ document s t, system.metricsFile = some document ∧ parseSnapshot document = .ok s ∧
      Alerts (renderSnapshot s t) := by
  cases hf : system.metricsFile with
  | none =>
    rw [scrape, hf] at h
    obtain ⟨rfl, -⟩ := Prod.mk.inj (Except.ok.inj h)
    exact absurd ha (not_alerts_state _ _)
  | some document =>
    simp only [scrape, hf, readFile, loadForScrape, ok_bind] at h
    cases hp : parseSnapshot document with
    | error e =>
      rw [hp] at h
      cases e with
      | undefined => cases h
      | exception what =>
        obtain ⟨rfl, -⟩ := Prod.mk.inj (Except.ok.inj h)
        exact absurd ha (not_alerts_state _ _)
    | ok s =>
      rw [hp] at h
      rcases modified with (what | _) | t
      · obtain ⟨rfl, -⟩ := Prod.mk.inj (Except.ok.inj h)
        exact absurd ha (not_alerts_state _ _)
      · cases h
      · obtain ⟨rfl, -⟩ := Prod.mk.inj (Except.ok.inj h)
        exact ⟨document, s, t, rfl, hp, (alerts_append _ _ s t).mp ha⟩

private theorem not_alerts_passed {build : Build} {options : RunOptions} {stats : InferenceStats}
    {s : Snapshot} (h : parseSnapshot (formatMetricsJson build options stats) = .ok s)
    (hz : exitCode options stats .written = 0) (t : Double) : ¬ Alerts (renderSnapshot s t) := by
  have ha := parseSnapshot_eq_ok.mp h
  obtain ⟨ht, hv⟩ := exitCode_eq_zero.mp hz
  rw [Alerts, sloAlert_iff ha, validationAlert_iff ha]
  rintro (hs | hf)
  · exact hs ht
  · exact hv hf

/-- A call that wrote its document and failed changes nothing a scrape can see: the metrics file
stays the document of the latest call that returned zero, or what was there before the loop, and
what the loop published raises no alert. -/
theorem scrape_after_failure {system before after : System} {events : List Event} {build : Build}
    {options : RunOptions} {stats : InferenceStats} (ht : system.temporaryFile = none)
    (hrun : runAll step system events = some before)
    (hstep : step before (.iteration (.measured build options stats)) = some after)
    (hfail : exitCode options stats .written ∈ [3, 4, 5]) :
    after.metricsFile = (published events).or system.metricsFile ∧
    (∀ now modified, scrape after now modified = scrape before now modified) ∧
    (system.metricsFile = none ∨ (published events).isSome = true →
      ∀ now modified text exporter, scrape after now modified = .ok (text, exporter) →
        ¬ SloAlert text ∧ ¬ ValidationAlert text) := by
  have hne : exitCode options stats .written ≠ 0 := by
    intro hz
    rw [hz] at hfail
    exact absurd hfail (by decide)
  obtain ⟨hm, ht⟩ := metricsFile_runAll ht hrun
  have hafter : after = { before with temporaryFile := none } := by
    simp only [step, Option.ite_none_right_eq_some] at hstep
    rw [← Option.some.inj hstep.2, iteration, Run.status, if_neg hne]
  have hsame : ∀ now modified, scrape after now modified = scrape before now modified := by
    rw [hafter]
    exact fun _ _ ↦ rfl
  refine ⟨by rw [hafter]; exact hm, hsame, fun hp now modified text exporter hs ↦ ?_⟩
  rw [← not_or]
  intro ha
  obtain ⟨document, s, t, hd, hparse, hrender⟩ := alerts_scrape (hsame now modified ▸ hs) ha
  rw [hm] at hd
  cases hpub : published events with
  | none =>
    rw [hpub] at hp hd
    rcases hp with hp | hp
    · rw [hp] at hd
      cases hd
    · cases hp
  | some d =>
    rw [hpub, Option.some_or] at hd
    obtain rfl := Option.some.inj hd
    obtain ⟨build, options, stats, rfl, hz⟩ := published_passed hpub
    exact not_alerts_passed hparse hz t hrender

/-! ### A failure that no scrape shows -/

/-- The loop before its first iteration. -/
def started : System := { metricsPath := ascii "metrics.json", metricsFile := none }

/-- The short run with an element outside the tolerance. -/
def mismatchedStats : InferenceStats :=
  { sampleStats with
    validation := some ⟨false, 4, 1, doubleOf 1⟩ }

/-- An iteration whose validation passes and one whose validation fails. -/
def passThenFail : List Event :=
  [.iteration (.measured {} { verifyIdentity := true } sampleStats),
    .iteration (.measured {} { verifyIdentity := true } mismatchedStats)]

/-- The loop after the passing iteration. -/
def passed : System :=
  { started with metricsFile := some (formatMetricsJson {} { verifyIdentity := true } sampleStats) }

private theorem parseSnapshot_passing :
    parseSnapshot (formatMetricsJson {} { verifyIdentity := true } sampleStats) =
      .ok sampleSnapshot :=
  parseSnapshot_sample

private theorem exitCode_passing :
    exitCode { verifyIdentity := true } sampleStats .written = 0 := by decide +kernel

private theorem exitCode_mismatched :
    exitCode { verifyIdentity := true } mismatchedStats .written = 5 := by decide +kernel

private theorem step_passing :
    step started (.iteration (.measured {} { verifyIdentity := true } sampleStats)) =
      some passed := by
  simp [step, iteration, Run.status, Run.left, exitCode_passing, started, passed]

private theorem step_mismatched :
    step passed (.iteration (.measured {} { verifyIdentity := true } mismatchedStats)) =
      some passed := by
  simp [step, iteration, Run.status, exitCode_mismatched, started, passed]

/-- After the failed validation a scrape shows the passing document and no alert. -/
theorem failed_validation_unseen :
    runAll step started passThenFail = some passed ∧
      exitCode { verifyIdentity := true } mismatchedStats .written = 5 ∧
      ∃ text exporter, scrape passed .zero (.ok .zero) = .ok (text, exporter) ∧
        ¬ ValidationAlert text := by
  have hrun : runAll step started passThenFail = some passed := by
    rw [passThenFail, runAll, step_passing, Option.bind_some, runAll, step_mismatched]
    rfl
  refine ⟨hrun, exitCode_mismatched, _, _, scrape_loaded rfl parseSnapshot_passing .zero .zero,
    fun ha ↦ ?_⟩
  exact not_alerts_passed parseSnapshot_passing exitCode_passing .zero
    ((alerts_append _ _ _ _).mp (.inr ha))

/-- The failed validation leaves the passing document in place. -/
theorem scrape_after_failure_mismatched :
    passed.metricsFile =
      (published [.iteration (.measured {} { verifyIdentity := true } sampleStats)]).or
        started.metricsFile := by
  have hrun : runAll step started
      [.iteration (.measured {} { verifyIdentity := true } sampleStats)] = some passed := by
    rw [runAll, step_passing]
    rfl
  exact (scrape_after_failure rfl hrun step_mismatched (by decide +kernel)).1

end MarketData.Pipeline
