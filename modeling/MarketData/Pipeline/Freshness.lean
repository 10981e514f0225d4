import MarketData.Base.Trace
import MarketData.Pipeline.Accounting

/-!
# Freshness of a scrape

A scrape opens the metrics file by its name twice: to read it, and to tell its modification time.
The publisher renames a new version over the name at any time, so the two may be of different
versions.
-/

namespace MarketData.Pipeline

open ByteText Cpp Exporter Prometheus Trace

/-- What the publisher installs: a document with its modification time. -/
structure Version where
  document : Bytes
  modified : Double

/-- The versions published so far, the latest last, what the scrape under way has read, the exporter
and the bodies it sent. -/
structure Scene where
  versions : List Version
  reading : Option (Checked Bytes) := none
  exporter : ExporterState := {}
  bodies : List Bytes := []

/-- `read_file` of the version that has the name, if there is one. -/
def readVersion : Option Version → Checked Bytes
  | some v => .ok v.document
  | none => .error (.exception (ascii "cannot open metrics file"))

/-- `file_timestamp`, `tools/metrics_exporter.cpp:510–516`, of the version that has the name. The
arithmetic between the clocks of the file system and of the system is left out: the time of a
version is the number that it comes to. -/
def timestampOf : Option Version → Checked Double
  | some v => .ok v.modified
  | none => .error (.exception (ascii "filesystem error: cannot get file time"))

/-- The accesses to the name: a publication, and the two of a scrape. -/
inductive Access where
  | publish (v : Version)
  | read
  | stat (now : Double)

/-- One access. A scrape reads first and ends with the modification time. -/
def access (s : Scene) : Access → Option Scene
  | .publish v => some { s with versions := s.versions ++ [v] }
  | .read =>
    match s.reading with
    | none => some { s with reading := some (readVersion s.versions.getLast?) }
    | some _ => none
  | .stat now =>
    match s.reading with
    | none => none
    | some contents =>
      match loadForScrape ⟨contents, now, timestampOf s.versions.getLast?⟩ s.exporter with
      | .error _ => none
      | .ok (body, exporter) =>
        some { s with reading := none, exporter, bodies := s.bodies ++ [body] }

/-- The body shows the document and the modification time of one version. -/
def Shows (v : Version) (body : Bytes) : Prop :=
  ∃ state s, parseSnapshot v.document = .ok s ∧
    body = renderExporterState state true ++ renderSnapshot s v.modified

/-- Every body that reports a success shows one published version. -/
def Consistent (s : Scene) : Prop :=
  ∀ body ∈ s.bodies,
    scraped body "marketdata_exporter_last_load_success" = some (ascii "1") →
      ∃ v ∈ s.versions, Shows v body

/-- No publication falls between the two accesses of a scrape. -/
def Undisturbed (s : Scene) : List Access → Prop
  | [] => True
  | a :: accesses => (∀ v, a = .publish v → s.reading = none) ∧
    ∀ s', access s a = some s' → Undisturbed s' accesses

/-- What a scrape under way has read is the latest version. -/
def Current (s : Scene) : Prop :=
  ∀ contents, s.reading = some contents → contents = readVersion s.versions.getLast?

private theorem shows_of_success {version : Option Version} {now : Double}
    {before after : ExporterState} {body : Bytes}
    (h : loadForScrape ⟨readVersion version, now, timestampOf version⟩ before = .ok (body, after))
    (hsuccess : scraped body "marketdata_exporter_last_load_success" = some (ascii "1")) :
    ∃ v, version = some v ∧ Shows v body := by
  rcases loadForScrape_cases h with
    ⟨s, t, hload, -, rfl⟩ | ⟨-, -, -, rfl⟩ | ⟨-, -, -, rfl⟩
  · obtain ⟨s', hs, hload⟩ := bind_eq_ok.mp hload
    obtain ⟨t', ht, hload⟩ := bind_eq_ok.mp hload
    obtain ⟨rfl, rfl⟩ := Prod.mk.inj (Except.ok.inj hload)
    cases version with
    | none => cases ht
    | some v =>
      obtain rfl := Except.ok.inj ht
      exact ⟨v, rfl, after, s', hs, rfl⟩
  all_goals
    rw [(reports_state ..).lastLoad] at hsuccess
    exact absurd (Option.some.inj hsuccess) (by decide)

private theorem access_consistent {s s' : Scene} {a : Access} (h : access s a = some s')
    (hu : ∀ v, a = .publish v → s.reading = none) (hs : Consistent s ∧ Current s) :
    Consistent s' ∧ Current s' := by
  obtain ⟨hconsistent, hcurrent⟩ := hs
  cases a with
  | publish v =>
    obtain rfl := Option.some.inj h
    refine ⟨fun body hbody hsuccess ↦ ?_, fun contents hreading ↦ ?_⟩
    · obtain ⟨v', hv', hshows⟩ := hconsistent body hbody hsuccess
      exact ⟨v', List.mem_append_left _ hv', hshows⟩
    · rw [hu v rfl] at hreading
      cases hreading
  | read =>
    simp only [access] at h
    split at h
    · obtain rfl := Option.some.inj h
      exact ⟨hconsistent, fun contents hreading ↦ (Option.some.inj hreading).symm⟩
    · cases h
  | stat now =>
    simp only [access] at h
    split at h
    · cases h
    · next contents hreading =>
      obtain rfl := hcurrent contents hreading
      split at h
      · cases h
      · next body exporter hload =>
        obtain rfl := Option.some.inj h
        refine ⟨fun body' hbody hsuccess ↦ ?_, fun contents hreading ↦ by cases hreading⟩
        rcases List.mem_append.mp hbody with hbody | hbody
        · exact hconsistent body' hbody hsuccess
        · obtain rfl := List.mem_singleton.mp hbody
          obtain ⟨v, hv, hshows⟩ := shows_of_success hload hsuccess
          exact ⟨v, List.mem_of_getLast? hv, hshows⟩

private theorem consistent_runAll {first s : Scene} {accesses : List Access}
    (h : runAll access first accesses = some s) (hu : Undisturbed first accesses)
    (hfirst : Consistent first ∧ Current first) : Consistent s ∧ Current s := by
  induction accesses generalizing first with
  | nil =>
    obtain rfl := Option.some.inj h
    exact hfirst
  | cons a accesses ih =>
    obtain ⟨next, hnext, h⟩ := Option.bind_eq_some_iff.mp h
    exact ih h (hu.2 next hnext) (access_consistent hnext hu.1 hfirst)

/-- In every run whose publications fall outside the scrapes, each successful scrape shows one
published version. -/
theorem undisturbed_consistent {versions : List Version} {accesses : List Access} {s : Scene}
    (h : runAll access { versions } accesses = some s)
    (hu : Undisturbed { versions } accesses) : Consistent s := by
  refine (consistent_runAll h hu ⟨fun _ hbody ↦ ?_, fun _ hreading ↦ ?_⟩).1
  · cases hbody
  · cases hreading

/-! ### A publication inside a scrape -/

/-- The short run without a validation. -/
def unvalidatedStats : InferenceStats := { sampleStats with validation := none }

/-- What the exporter reads for it. -/
def unvalidatedSnapshot : Snapshot := { sampleSnapshot with validationPassed := none }

private theorem parseSnapshot_unvalidated :
    parseSnapshot (formatMetricsJson {} {} unvalidatedStats) = .ok unvalidatedSnapshot := by
  rw [parseSnapshot_formatMetricsJson]
  decide +kernel

/-- The version of the validated run. -/
def firstVersion : Version := ⟨formatMetricsJson {} {} sampleStats, .zero⟩

/-- The later version of the run without a validation. -/
def secondVersion : Version := ⟨formatMetricsJson {} {} unvalidatedStats, doubleOf 9⟩

private theorem scraped_timestamp (state : ExporterState) (success : Bool) (s : Snapshot)
    (t : Double) :
    scraped (renderExporterState state success ++ renderSnapshot s t)
      "marketdata_metrics_file_timestamp_seconds" = some (printGeneral t) := by
  rw [scraped, read_renderExporterState_append, Option.bind_some, samples_append, valueOf_append]
  simp [samples_stateLines, snapshotLines, runLines, samples_append, samples_gauge, samples_header,
    valueOf_cons, valueOf_nil]

private theorem loadForScrape_success {document : Bytes} {s : Snapshot}
    (h : parseSnapshot document = .ok s) (now t : Double) (before : ExporterState) :
    loadForScrape ⟨.ok document, now, .ok t⟩ before =
      let after : ExporterState := ⟨before.scrapes + 1, before.failures, now⟩
      .ok (renderExporterState after true ++ renderSnapshot s t, after) := by
  simp only [loadForScrape, ok_bind, h]

private theorem access_stat {versions : List Version} {document : Bytes} {s : Snapshot}
    {last : Version} (hp : parseSnapshot document = .ok s) (hlast : versions.getLast? = some last)
    (before : ExporterState) (bodies : List Bytes) (now : Double) :
    access ⟨versions, some (.ok document), before, bodies⟩ (.stat now) =
      let after : ExporterState := ⟨before.scrapes + 1, before.failures, now⟩
      some ⟨versions, none, after,
        bodies ++ [renderExporterState after true ++ renderSnapshot s last.modified]⟩ := by
  simp only [access, hlast, timestampOf, loadForScrape_success hp]

private theorem runAll_scrape {versions : List Version} {s : Snapshot} {before : ExporterState}
    {now : Double} (last : Version) (after : ExporterState)
    (hp : parseSnapshot last.document = .ok s) (hlast : versions.getLast? = some last)
    (hafter : ⟨before.scrapes + 1, before.failures, now⟩ = after) (bodies : List Bytes)
    (accesses : List Access) :
    runAll access ⟨versions, none, before, bodies⟩ (.read :: .stat now :: accesses) =
      runAll access ⟨versions, none, after,
        bodies ++ [renderExporterState after true ++ renderSnapshot s last.modified]⟩
        accesses := by
  have hread : access ⟨versions, none, before, bodies⟩ .read =
      some ⟨versions, some (.ok last.document), before, bodies⟩ := by
    simp only [access, hlast, readVersion]
  rw [runAll, hread, Option.bind_some, runAll, access_stat hp hlast, Option.bind_some, hafter]

private theorem runAll_publish (versions : List Version) (v : Version) (before : ExporterState)
    (bodies : List Bytes) (accesses : List Access) :
    runAll access ⟨versions, none, before, bodies⟩ (.publish v :: accesses) =
      runAll access ⟨versions ++ [v], none, before, bodies⟩ accesses :=
  rfl

private theorem runAll_disturbed (first second : Version) (now : Double) :
    runAll access { versions := [first] } [.read, .publish second, .stat now] =
      access ⟨[first, second], some (.ok first.document), {}, []⟩ (.stat now) := by
  simp only [runAll, access, readVersion, List.getLast?_singleton, Option.bind_some,
    Option.bind_fun_some, List.cons_append, List.nil_append]

private theorem undisturbed_scrape {s : Scene} {now : Double} {accesses : List Access}
    (h : ∀ s' : Scene, s'.reading = none → Undisturbed s' accesses) :
    Undisturbed s (.read :: .stat now :: accesses) := by
  refine ⟨fun v hv ↦ (by cases hv), fun s' _ ↦ ⟨fun v hv ↦ (by cases hv), fun s'' hstat ↦ ?_⟩⟩
  refine h s'' ?_
  simp only [access] at hstat
  split at hstat
  · cases hstat
  · split at hstat
    · cases hstat
    · obtain rfl := Option.some.inj hstat
      rfl

/-- A scrape of each version, with the publication of the second in between. -/
def scrapedInTurn : List Access :=
  [.read, .stat .zero, .publish secondVersion, .read, .stat (doubleOf 9)]

/-- What they lead to. -/
def sceneInTurn : Scene where
  versions := [firstVersion, secondVersion]
  exporter := ⟨2, 0, doubleOf 9⟩
  bodies :=
    [renderExporterState ⟨1, 0, .zero⟩ true ++ renderSnapshot sampleSnapshot .zero,
      renderExporterState ⟨2, 0, doubleOf 9⟩ true ++
        renderSnapshot unvalidatedSnapshot (doubleOf 9)]

private theorem runAll_scrapedInTurn :
    runAll access { versions := [firstVersion] } scrapedInTurn = some sceneInTurn := by
  rw [scrapedInTurn, runAll_scrape firstVersion ⟨1, 0, .zero⟩ parseSnapshot_sample rfl rfl,
    runAll_publish,
    runAll_scrape secondVersion ⟨2, 0, doubleOf 9⟩ parseSnapshot_unvalidated rfl rfl]
  simp only [runAll, sceneInTurn, firstVersion, secondVersion, List.nil_append, List.cons_append]

/-- A publication between two scrapes: each shows the version that had the name. -/
theorem undisturbed_consistent_in_turn :
    runAll access { versions := [firstVersion] } scrapedInTurn = some sceneInTurn ∧
      Consistent sceneInTurn := by
  refine ⟨runAll_scrapedInTurn, undisturbed_consistent runAll_scrapedInTurn ?_⟩
  refine undisturbed_scrape fun s hs ↦ ⟨fun _ _ ↦ hs, fun s' hpublish ↦ ?_⟩
  exact undisturbed_scrape fun _ _ ↦ trivial

/-- A publication between the two accesses: the body shows the document of the first version with
the time of the second. -/
theorem disturbed_inconsistent :
    runAll access { versions := [firstVersion] }
        [.read, .publish secondVersion, .stat .zero] =
      some ⟨[firstVersion, secondVersion], none, ⟨1, 0, .zero⟩,
        [renderExporterState ⟨1, 0, .zero⟩ true ++
          renderSnapshot sampleSnapshot secondVersion.modified]⟩ ∧
      ¬ Consistent ⟨[firstVersion, secondVersion], none, ⟨1, 0, .zero⟩,
        [renderExporterState ⟨1, 0, .zero⟩ true ++
          renderSnapshot sampleSnapshot secondVersion.modified]⟩ := by
  refine ⟨(runAll_disturbed firstVersion secondVersion .zero).trans
    (access_stat parseSnapshot_sample rfl {} [] .zero), fun hconsistent ↦ ?_⟩
  obtain ⟨v, hv, state, s, hs, hbody⟩ := hconsistent _ (List.mem_singleton_self _)
    (reports_append ..).lastLoad
  rcases List.mem_pair.mp hv with rfl | rfl
  · -- The first version has another modification time.
    have htime := congrArg (scraped · "marketdata_metrics_file_timestamp_seconds") hbody
    simp only [scraped_timestamp] at htime
    exact absurd htime (by decide +kernel)
  · -- The second version has no validation.
    obtain rfl := Except.ok.inj (hs.symm.trans parseSnapshot_unvalidated)
    have henabled := congrArg (scraped · "marketdata_inference_validation_enabled") hbody
    have hname : "marketdata_inference_validation_enabled" ∈ verdictMetrics := by decide
    simp only [scraped_append _ _ _ _ hname, scraped_renderSnapshot _ _ hname,
      samples_verdictLines] at henabled
    have hflags : printFlag sampleSnapshot.validationPassed.isSome =
        printFlag unvalidatedSnapshot.validationPassed.isSome := by
      simpa [valueOf_cons] using henabled
    exact absurd hflags (by decide)

end MarketData.Pipeline
