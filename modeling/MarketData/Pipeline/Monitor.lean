import MarketData.Ingress.Driver
import MarketData.Pipeline.Publisher

/-!
# The monitor loop, step by step

`scripts/run_monitored_benchmark.sh` under `set -e`, observed after every run, `mv` and `rm`. A `mv`
inside a directory replaces the metrics file at once or leaves everything as it is.
-/

namespace MarketData.Monitor

open ByteText Cpp Exporter Ingress Pipeline Trace

/-- The arguments of the script, and its process id. -/
structure Script where
  metricsFile : Bytes
  arguments : List Bytes
  pid : Nat

/-- `temporary_file`, `scripts/run_monitored_benchmark.sh:23`: the metrics path with the process
id behind it. -/
def Script.temporaryFile (script : Script) : Bytes :=
  script.metricsFile ++ ascii ".tmp." ++ decimal script.pid

/-- What the script does next. -/
inductive Phase where
  | run
  | move
  | remove
  | stopped
deriving DecidableEq

/-- The files, and where the script is. -/
structure System where
  files : Bytes → Option Bytes
  phase : Phase := .run

/-- What a run does to the temporary file. -/
inductive Effect where
  | untouched
  | left (contents : Option Bytes)

/-- The temporary file behind a run. -/
def Effect.on : Effect → Option Bytes → Option Bytes
  | .untouched, before => before
  | .left contents, _ => contents

/-- A step of the loop: a run that ends with a status, or the command behind it, which completes or
fails. -/
inductive Event where
  | run (status : Nat) (effect : Effect)
  | mv (completes : Bool)
  | rm (completes : Bool)

variable (script : Script)

/-- The loop at its start. The script does not look for a file under the temporary name, so one of
an earlier process with the same id is still there. -/
def start (files : Bytes → Option Bytes) : System := { files }

/-- One step of the loop, `scripts/run_monitored_benchmark.sh:22–35`. A command that fails ends
the script; `mv` fails without a file to move. -/
def step (system : System) : Event → Option System
  | .run status effect =>
    if system.phase = .run then
      some {
        files := Function.update system.files script.temporaryFile
          (effect.on (system.files script.temporaryFile))
        phase := if status = 0 then .move else .remove }
    else none
  | .mv false => if system.phase = .move then some { system with phase := .stopped } else none
  | .mv true =>
    match system.files script.temporaryFile with
    | none => none
    | some document =>
      if system.phase = .move then
        some {
          files := Function.update (Function.update system.files script.metricsFile document)
            script.temporaryFile none
          phase := .run }
      else none
  | .rm false => if system.phase = .remove then some { system with phase := .stopped } else none
  | .rm true =>
    if system.phase = .remove then
      some { files := Function.update system.files script.temporaryFile none, phase := .run }
    else none

/-! ### The metrics file -/

/-- The metrics file is as before, or the document that the most recent run that returned zero and
whose move completed has written. -/
def Preserved (before now : Option Bytes) (events : List Event) : Prop :=
  (.mv true ∉ events ∧ now = before) ∨
    ∃ earlier document later,
      events = earlier ++ .run 0 (.left (some document)) :: .mv true :: later ∧
        .mv true ∉ later ∧ now = some document

variable {script} {files : Bytes → Option Bytes} {before now : Option Bytes} {events : List Event}
  {system after : System} {e : Event}

/-- A step that completes no move preserves the metrics file. -/
theorem Preserved.concat (h : Preserved before now events) (he : .mv true ≠ e) :
    Preserved before now (events ++ [e]) := by
  rcases h with ⟨hnone, hnow⟩ | ⟨earlier, document, later, rfl, hnone, hnow⟩
  · left
    exact ⟨by simpa [hnone] using he, hnow⟩
  · right
    exact ⟨earlier, document, later ++ [e], by simp, by simpa [hnone] using he, hnow⟩

/-- The temporary file is not the metrics file. -/
theorem metricsFile_ne_temporaryFile (script : Script) :
    script.metricsFile ≠ script.temporaryFile := by
  intro h
  have hlength := congrArg List.length h
  have hdot : (ascii ".tmp.").length = 5 := by decide
  simp only [Script.temporaryFile, List.length_append, hdot] at hlength
  omega

/-- What holds behind every step. Behind a run that returned zero the temporary file, if there is
one, is what that run has written. -/
structure Inv (script : Script) (before : Option Bytes) (events : List Event) (system : System) :
    Prop where
  metricsFile : Preserved before (system.files script.metricsFile) events
  behind : system.phase = .move → ∀ document, system.files script.temporaryFile = some document →
    ∃ earlier, events = earlier ++ [.run 0 (.left (some document))]

/-- The loop starts with the metrics file from before. -/
theorem inv_start (script : Script) (files : Bytes → Option Bytes) :
    Inv script (files script.metricsFile) [] (start files) where
  metricsFile := .inl ⟨List.not_mem_nil, rfl⟩
  behind := nofun

private theorem files_metricsFile (files : Bytes → Option Bytes) (left : Option Bytes) :
    Function.update files script.temporaryFile left script.metricsFile = files script.metricsFile :=
  Function.update_of_ne (metricsFile_ne_temporaryFile script) ..

private theorem Inv.stopped (h : Inv script before events system) (he : .mv true ≠ e) :
    Inv script before (events ++ [e]) { system with phase := .stopped } where
  metricsFile := h.metricsFile.concat he
  behind := nofun

/-- What a step does: a run, a completed `mv` or `rm`, or a command that fails. -/
theorem step_cases (hstep : step script system e = some after) :
    (∃ status effect, e = .run status effect ∧ system.phase = .run ∧
      after = ⟨Function.update system.files script.temporaryFile
        (effect.on (system.files script.temporaryFile)), if status = 0 then .move else .remove⟩) ∨
    (∃ document, e = .mv true ∧ system.phase = .move ∧
      system.files script.temporaryFile = some document ∧
      after = ⟨Function.update (Function.update system.files script.metricsFile document)
        script.temporaryFile none, .run⟩) ∨
    (e = .rm true ∧ system.phase = .remove ∧
      after = ⟨Function.update system.files script.temporaryFile none, .run⟩) ∨
    ((e = .mv false ∨ e = .rm false) ∧ after = { system with phase := .stopped }) := by
  cases e with
  | run status effect =>
    obtain ⟨hphase, hafter⟩ := Option.ite_none_right_eq_some.mp hstep
    exact .inl ⟨status, effect, rfl, hphase, (Option.some.inj hafter).symm⟩
  | mv completes =>
    cases completes with
    | false =>
      obtain ⟨-, hafter⟩ := Option.ite_none_right_eq_some.mp hstep
      exact .inr (.inr (.inr ⟨.inl rfl, (Option.some.inj hafter).symm⟩))
    | true =>
      simp only [step] at hstep
      split at hstep
      · cases hstep
      · next document hleft =>
        obtain ⟨hphase, hafter⟩ := Option.ite_none_right_eq_some.mp hstep
        exact .inr (.inl ⟨document, rfl, hphase, hleft, (Option.some.inj hafter).symm⟩)
  | rm completes =>
    cases completes with
    | false =>
      obtain ⟨-, hafter⟩ := Option.ite_none_right_eq_some.mp hstep
      exact .inr (.inr (.inr ⟨.inr rfl, (Option.some.inj hafter).symm⟩))
    | true =>
      obtain ⟨hphase, hafter⟩ := Option.ite_none_right_eq_some.mp hstep
      exact .inr (.inr (.inl ⟨rfl, hphase, (Option.some.inj hafter).symm⟩))

/-- Every step keeps the invariant, unless it is a run that returns zero without writing where a
temporary file stands. -/
theorem inv_step (h : Inv script before events system) (hstep : step script system e = some after)
    (hwritten : e = .run 0 .untouched → system.files script.temporaryFile = none) :
    Inv script before (events ++ [e]) after := by
  rcases step_cases hstep with ⟨status, effect, rfl, -, rfl⟩ | ⟨document, rfl, hphase, hleft, rfl⟩ |
    ⟨rfl, -, rfl⟩ | ⟨hfailed, rfl⟩
  · -- A run leaves the metrics file, and a document under the temporary name only if it wrote one.
    refine ⟨?_, ?_⟩
    · dsimp only
      rw [files_metricsFile]
      exact h.metricsFile.concat (by simp)
    · intro hmove document hdocument
      dsimp only at hmove hdocument
      rw [Function.update_self] at hdocument
      split at hmove
      · next hzero =>
        subst hzero
        cases effect with
        | untouched => cases (hwritten rfl).symm.trans hdocument
        | left contents =>
          obtain rfl : contents = some document := hdocument
          exact ⟨events, rfl⟩
      · cases hmove
  · -- What is moved is what the run before has written.
    obtain ⟨earlier, rfl⟩ := h.behind hphase document hleft
    refine ⟨.inr ⟨earlier, document, [], by simp, List.not_mem_nil, ?_⟩, nofun⟩
    dsimp only
    rw [files_metricsFile, Function.update_self]
  · refine ⟨?_, nofun⟩
    dsimp only
    rw [files_metricsFile]
    exact h.metricsFile.concat (by simp)
  · exact h.stopped (by rcases hfailed with rfl | rfl <;> simp)

/-- Between two iterations there is no temporary file. -/
theorem between_step (hstep : step script system e = some after) (hrun : after.phase = .run) :
    after.files script.temporaryFile = none := by
  rcases step_cases hstep with ⟨status, effect, rfl, -, rfl⟩ | ⟨document, rfl, -, -, rfl⟩ |
    ⟨rfl, -, rfl⟩ | ⟨-, rfl⟩
  · dsimp only at hrun
    split at hrun <;> cases hrun
  · exact Function.update_self ..
  · exact Function.update_self ..
  · cases hrun

-- A run happens between two iterations only.
private theorem phase_of_run {status : Nat} {effect : Effect}
    (hstep : step script system (.run status effect) = some after) : system.phase = .run :=
  (Option.ite_none_right_eq_some.mp hstep).1

/-- Without a temporary file at the start the invariant holds behind every run of the loop. -/
theorem inv_of_clean (hclean : files script.temporaryFile = none)
    (h : runAll (step script) (start files) events = some after) :
    Inv script (files script.metricsFile) events after := by
  refine (runAll_invariant
    (p := fun past system ↦ Inv script (files script.metricsFile) past system ∧
      (system.phase = .run → system.files script.temporaryFile = none))
    ⟨inv_start script files, fun _ ↦ hclean⟩ ?_ h).1
  rintro past before e after ⟨hinv, hbetween⟩ hstep
  refine ⟨inv_step hinv hstep ?_, between_step hstep⟩
  rintro rfl
  exact hbetween (phase_of_run hstep)

-- A first run that returns zero without writing has the file under the temporary name moved.
private theorem stale_run {stale : Bytes} (hstale : files script.temporaryFile = some stale) :
    ∃ after, runAll (step script) (start files) [.run 0 .untouched, .mv true] = some after ∧
      after.files script.metricsFile = some stale := by
  refine ⟨⟨Function.update (Function.update (Function.update files script.temporaryFile stale)
    script.metricsFile stale) script.temporaryFile none, .run⟩, ?_, ?_⟩
  · simp [runAll, step, start, Effect.on, hstale]
  · dsimp only
    rw [files_metricsFile, Function.update_self]

private theorem not_preserved_stale :
    ¬ Preserved before now [.run 0 .untouched, .mv true] := by
  rintro (⟨hnone, -⟩ | ⟨earlier, document, later, hevents, -⟩)
  · simp at hnone
  · have hmem : Event.run 0 (.left (some document)) ∈ [.run 0 .untouched, .mv true] := by
      rw [hevents]
      simp
    simp at hmem

/-! ### Runs of the driver -/

variable (script)

/-- The arguments that the script gives to the driver. -/
def Script.driverArguments : List Bytes :=
  script.arguments ++ [ascii "--json-out", script.temporaryFile]

/-- The arguments make the driver print its help. -/
def Script.AsksForHelp : Prop := grammar.parse script.driverArguments {} = .ok none

/-- What a run of the driver does to the file of its document. A write that fails leaves some part,
or nothing. -/
def effect (host : Host) (cut : Option Bytes) : Outcome → Effect
  | .measured options stats =>
    match host.file options.metricsPath with
    | .written => .left (some (formatMetricsJson host.build options stats))
    | .openFailed => .untouched
    | .writeFailed => .left cut
  | _ => .untouched

/-- How a run ends: the driver returns, or the run fails otherwise, such as by a signal. -/
inductive Ends : Nat → Effect → Prop where
  | returned (host : Host) (cut : Option Bytes) {outcome : Outcome}
      (h : main host script.driverArguments = .ok outcome) :
      Ends (outcome.status host) (effect host cut outcome)
  | failed {status : Nat} {effect : Effect} (h : status ≠ 0) : Ends status effect

/-- Every run is one of the driver. -/
def Driven (events : List Event) : Prop :=
  ∀ status effect, .run status effect ∈ events → Ends script status effect

/-- The document of a run that returned zero: what the exporter reads of it names no failed
check. -/
def Passing (document : Bytes) : Prop :=
  (∃ host options stats, main host script.driverArguments = .ok (.measured options stats) ∧
    (Outcome.measured options stats).status host = 0 ∧
    document = formatMetricsJson host.build options stats) ∧
  ∀ s, parseSnapshot document = .ok s →
    s.sloPassed ≠ some false ∧ s.validationPassed ≠ some false

variable {script}

private theorem getLast_temporaryFile (script : Script) :
    ∃ b, script.temporaryFile.getLast? = some b ∧ isDigit b = true := by
  have hne := decimal_ne_nil script.pid
  refine ⟨(decimal script.pid).getLast hne, ?_, isDigit_of_mem_decimal (List.getLast_mem hne)⟩
  rw [Script.temporaryFile, List.getLast?_append_of_ne_nil _ hne,
    List.getLast?_eq_getLast_of_ne_nil hne]

private theorem main_temporaryFile {host : Host} {options : RunOptions} {stats : InferenceStats}
    (h : main host script.driverArguments = .ok (.measured options stats)) :
    options.metricsPath = script.temporaryFile ∧ options.targetLatencyUs.isFinite = true ∧
      options.metricsPath ≠ [] := by
  obtain ⟨b, hlast, hb⟩ := getLast_temporaryFile script
  obtain ⟨hpath, htarget⟩ := main_jsonOut hlast hb h
  refine ⟨hpath, htarget, ?_⟩
  rw [hpath]
  rintro hnil
  rw [hnil] at hlast
  cases hlast

/-- Whatever the arguments of the script are, the driver writes no file but the temporary one. -/
theorem files_main {host : Host} {outcome : Outcome} (cut : Option Bytes)
    (h : main host script.driverArguments = .ok outcome) :
    outcome.files host cut files = Function.update files script.temporaryFile
      ((effect host cut outcome).on (files script.temporaryFile)) := by
  have hsame : files = Function.update files script.temporaryFile (files script.temporaryFile) :=
    (Function.update_eq_self ..).symm
  cases outcome with
  | help => exact hsame
  | refused refusal => exact hsame
  | measured options stats =>
    obtain ⟨hpath, -, hne⟩ := main_temporaryFile h
    rw [Outcome.files, if_neg hne, effect, hpath]
    cases host.file script.temporaryFile with
    | written => rfl
    | openFailed => exact hsame
    | writeFailed => rfl

private theorem passing_verdicts {build : Build} {options : RunOptions} {stats : InferenceStats}
    (hfinite : options.targetLatencyUs.isFinite = true)
    (hzero : exitCode options stats .written = 0) {s : Snapshot}
    (hs : parseSnapshot (formatMetricsJson build options stats) = .ok s) :
    s.sloPassed ≠ some false ∧ s.validationPassed ≠ some false := by
  have hagrees := parseSnapshot_eq_ok.mp hs
  obtain ⟨htarget, hvalidation⟩ := exitCode_eq_zero.mp hzero
  constructor
  · intro hpassed
    have halert := (sloAlert_iff hagrees .zero).not.mpr (not_not.mpr htarget)
    rw [sloAlert_renderSnapshot] at halert
    refine halert ⟨isSome_of_sloPassed hagrees hfinite hpassed, ?_⟩
    rw [hpassed]
    rfl
  · intro hpassed
    rw [hagrees.validationPassed] at hpassed
    exact hvalidation (Option.map_eq_some_iff.mp hpassed)

private theorem ends_zero {status : Nat} {effect : Effect} (h : Ends script status effect)
    (hzero : status = 0) :
    (effect = .untouched ∧ script.AsksForHelp) ∨
      ∃ document, effect = .left (some document) ∧ Passing script document := by
  cases h with
  | failed h => exact absurd hzero h
  | returned host cut hmain =>
    rename_i outcome
    cases outcome with
    | help => exact .inl ⟨rfl, parse_of_help hmain⟩
    | refused refusal => exact absurd hzero (code_main hmain)
    | measured options stats =>
      obtain ⟨hpath, hfinite, hne⟩ := main_temporaryFile hmain
      have hwritten : host.file options.metricsPath = .written := by
        by_contra hfile
        rw [Outcome.status, exitCode, if_pos ⟨hne, hfile⟩] at hzero
        cases hzero
      refine .inr ⟨formatMetricsJson host.build options stats, by rw [Monitor.effect, hwritten],
        ⟨host, options, stats, hmain, hzero, rfl⟩, fun s hs ↦ ?_⟩
      rw [Outcome.status, hwritten] at hzero
      exact passing_verdicts hfinite hzero hs

/-- Where no help is asked for, the invariant holds behind every run of the loop that runs the
driver, whatever stands under the temporary name at the start. -/
theorem inv_of_driven (hhelp : ¬ script.AsksForHelp) (hdriven : Driven script events)
    (h : runAll (step script) (start files) events = some after) :
    Inv script (files script.metricsFile) events after := by
  refine runAll_invariant
    (p := fun past system ↦ Driven script past → Inv script (files script.metricsFile) past system)
    (fun _ ↦ inv_start script files) ?_ h hdriven
  intro past before e after hinv hstep hdriven
  refine inv_step (hinv fun status effect hmem ↦
    hdriven status effect (List.mem_append_left _ hmem)) hstep ?_
  rintro rfl
  rcases ends_zero (hdriven 0 .untouched (by simp)) rfl with ⟨-, hasks⟩ | ⟨document, hleft, -⟩
  · exact absurd hasks hhelp
  · cases hleft

private theorem Preserved.passing (h : Preserved before now events)
    (hdriven : Driven script events) (hmoved : .mv true ∈ events) :
    ∃ document, now = some document ∧ Passing script document := by
  rcases h with ⟨hnone, -⟩ | ⟨earlier, document, later, rfl, -, hnow⟩
  · exact absurd hmoved hnone
  · refine ⟨document, hnow, ?_⟩
    rcases ends_zero (hdriven 0 (.left (some document)) (by simp)) rfl with ⟨hleft, -⟩ | hwritten
    · cases hleft
    · obtain ⟨written, hleft, hpassing⟩ := hwritten
      obtain rfl := Option.some.inj (Effect.left.inj hleft)
      exact hpassing

private theorem driven_stale (hasks : script.AsksForHelp) :
    Driven script [.run 0 .untouched, .mv true] := by
  intro status effect hmem
  obtain ⟨rfl, rfl⟩ : status = 0 ∧ effect = .untouched := by simpa using hmem
  exact .returned plainHost none (help_of_parse hasks)

/-! ### The last valid snapshot -/

/-- Whatever its runs return and write, the loop keeps the last valid snapshot behind every step
exactly when no file stands under the temporary name at the start. When the runs are runs of the
driver, it also does, and publishes only what has passed, where the arguments do not ask for
help. -/
theorem last_valid_snapshot (script : Script) (files : Bytes → Option Bytes) :
    ((∀ events after, runAll (step script) (start files) events = some after →
        Preserved (files script.metricsFile) (after.files script.metricsFile) events) ↔
      files script.temporaryFile = none) ∧
    ((∀ events after, Driven script events →
        runAll (step script) (start files) events = some after →
        Preserved (files script.metricsFile) (after.files script.metricsFile) events ∧
          (.mv true ∈ events → ∃ document, after.files script.metricsFile = some document ∧
            Passing script document)) ↔
      files script.temporaryFile = none ∨ ¬ script.AsksForHelp) := by
  refine ⟨⟨fun h ↦ ?_, fun hclean events after hrun ↦ (inv_of_clean hclean hrun).metricsFile⟩,
    ⟨fun h ↦ ?_, fun hcondition events after hdriven hrun ↦ ?_⟩⟩
  · by_contra hstale
    obtain ⟨stale, hstale⟩ := Option.ne_none_iff_exists'.mp hstale
    obtain ⟨after, hrun, -⟩ := stale_run hstale
    exact not_preserved_stale (h _ _ hrun)
  · by_contra hcondition
    obtain ⟨hstale, hasks⟩ := not_or.mp hcondition
    obtain ⟨stale, hstale⟩ := Option.ne_none_iff_exists'.mp hstale
    obtain ⟨after, hrun, -⟩ := stale_run hstale
    exact not_preserved_stale (h _ _ (driven_stale (not_not.mp hasks)) hrun).1
  · have hpreserved : Preserved (files script.metricsFile) (after.files script.metricsFile)
        events := by
      rcases hcondition with hclean | hhelp
      · exact (inv_of_clean hclean hrun).metricsFile
      · exact (inv_of_driven hhelp hdriven hrun).metricsFile
    exact ⟨hpreserved, hpreserved.passing hdriven⟩

/-- A script that is given `--help`. -/
def helpScript : Script where
  metricsFile := ascii "metrics.json"
  arguments := [ascii "--help"]
  pid := 7

/-- One call on one element that misses its target. -/
def missedArguments : List Bytes :=
  [ascii "--input-size", ascii "1", ascii "--iterations", ascii "1", ascii "--warmup", ascii "0",
    ascii "--target-us", ascii "0.001", ascii "--json-out", helpScript.temporaryFile]

/-- A valid snapshot, and the document of a script with the same process id that was killed before
its `rm`. -/
def leftover (missed : Bytes) : Bytes → Option Bytes :=
  Function.update (Function.update (fun _ ↦ none) helpScript.metricsFile
    (some (formatMetricsJson {} {} sampleStats))) helpScript.temporaryFile (some missed)

private theorem helpScript_asksForHelp : helpScript.AsksForHelp := by
  unfold Script.AsksForHelp
  rfl

/-- The document of a run that missed its target replaces the last valid snapshot behind a run that
prints the help. -/
theorem stale_snapshot_published :
    ∃ options stats after, main plainHost missedArguments = .ok (.measured options stats) ∧
      (Outcome.measured options stats).status plainHost = 3 ∧
      Driven helpScript [.run 0 .untouched, .mv true] ∧
      runAll (step helpScript) (start (leftover (formatMetricsJson plainHost.build options stats)))
        [.run 0 .untouched, .mv true] = some after ∧
      after.files helpScript.metricsFile =
        some (formatMetricsJson plainHost.build options stats) ∧
      ¬ Preserved (some (formatMetricsJson {} {} sampleStats)) (after.files helpScript.metricsFile)
        [.run 0 .untouched, .mv true] ∧
      ∃ s, parseSnapshot (formatMetricsJson plainHost.build options stats) = .ok s ∧
        s.sloPassed = some false := by
  obtain ⟨options, stats, hmain, hmissed⟩ := @exists_measured plainHost missedArguments
    (fun document ↦ decide ((Outcome.measured document.1 document.2).status plainHost = 3) &&
      (readSnapshot plainHost.build document.1 document.2).toOption.any
        fun s : Snapshot ↦ decide (s.sloPassed = some false)) (by decide +kernel)
  obtain ⟨hstatus, hread⟩ := Bool.and_eq_true_iff.mp hmissed
  obtain ⟨after, hrun, hafter⟩ := @stale_run helpScript
    (leftover (formatMetricsJson plainHost.build options stats)) _ (Function.update_self ..)
  cases hs : readSnapshot plainHost.build options stats with
  | error e =>
    rw [hs] at hread
    cases hread
  | ok s =>
    rw [hs] at hread
    exact ⟨options, stats, after, hmain, of_decide_eq_true hstatus,
      driven_stale helpScript_asksForHelp, hrun, hafter, not_preserved_stale, s,
      (parseSnapshot_formatMetricsJson ..).trans hs, of_decide_eq_true hread⟩

/-! ### Iterations -/

/-- What a call of the binary does to the temporary file. -/
def runEffect (run : Run) : Effect :=
  match run.left with
  | some document => .left (some document)
  | none => .untouched

private theorem on_runEffect (run : Run) (before : Option Bytes) :
    (runEffect run).on before = run.left.or before := by
  unfold runEffect
  cases run.left <;> rfl

/-- An iteration of the loop is a run and the command behind it. -/
theorem steps_iteration {run : Run} {loop : Pipeline.System}
    (hphase : system.phase = .run)
    (htemporary : system.files script.temporaryFile = loop.temporaryFile)
    (hmetrics : system.files script.metricsFile = loop.metricsFile)
    (hlooping : loop.looping = true) :
    ∃ command after,
      runAll (step script) system [.run run.status (runEffect run), command] = some after ∧
      after.files script.metricsFile = (iteration loop run).metricsFile ∧
      (after.phase = .run ↔ (iteration loop run).looping = true) := by
  have hon : (runEffect run).on (system.files script.temporaryFile) =
      run.left.or loop.temporaryFile := by rw [on_runEffect, htemporary]
  by_cases hzero : run.status = 0
  · cases hleft : run.left.or loop.temporaryFile with
    | none =>
      refine ⟨.mv false, ⟨Function.update system.files script.temporaryFile none, .stopped⟩, ?_, ?_⟩
      · simp [runAll, step, hphase, hzero, hon, hleft]
      · simp [iteration, hzero, hleft, files_metricsFile, hmetrics]
    | some document =>
      refine ⟨.mv true, ⟨Function.update (Function.update (Function.update system.files
        script.temporaryFile document) script.metricsFile document) script.temporaryFile none,
        .run⟩, ?_, ?_⟩
      · simp [runAll, step, hphase, hzero, hon, hleft]
      · simp [iteration, hzero, hleft, files_metricsFile, hlooping]
  · refine ⟨.rm true, ⟨Function.update system.files script.temporaryFile none, .run⟩, ?_, ?_⟩
    · simp [runAll, step, hphase, hzero]
    · simp [iteration, hzero, files_metricsFile, hmetrics, hlooping]

end MarketData.Monitor
