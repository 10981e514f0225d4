import MarketData.Exporter.Metrics
import MarketData.Exporter.Samples
import MarketData.Ingress.Main

/-!
# One verdict in three places

The driver compares the percentile with the target, the writer compares them again, and
the exporter reads the result back from text. On every document the exporter accepts, the
exit code and the alert conditions of the exposition say the same.
-/

namespace MarketData.Pipeline

open ByteText Cpp Exporter Ingress Prometheus

/-- The value a scrape reads for a metric without labels. -/
def scraped (exposition : Bytes) (name : String) : Option Bytes :=
  (read exposition).bind (fun samples ↦ valueOf samples (ascii name))

/-- The alert condition of a missed objective. -/
def SloAlert (exposition : Bytes) : Prop :=
  scraped exposition "marketdata_inference_slo_configured" = some (ascii "1") ∧
    scraped exposition "marketdata_inference_slo_pass" = some (ascii "0")

/-- The alert condition of a failed validation. -/
def ValidationAlert (exposition : Bytes) : Prop :=
  scraped exposition "marketdata_inference_validation_enabled" = some (ascii "1") ∧
    scraped exposition "marketdata_inference_validation_pass" = some (ascii "0")

/-! ### What the exposition says -/

/-- A printed flag is one when it is set. -/
theorem printFlag_eq_one (flag : Bool) : printFlag flag = ascii "1" ↔ flag = true := by
  cases flag <;> decide

private theorem printFlag_eq_zero (flag : Bool) : printFlag flag = ascii "0" ↔ flag = false := by
  cases flag <;> decide

/-- The verdicts of a snapshot stand in its last part. -/
theorem scraped_renderSnapshot {name : String} (s : Snapshot) (t : Double)
    (h : name ∈ verdictMetrics) :
    scraped (renderSnapshot s t) name = valueOf (samples (verdictLines s)) (ascii name) := by
  rw [scraped, read_renderSnapshot, Option.bind_some, valueOf_snapshotLines s t h]

/-- The exporter's own metrics hide no verdict. -/
theorem scraped_append {name : String} (state : ExporterState) (loadSuccess : Bool)
    (s : Snapshot) (t : Double) (h : name ∈ verdictMetrics) :
    scraped (renderExporterState state loadSuccess ++ renderSnapshot s t) name =
      scraped (renderSnapshot s t) name := by
  rw [scraped, scraped, read_renderExporterState_append, read_renderSnapshot, Option.bind_some,
    Option.bind_some, valueOf_stateLines_append _ _ _ h]

/-- A snapshot raises the objective alert when it has a target and no passing verdict. -/
theorem sloAlert_renderSnapshot (s : Snapshot) (t : Double) :
    SloAlert (renderSnapshot s t) ↔
      s.sloTargetUs.isSome = true ∧ s.sloPassed.getD false = false := by
  rw [SloAlert, scraped_renderSnapshot s t (by decide), scraped_renderSnapshot s t (by decide),
    samples_verdictLines]
  simp [valueOf_cons, printFlag_eq_one, printFlag_eq_zero]

/-- A snapshot raises the validation alert when it was validated and did not pass. -/
theorem validationAlert_renderSnapshot (s : Snapshot) (t : Double) :
    ValidationAlert (renderSnapshot s t) ↔ s.validationPassed = some false := by
  rw [ValidationAlert, scraped_renderSnapshot s t (by decide),
    scraped_renderSnapshot s t (by decide), samples_verdictLines]
  cases s.validationPassed <;> simp [valueOf_cons, printFlag_eq_one, printFlag_eq_zero]

/-! ### What the driver says -/

private theorem isFinite_of_readDouble {x y : Double} (h : readDouble x = .ok y) :
    x.isFinite = true := by
  unfold readDouble at h
  split at h
  · assumption
  · cases h

private theorem ne_nan_of_isFinite {x : Double} (h : x.isFinite = true) : x ≠ .nan := by
  rintro rfl
  cases h

private theorem isFinite_p99 {d : LatencyDistribution} {d' : Distribution}
    (h : readDistribution d = .ok d') : d.p99Us.isFinite = true := by
  simp only [readDistribution, bind_eq_ok] at h
  obtain ⟨_, -, _, -, _, -, _, -, _, -, _, -, _, h, -⟩ := h
  exact isFinite_of_readDouble h

section

variable {build : Build} {options : RunOptions} {stats : InferenceStats} {s : Snapshot}

private theorem isFinite_selected (h : Agrees build options stats s) {d : LatencyDistribution}
    (hd : selectedDistribution options stats = some d) : d.p99Us.isFinite = true := by
  unfold selectedDistribution at hd
  split at hd
  · have hc := h.deviceCompute
    rw [hd, readDeviceCompute] at hc
    cases hr : readDistribution d with
    | error e =>
      rw [hr] at hc
      cases hc
    | ok d' => exact isFinite_p99 hr
  · obtain rfl := Option.some.inj hd
    exact isFinite_p99 h.endToEnd

/-- A snapshot has a target exactly when the options have one. -/
theorem isSome_sloTargetUs (h : Agrees build options stats s) :
    s.sloTargetUs.isSome = Ieee.Number.zero.lt options.targetLatencyUs := by
  have ht := h.sloTargetUs
  unfold readTarget at ht
  split at ht
  · next hlt =>
    cases hr : readDouble options.targetLatencyUs with
    | error e =>
      rw [hr] at ht
      cases ht
    | ok x =>
      rw [hr] at ht
      rw [hlt, ← (Except.ok.inj ht : some x = s.sloTargetUs)]
      rfl
  · next hlt =>
    rw [← Except.ok.inj ht]
    simpa using hlt

/-- The objective alert stands exactly for the exit codes of a missed target. -/
theorem sloAlert_iff (h : Agrees build options stats s) (t : Double) :
    SloAlert (renderSnapshot s t) ↔ targetExitCode options stats ≠ 0 := by
  rw [sloAlert_renderSnapshot, isSome_sloTargetUs h, h.sloPassed]
  cases hlt : Ieee.Number.zero.lt options.targetLatencyUs with
  | false => simp [targetExitCode, hlt]
  | true =>
    have hnan : options.targetLatencyUs ≠ .nan := by
      intro hn
      rw [hn] at hlt
      cases hlt
    have hle := Ieee.Number.lt_eq_not_le (ne_nan_of_isFinite Ieee.Number.isFinite_zero) hnan
    rw [hlt] at hle
    have hzero : options.targetLatencyUs.le .zero = false := by simpa using hle.symm
    have hp : ∀ {d}, selectedDistribution options stats = some d →
        options.targetLatencyUs.lt d.p99Us = !d.p99Us.le options.targetLatencyUs :=
      fun hd ↦ Ieee.Number.lt_eq_not_le hnan (ne_nan_of_isFinite (isFinite_selected h hd))
    unfold sloVerdict targetExitCode
    rw [hlt, hzero]
    unfold selectedDistribution at hp ⊢
    cases hscope : options.targetScope with
    | endToEnd =>
      have hd := hp (d := stats.endToEnd) (by rw [hscope])
      cases hc : stats.endToEnd.p99Us.le options.targetLatencyUs <;> simp [hd, hc]
    | deviceCompute =>
      cases hdevice : stats.deviceCompute with
      | none => simp
      | some d =>
        have hd := hp (d := d) (by rw [hscope, hdevice])
        cases hc : d.p99Us.le options.targetLatencyUs <;> simp [hd, hc]

/-- The validation alert stands exactly for a failed validation. -/
theorem validationAlert_iff (h : Agrees build options stats s) (t : Double) :
    ValidationAlert (renderSnapshot s t) ↔ ∃ v, stats.validation = some v ∧ v.passed = false := by
  rw [validationAlert_renderSnapshot, h.validationPassed, Option.map_eq_some_iff]

/-- A snapshot whose verdict is negative has a target, when the target is a finite number. -/
theorem isSome_of_sloPassed (h : Agrees build options stats s)
    (hfinite : options.targetLatencyUs.isFinite = true) (hpassed : s.sloPassed = some false) :
    s.sloTargetUs.isSome = true := by
  have hle : options.targetLatencyUs.le .zero = false := by
    by_contra hle
    have hnone := h.sloPassed
    rw [sloVerdict.eq_def, if_pos (by simpa using hle), hpassed] at hnone
    cases hnone
  rw [isSome_sloTargetUs h, Ieee.Number.lt_eq_not_le (ne_nan_of_isFinite Ieee.Number.isFinite_zero)
    (ne_nan_of_isFinite hfinite), hle]
  rfl

private theorem targetExitCode_cases (options : RunOptions) (stats : InferenceStats) :
    targetExitCode options stats = 0 ∨
    (targetExitCode options stats = 3 ∧
      ¬ (options.targetScope = .deviceCompute ∧ stats.deviceCompute = none)) ∨
    (targetExitCode options stats = 4 ∧
      options.targetScope = .deviceCompute ∧ stats.deviceCompute = none) := by
  unfold targetExitCode
  split
  · cases options.targetScope with
    | endToEnd =>
      dsimp only
      split <;> simp
    | deviceCompute =>
      cases stats.deviceCompute with
      | none => simp
      | some d =>
        dsimp only
        split <;> simp
  · simp

private theorem targetExitCode_eq_four (options : RunOptions) (stats : InferenceStats) :
    targetExitCode options stats = 4 ↔ targetExitCode options stats ≠ 0 ∧
      options.targetScope = .deviceCompute ∧ stats.deviceCompute = none := by
  rcases targetExitCode_cases options stats with h | ⟨h, hother⟩ | ⟨h, hdevice⟩
  · simp [h]
  · simp [h, hother]
  · simp [h, hdevice]

private theorem targetExitCode_mem (options : RunOptions) (stats : InferenceStats) :
    targetExitCode options stats = 0 ∨
    targetExitCode options stats = 3 ∨ targetExitCode options stats = 4 :=
  (targetExitCode_cases options stats).imp id (Or.imp And.left And.left)

private theorem verdictExitCode_failed
    (hv : ∃ v, stats.validation = some v ∧ v.passed = false) :
    verdictExitCode options stats = 5 := by
  obtain ⟨v, hs, hp⟩ := hv
  simp [verdictExitCode, hs, hp]

private theorem verdictExitCode_passed
    (hv : ¬ ∃ v, stats.validation = some v ∧ v.passed = false) :
    verdictExitCode options stats = targetExitCode options stats := by
  unfold verdictExitCode
  cases hs : stats.validation with
  | none => rfl
  | some v =>
    have hp : v.passed = true := by
      by_contra hp
      exact hv ⟨v, hs, by simpa using hp⟩
    simp [hp]

private theorem exitCode_written :
    exitCode options stats .written = verdictExitCode options stats := if_neg (by simp)

/-- The driver returns zero when the target was met and no validation failed. -/
theorem exitCode_eq_zero : exitCode options stats .written = 0 ↔
    targetExitCode options stats = 0 ∧ ¬ ∃ v, stats.validation = some v ∧ v.passed = false := by
  rw [exitCode_written]
  by_cases hv : ∃ v, stats.validation = some v ∧ v.passed = false
  · simp [verdictExitCode_failed hv, hv]
  · simp [verdictExitCode_passed hv, hv]

/-- The exit code of a run whose document was written and is accepted says what the alert
conditions of its exposition say. -/
theorem exitCode_iff_alerts (h : parseSnapshot (formatMetricsJson build options stats) = .ok s)
    (t : Double) :
    (exitCode options stats .written = 0 ↔
      ¬ SloAlert (renderSnapshot s t) ∧ ¬ ValidationAlert (renderSnapshot s t)) ∧
    (exitCode options stats .written = 5 ↔ ValidationAlert (renderSnapshot s t)) ∧
    (exitCode options stats .written = 3 ∨ exitCode options stats .written = 4 ↔
      ¬ ValidationAlert (renderSnapshot s t) ∧ SloAlert (renderSnapshot s t)) ∧
    (exitCode options stats .written = 4 ↔
      (¬ ValidationAlert (renderSnapshot s t) ∧ SloAlert (renderSnapshot s t)) ∧
        options.targetScope = .deviceCompute ∧ stats.deviceCompute = none) := by
  have ha := parseSnapshot_eq_ok.mp h
  have h4 := targetExitCode_eq_four options stats
  rw [sloAlert_iff ha, validationAlert_iff ha, exitCode_written]
  by_cases hv : ∃ v, stats.validation = some v ∧ v.passed = false
  · simp [verdictExitCode_failed hv, hv]
  · rw [verdictExitCode_passed hv]
    rcases targetExitCode_mem options stats with hc | hc | hc
    · simp [hc, hv]
    · simpa [hc, hv] using h4
    · simpa [hc, hv] using h4

end

/-- The short run exits with zero and raises no alert. -/
theorem exitCode_iff_alerts_sample :
    exitCode {} sampleStats .written = 0 ↔
      ¬ SloAlert (renderSnapshot sampleSnapshot .zero) ∧
        ¬ ValidationAlert (renderSnapshot sampleSnapshot .zero) :=
  (exitCode_iff_alerts parseSnapshot_sample .zero).1

end MarketData.Pipeline
