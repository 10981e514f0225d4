import MarketData.Comparator.Compiled
import MarketData.Engine.Document
import MarketData.Json.Compact
import MarketData.Json.Unique

/-!
# The report of the regression gate

What `main` of `tools/metrics_compare.cpp` prints: the report of a comparison, the differences of
two contexts and errors. The report is JSON unless a number of it overflows, and the numbers that
it shows agree with its verdict. The usage and what the unit tests print are not looked into.
-/

namespace MarketData.Comparator

open ByteText Cpp Ieee Json

/-- What a run prints, and how it ends. -/
structure Outcome where
  output : Bytes
  errors : Bytes
  status : Nat

/-- `join`, `tools/metrics_compare.cpp:317–324`: the texts with commas in between. -/
def join (values : List Bytes) : Bytes := (values.intersperse [comma]).flatten

/-- `operator<<` of a `double` under `std::fixed` and `std::setprecision(9)`: nine decimals. -/
def printFixed (x : Double) : Bytes := formatFixed 9 x

/-- The branch `flag ? "true" : "false"`. -/
def printOverride (flag : Bool) : Bytes := if flag then ascii "true" else ascii "false"

/-- The comparison `x == 0.0`, which holds of both zeros. -/
def isZero (x : Double) : Bool := x.le .zero && Number.zero.le x

/-- The change of the latency in percent, where the baseline is not zero. -/
def relativeChange (baseline candidate : RunMetrics) : Option Double :=
  if isZero baseline.latencyUs then none
  else some ((candidate.latencyUs / baseline.latencyUs - constant 1) * constant 100)

/-- The limit of a comparison. -/
def limitUs (a : Arguments) (baseline : RunMetrics) : Double :=
  limit baseline.latencyUs a.maxRegressionPercent a.absoluteToleranceUs

/-- The report. -/
def report (a : Arguments) (baseline candidate : RunMetrics) (passed : Bool) : Bytes :=
  stream [
    ascii "\x7b\"status\":\"", if passed then ascii "pass" else ascii "regression",
    ascii "\",\"scope\":\"", a.scope,
    ascii "\",\"metric\":\"", a.metric,
    ascii "\",\"baseline_us\":", printFixed baseline.latencyUs,
    ascii ",\"candidate_us\":", printFixed candidate.latencyUs,
    ascii ",\"limit_us\":", printFixed (limitUs a baseline),
    ascii ",\"relative_change_percent\":",
      match relativeChange baseline candidate with
      | some change => printFixed change
      | none => ascii "null",
    ascii ",\"max_regression_percent\":", printFixed a.maxRegressionPercent,
    ascii ",\"absolute_tolerance_us\":", printFixed a.absoluteToleranceUs,
    ascii ",\"context_override\":", printOverride a.allowContextChange,
    ascii "\x7d\n"]

/-- `main` behind the arguments and up to its handler, `tools/metrics_compare.cpp:446–492`, with
what it prints. -/
def compareOutcome (files : Bytes → FileContents) (a : Arguments) : Checked Outcome := do
  throwUnless (¬ (a.baselinePath = [] ∨ a.candidatePath = []))
    (ascii "--baseline and --candidate are required")
  throwUnless (¬ (a.scope ≠ ascii "e2e" ∧ a.scope ≠ ascii "device"))
    (ascii "--scope must be e2e or device")
  throwUnless (validMetrics.any (a.metric = ·)) (ascii "unsupported metric: " ++ a.metric)
  let baseline ← parseMetrics (← readFile files a.baselinePath) a.scope a.metric
  let candidate ← parseMetrics (← readFile files a.candidatePath) a.scope a.metric
  let differences := contextDifferences baseline candidate
  if a.allowContextChange = false ∧ differences ≠ [] then
    return ⟨[], ascii "incomparable benchmark context: " ++ join differences ++ [newline], 4⟩
  else
    let passed := candidate.latencyUs.le (limitUs a baseline)
    return ⟨report a baseline candidate passed, [], if passed then 0 else 1⟩

/-- The handler of `main`, `tools/metrics_compare.cpp:493–496`, which prints the error. -/
def reported (x : Checked Outcome) : Checked Outcome :=
  match x with
  | .error (.exception what) =>
    .ok ⟨[], ascii "metrics comparison error: " ++ what ++ [newline], 2⟩
  | outcome => outcome

/-- `main`, `tools/metrics_compare.cpp:394–498`, with what it prints: the status and the texts of
the two streams. -/
def outcome (files : Bytes → FileContents) (usage : Bytes) (selfTest : Checked Outcome)
    (arguments : List Bytes) : Checked Outcome :=
  reported (do
    match ← parseArguments {} arguments with
    | .help => return ⟨usage, [], 0⟩
    | .selfTest => selfTest
    | .compare a => compareOutcome files a)

/-! ### The status -/

private theorem status_compareOutcome (files : Bytes → FileContents) (a : Arguments) :
    Outcome.status <$> compareOutcome files a =
      compareRuns files a a.maxRegressionPercent a.absoluteToleranceUs := by
  have hpassed : ∀ baseline candidate : RunMetrics,
      candidate.latencyUs.le (limitUs a baseline) =
        passed baseline candidate a.maxRegressionPercent a.absoluteToleranceUs := fun _ _ ↦ rfl
  have hmetric : throwUnless (validMetrics.any (a.metric = ·))
      (ascii "unsupported metric: " ++ a.metric) =
      throwUnless (a.metric ∈ validMetrics) (ascii "unsupported metric: " ++ a.metric) := by
    simp [throwUnless]
  simp only [compareOutcome, compareRuns, map_bind, hpassed, hmetric]
  refine bind_congr fun _ ↦ bind_congr fun _ ↦ bind_congr fun _ ↦ bind_congr fun _ ↦
    bind_congr fun baseline ↦ bind_congr fun _ ↦ bind_congr fun candidate ↦ ?_
  split
  · rfl
  · cases passed baseline candidate a.maxRegressionPercent a.absoluteToleranceUs <;> rfl

private theorem status_reported (x : Checked Outcome) :
    Outcome.status <$> reported x = handled (Outcome.status <$> x) := by
  cases x with
  | ok outcome => rfl
  | error e => cases e <;> rfl

/-- What is printed does not change how the program ends. -/
theorem status_outcome (files : Bytes → FileContents) (usage : Bytes) (selfTest : Checked Outcome)
    (arguments : List Bytes) :
    Outcome.status <$> outcome files usage selfTest arguments =
      exitCode files (Outcome.status <$> selfTest) arguments := by
  rw [outcome, status_reported, exitCode, map_bind]
  congr 1
  refine bind_congr fun request ↦ ?_
  cases request with
  | help => rfl
  | selfTest => rfl
  | compare a => exact status_compareOutcome files a

/-! ### The report as a tree -/

/-- A key as a value. -/
def wordNode (k : Key) : Value := .string k.literal

/-- The token of the relative change. -/
def changeNode (change : Option Double) : Value :=
  match change with
  | some change => fixedNode 9 change
  | none => nullNode

/-- The token of the override. -/
def overrideNode (flag : Bool) : Value :=
  .scalar ⟨printOverride flag, by cases flag <;> decide⟩

/-- The word of a verdict. -/
def verdictKey (passed : Bool) : Key :=
  if passed then ⟨"pass", by decide⟩ else ⟨"regression", by decide⟩

/-- The member of the scope has a key. -/
theorem isKey_scope : IsKey (ascii "scope") := by decide

/-- The members of the report. -/
def reportMembers (scope metric : Key) (a : Arguments) (baseline candidate : RunMetrics)
    (passed : Bool) : Members :=
  compact ⟨"status", by decide⟩ (wordNode (verdictKey passed)) [
    (⟨"scope", isKey_scope⟩, wordNode scope),
    (⟨"metric", by decide⟩, wordNode metric),
    (⟨"baseline_us", by decide⟩, fixedNode 9 baseline.latencyUs),
    (⟨"candidate_us", by decide⟩, fixedNode 9 candidate.latencyUs),
    (⟨"limit_us", by decide⟩, fixedNode 9 (limitUs a baseline)),
    (⟨"relative_change_percent", by decide⟩, changeNode (relativeChange baseline candidate)),
    (⟨"max_regression_percent", by decide⟩, fixedNode 9 a.maxRegressionPercent),
    (⟨"absolute_tolerance_us", by decide⟩, fixedNode 9 a.absoluteToleranceUs),
    (⟨"context_override", by decide⟩, overrideNode a.allowContextChange)]

/-- The report with the line break behind it. -/
def reportDocument (scope metric : Key) (a : Arguments) (baseline candidate : RunMetrics)
    (passed : Bool) : Document :=
  ⟨noSpace, .object (reportMembers scope metric a baseline candidate passed), lineBreak 0⟩

private theorem text_wordNode (k : Key) :
    (wordNode k).text = ascii "\"" ++ (ascii k.name ++ ascii "\"") := by
  rw [wordNode, Value.text, Literal.quoted, k.text_literal]
  rfl

private theorem text_changeNode (change : Option Double) :
    (changeNode change).text =
      match change with
      | some change => printFixed change
      | none => ascii "null" := by
  cases change <;> rfl

private theorem name_verdictKey (passed : Bool) :
    ascii (verdictKey passed).name = if passed then ascii "pass" else ascii "regression" := by
  cases passed <;> rfl

set_option maxRecDepth 4000 in
/-- The report spells its tree. -/
theorem report_document {scope metric : Key} {a : Arguments} (hs : ascii scope.name = a.scope)
    (hm : ascii metric.name = a.metric) (baseline candidate : RunMetrics) (passed : Bool) :
    report a baseline candidate passed =
      (reportDocument scope metric a baseline candidate passed).text := by
  simp only [reportDocument, Document.text, Value.text, reportMembers, text_compact_cons,
    text_compact_nil, text_compactName, text_wordNode, text_changeNode, name_verdictKey, hs, hm,
    report, stream, List.flatten_cons, List.flatten_nil, List.append_nil, List.append_assoc,
    List.cons_append]
  rfl

private theorem strict_wordNode (k : Key) : (wordNode k).Strict := k.strict_literal

private theorem strict_changeNode (change : Option Double) :
    (changeNode change).Strict ↔ ∀ x ∈ change, x.isFinite = true := by
  cases change with
  | none => exact iff_of_true (.inl rfl) (by simp)
  | some x => simpa [changeNode] using strict_fixedNode (x := x) (by decide)

private theorem strict_overrideNode (flag : Bool) : (overrideNode flag).Strict := by
  cases flag
  · exact .inr (.inr (.inl rfl))
  · exact .inr (.inl rfl)

private theorem strict_reportMembers {scope metric : Key} {a : Arguments}
    {baseline candidate : RunMetrics} {passed : Bool} (ha : a.Budgeted)
    (hb : baseline.latencyUs.isFinite = true) (hc : candidate.latencyUs.isFinite = true) :
    (reportMembers scope metric a baseline candidate passed).Strict ↔
      (limitUs a baseline).isFinite = true ∧
        ∀ x ∈ relativeChange baseline candidate, x.isFinite = true := by
  have hnode : ∀ x : Double, (fixedNode 9 x).Strict ↔ x.isFinite = true :=
    fun x ↦ strict_fixedNode (by decide)
  simp [reportMembers, strict_compact_cons, strict_compact_nil, strict_wordNode,
    strict_changeNode, strict_overrideNode, hnode, ha.percent.isFinite, ha.tolerance.isFinite, hb,
    hc]

/-! ### What the report says -/

section

variable {files : Bytes → FileContents} {usage : Bytes} {selfTest : Checked Outcome}
  {args : List Bytes} {a : Arguments} {baseline candidate : RunMetrics}

private theorem Accepted.outcome_eq (h : Accepted files a baseline candidate)
    (hargs : parseArguments {} args = .ok (.compare a))
    (hc : a.allowContextChange = true ∨ contextDifferences baseline candidate = []) :
    outcome files usage selfTest args =
      .ok ⟨report a baseline candidate (candidate.latencyUs.le (limitUs a baseline)), [],
        if candidate.latencyUs.le (limitUs a baseline) then 0 else 1⟩ := by
  obtain ⟨text, hread, hbaseline⟩ := bind_eq_ok.mp h.baseline
  obtain ⟨text', hread', hcandidate⟩ := bind_eq_ok.mp h.candidate
  have hpaths : ¬ (a.baselinePath = [] ∨ a.candidatePath = []) :=
    not_or.mpr ⟨h.baselinePath, h.candidatePath⟩
  have hscope : ¬ (a.scope ≠ ascii "e2e" ∧ a.scope ≠ ascii "device") := by
    rintro ⟨he, hd⟩
    exact h.scope.elim he hd
  have hmetric : (validMetrics.any (a.metric = ·)) = true := by simpa using h.metric
  have hcontext :
      ¬ (a.allowContextChange = false ∧ contextDifferences baseline candidate ≠ []) := by
    rintro ⟨hallow, hdiffer⟩
    rcases hc with hc | hc
    · rw [hallow] at hc
      cases hc
    · exact hdiffer hc
  simp only [outcome, hargs, compareOutcome, throwUnless, if_pos hpaths, if_pos hscope,
    if_pos hmetric, ok_bind, hread, hbaseline, hread', hcandidate, if_neg hcontext]
  rfl

private theorem exists_key {value : Bytes} (names : List String)
    (hnames : ∀ name ∈ names, IsKey (ascii name)) (h : value ∈ names.map ascii) :
    ∃ k : Key, ascii k.name = value := by
  obtain ⟨name, hname, rfl⟩ := List.mem_map.mp h
  exact ⟨⟨name, hnames name hname⟩, rfl⟩

/-- The report of a comparison is JSON exactly when the limit and the change are finite. Its status
is the verdict, its latencies and its limit are off by half a unit of the ninth decimal at most,
and they do not contradict the verdict. -/
theorem report_tells (h : Accepted files a baseline candidate)
    (hargs : parseArguments {} args = .ok (.compare a))
    (hc : a.allowContextChange = true ∨ contextDifferences baseline candidate = []) :
    ∃ (d : Document) (status : Nat) (b c l : Token) (β γ : ℚ),
      outcome files usage selfTest args = .ok ⟨d.text, [], status⟩ ∧
      (IsObjectText d.text ↔ (limitUs a baseline).isFinite = true ∧
        ∀ x ∈ relativeChange baseline candidate, x.isFinite = true) ∧
      d.root.member "status" = some (wordNode (verdictKey (status = 0))) ∧
      d.root.member "baseline_us" = some (.scalar b) ∧ Denotes b.val β ∧
      d.root.member "candidate_us" = some (.scalar c) ∧ Denotes c.val γ ∧
      d.root.member "limit_us" = some (.scalar l) ∧
      |β - baseline.latencyUs.toRat| ≤ 1 / (2 * 10 ^ 9) ∧
      |γ - candidate.latencyUs.toRat| ≤ 1 / (2 * 10 ^ 9) ∧
      ((limitUs a baseline).isFinite = true → ∃ ℓ, Denotes l.val ℓ ∧
        |ℓ - (limitUs a baseline).toRat| ≤ 1 / (2 * 10 ^ 9) ∧
        (status = 0 → γ ≤ ℓ) ∧ (status ≠ 0 → ℓ ≤ γ)) := by
  obtain ⟨hb, hcf⟩ := h.isFinite
  obtain ⟨scope, hscope⟩ := exists_key ["e2e", "device"] (by decide)
    (show a.scope ∈ ["e2e", "device"].map ascii by simpa using h.scope)
  obtain ⟨metric, hmetric⟩ := exists_key ["mean", "p50", "p90", "p95", "p99", "max"]
    (by decide) h.metric
  let passed := candidate.latencyUs.le (limitUs a baseline)
  have hstatus : decide ((if passed then 0 else 1) = 0) = passed := by
    cases passed <;> rfl
  refine ⟨reportDocument scope metric a baseline candidate passed, if passed then 0 else 1,
    _, _, _, _, _, ?_, ?_, ?_, rfl, denotes_formatFixed (by decide) hb, rfl,
    denotes_formatFixed (by decide) hcf, rfl, abs_fixedValue_sub_le hb, abs_fixedValue_sub_le hcf,
    fun hl ↦ ⟨_, denotes_formatFixed (by decide) hl, abs_fixedValue_sub_le hl, ?_, ?_⟩⟩
  · rw [h.outcome_eq hargs hc, report_document hscope hmetric]
  · rw [isObjectText_text]
    exact (and_iff_left rfl).trans
      (strict_reportMembers (budgeted_parse hargs budgeted_default) hb hcf)
  · rw [hstatus]
    rfl
  · intro hzero
    have hle : passed = true := by
      rw [← hstatus, decide_eq_true_eq]
      exact hzero
    exact fixedValue_mono hcf hl ((Number.le_iff hcf hl).mp hle)
  · intro hone
    have hgt : passed = false := by
      rw [← hstatus, decide_eq_false_iff_not]
      exact hone
    refine fixedValue_mono hl hcf ?_
    have hnot : ¬ candidate.latencyUs.toRat ≤ (limitUs a baseline).toRat := by
      rw [← Number.le_iff hcf hl]
      exact fun hle ↦ absurd (hle.symm.trans hgt) (by decide)
    exact (not_le.mp hnot).le

end

/-- The comparison of three microseconds with themselves has a report. -/
theorem report_tells_three : ∃ (d : Document) (status : Nat),
    outcome (fun _ ↦ .text (sampleText (ascii "3"))) [] (.ok ⟨[], [], 0⟩) sampleCommand =
      .ok ⟨d.text, [], status⟩ := by
  have h : Accepted (fun _ ↦ .text (sampleText (ascii "3"))) sampleArguments
      (sampleMetrics (doubleOf 3)) (sampleMetrics (doubleOf 3)) :=
    accepted_sample (by decide +kernel)
  obtain ⟨d, status, -, -, -, -, -, houtcome, -⟩ :=
    report_tells h parseArguments_sample (.inr (contextDifferences_self _))
  exact ⟨d, status, houtcome⟩

end MarketData.Comparator
