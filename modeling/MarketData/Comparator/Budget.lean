import MarketData.Comparator.Gate
import Mathlib.Tactic.Linarith
import Mathlib.Tactic.FieldSimp

/-!
# Reflexivity and monotonicity of the regression gate

In exact arithmetic the gate is a linear bound on the candidate. A document passes against
itself, and a larger budget keeps a pass, exactly when the baseline latency is not negative.
-/

namespace MarketData.Comparator

open ByteText Cpp Ieee

/-- The arguments name two files that are read as the given metrics. -/
structure Accepted (files : Bytes → FileContents) (a : Arguments)
    (baseline candidate : RunMetrics) : Prop where
  baselinePath : a.baselinePath ≠ []
  candidatePath : a.candidatePath ≠ []
  scope : a.scope = ascii "e2e" ∨ a.scope = ascii "device"
  metric : a.metric ∈ validMetrics
  baseline : (readFile files a.baselinePath >>= fun text ↦ parseMetrics text a.scope a.metric) =
    .ok baseline
  candidate : (readFile files a.candidatePath >>= fun text ↦ parseMetrics text a.scope a.metric) =
    .ok candidate

/-- The exit code in exact arithmetic, for a budget of two rational numbers. -/
def exactExitCode (files : Bytes → FileContents) (a : Arguments) (r t : ℚ) : Checked Nat :=
  handled (compareRuns files a r t)

/-- Metrics agree in their context with themselves. -/
theorem contextDifferences_self (m : RunMetrics) : contextDifferences m m = [] := by
  simp [contextDifferences]

section

variable {files : Bytes → FileContents} {a : Arguments} {baseline candidate : RunMetrics}

/-- Accepted files are compared by their metrics. -/
theorem Accepted.compareRuns_eq {α : Type} [GateArithmetic α]
    (h : Accepted files a baseline candidate) (r t : α) :
    compareRuns files a r t =
      .ok (if a.allowContextChange = false ∧ contextDifferences baseline candidate ≠ [] then 4
        else if passed baseline candidate r t then 0 else 1) := by
  obtain ⟨text, hread, hbaseline⟩ := bind_eq_ok.mp h.baseline
  obtain ⟨text', hread', hcandidate⟩ := bind_eq_ok.mp h.candidate
  have hpaths : ¬ (a.baselinePath = [] ∨ a.candidatePath = []) :=
    not_or.mpr ⟨h.baselinePath, h.candidatePath⟩
  have hscope : ¬ (a.scope ≠ ascii "e2e" ∧ a.scope ≠ ascii "device") := by
    rintro ⟨he, hd⟩
    exact h.scope.elim he hd
  simp only [compareRuns, throwUnless, if_pos hpaths, if_pos hscope, if_pos h.metric, ok_bind,
    hread, hbaseline, hread', hcandidate]
  split
  · rfl
  · split <;> rfl

/-- A comparison of equal contexts exits with zero exactly when the candidate is in the limit. -/
theorem exactExitCode_eq_zero (h : Accepted files a baseline candidate)
    (hc : contextDifferences baseline candidate = []) (r t : ℚ) :
    exactExitCode files a r t = .ok 0 ↔
      candidate.latencyUs.toRat ≤ baseline.latencyUs.toRat * (1 + r / 100) + t := by
  have hpassed : passed baseline candidate r t =
      decide (candidate.latencyUs.toRat ≤ baseline.latencyUs.toRat * (1 + r / 100) + t) := rfl
  rw [exactExitCode, h.compareRuns_eq, if_neg (fun hn ↦ hn.2 hc), hpassed, handled_ok]
  by_cases hle : candidate.latencyUs.toRat ≤ baseline.latencyUs.toRat * (1 + r / 100) + t
  · simp [hle]
  · simp [hle]

end

/-! ### The linear bound -/

/-- A number is within every nonnegative budget of itself exactly when it is not negative. -/
theorem le_limit_self_iff {b : ℚ} :
    (∀ r t : ℚ, 0 ≤ r → 0 ≤ t → b ≤ b * (1 + r / 100) + t) ↔ 0 ≤ b := by
  constructor
  · intro h
    have h100 := h 100 0 (by norm_num) le_rfl
    linarith
  · intro hb r t hr ht
    have hbr : 0 ≤ b * r := mul_nonneg hb hr
    linarith

/-- Larger budgets keep a number within the limit exactly when the baseline is not negative. -/
theorem limit_mono_iff {b c : ℚ} :
    (∀ r t r' t' : ℚ, 0 ≤ r → 0 ≤ t → r ≤ r' → t ≤ t' → c ≤ b * (1 + r / 100) + t →
      c ≤ b * (1 + r' / 100) + t') ↔ 0 ≤ b := by
  constructor
  · intro h
    by_contra hb
    have hneg : 0 < -b := by linarith
    -- A tolerance that lets the candidate pass, and a percentage that takes more than that away.
    let t := max 0 (c - b)
    let r := 100 * (b + t - c + 1) / -b
    have ht : c - b ≤ t := le_max_right _ _
    have hr : 0 ≤ r := div_nonneg (by linarith) hneg.le
    have hlimit : b * (1 + r / 100) + t = c - 1 := by
      have hne : b ≠ 0 := by linarith
      simp only [r]
      field_simp
      ring
    have hpass := h 0 t r t le_rfl (le_max_left _ _) hr le_rfl (by linarith)
    linarith
  · intro hb r t r' t' _ _ hr ht hc
    have hbr : b * r ≤ b * r' := mul_le_mul_of_nonneg_left hr hb
    linarith

/-! ### The gate -/

/-- In exact arithmetic a document passes against itself under every budget exactly when its
latency is not negative, and with equal contexts a larger budget keeps a pass exactly when the
baseline latency is not negative. -/
theorem gate_law {files : Bytes → FileContents} {a : Arguments} {baseline candidate : RunMetrics}
    (h : Accepted files a baseline candidate) :
    (files a.baselinePath = files a.candidatePath →
      ((∀ r t : ℚ, 0 ≤ r → 0 ≤ t → exactExitCode files a r t = .ok 0) ↔
        0 ≤ baseline.latencyUs.toRat)) ∧
    (contextDifferences baseline candidate = [] →
      ((∀ r t r' t' : ℚ, 0 ≤ r → 0 ≤ t → r ≤ r' → t ≤ t' →
          exactExitCode files a r t = .ok 0 → exactExitCode files a r' t' = .ok 0) ↔
        0 ≤ baseline.latencyUs.toRat)) := by
  constructor
  · intro hsame
    have hmetrics : candidate = baseline := by
      obtain ⟨text, hread, hbaseline⟩ := bind_eq_ok.mp h.baseline
      obtain ⟨text', hread', hcandidate⟩ := bind_eq_ok.mp h.candidate
      obtain rfl : text = text' :=
        FileContents.text.inj
          ((readFile_eq_ok.mp hread).symm.trans (hsame.trans (readFile_eq_ok.mp hread')))
      exact Except.ok.inj (hcandidate.symm.trans hbaseline)
    subst hmetrics
    simp only [exactExitCode_eq_zero h (contextDifferences_self _)]
    exact le_limit_self_iff
  · intro hc
    simp only [exactExitCode_eq_zero h hc]
    exact limit_mono_iff

/-- The options of the short comparisons. -/
def sampleArguments : Arguments where
  baselinePath := ascii "a.json"
  candidatePath := ascii "b.json"

/-- A document with the given text as its percentile. -/
def sampleText (latency : Bytes) : Bytes :=
  ascii "\x7b\"backend\":\"mock\",\"environment\":\x7b\"device\":\"cpu\"\x7d,\"input_size\":8," ++
    ascii "\"batch_size\":1,\"cuda_graph\":false,\"latency_us\":\x7b\"end_to_end\":\x7b\"p99\":" ++
    latency ++ ascii "\x7d\x7d\x7d"

/-- A document that is read with a percentile is compared with itself by it. -/
theorem accepted_sample {latency : Bytes} {m : RunMetrics}
    (h : parseMetrics (sampleText latency) (ascii "e2e") (ascii "p99") = .ok m) :
    Accepted (fun _ ↦ .text (sampleText latency)) sampleArguments m m := by
  have hread : ∀ path, readFile (fun _ ↦ .text (sampleText latency)) path =
      .ok (sampleText latency) := fun _ ↦ readFile_eq_ok.mpr rfl
  refine ⟨by decide, by decide, by decide, by decide, ?_, ?_⟩
  · rw [hread, ok_bind]
    exact h
  · rw [hread, ok_bind]
    exact h

/-- The metrics of a sample document. -/
def sampleMetrics (latency : Double) : RunMetrics :=
  ⟨latency, ascii "mock", ascii "cpu", 8, 1, false⟩

/-- A latency of three microseconds passes against itself with ten percent and a tolerance. -/
theorem gate_law_three :
    exactExitCode (fun _ ↦ .text (sampleText (ascii "3"))) sampleArguments 10 (1 / 2) = .ok 0 := by
  have h : Accepted (fun _ ↦ .text (sampleText (ascii "3"))) sampleArguments
      (sampleMetrics (doubleOf 3)) (sampleMetrics (doubleOf 3)) :=
    accepted_sample (by decide +kernel)
  exact ((gate_law h).1 rfl).mpr (by decide +kernel) 10 (1 / 2) (by norm_num) (by norm_num)

/-- A negative latency fails against itself as soon as the budget is relative. -/
theorem gate_negative :
    parseMetrics (sampleText (ascii "-1")) (ascii "e2e") (ascii "p99") =
        .ok (sampleMetrics (doubleOf 1).neg) ∧
      exactExitCode (fun _ ↦ .text (sampleText (ascii "-1"))) sampleArguments 0 0 = .ok 0 ∧
      exactExitCode (fun _ ↦ .text (sampleText (ascii "-1"))) sampleArguments 100 0 = .ok 1 := by
  decide +kernel

end MarketData.Comparator
