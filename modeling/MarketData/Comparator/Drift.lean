import MarketData.Comparator.Compiled
import Mathlib.Algebra.Order.Field.GeomSum

/-!
# Chains of comparisons

The gate compares two documents. Where every document of a series passes against the one before,
the latency may still creep: in each comparison by the relative budget, the tolerance and the
rounding of the compiled limit. The context cannot creep.
-/

namespace MarketData.Comparator

open ByteText Cpp Ieee

/-- The program ends with zero on these documents, on some command line with these options but for
the two paths. -/
def Passes (a : Arguments) (text text' : Bytes) : Prop :=
  ∃ files selfTest args baselinePath candidatePath,
    parseArguments {} args = .ok (.compare { a with baselinePath, candidatePath }) ∧
    files baselinePath = .text text ∧ files candidatePath = .text text' ∧
    exitCode files selfTest args = .ok 0

/-- The factor by which a latency may grow in a comparison that passes, rounding included. -/
def growth (a : Arguments) : ℚ := (1 + a.maxRegressionPercent.toRat / 100) * (1 + 1 / 2 ^ 50)

/-- What a latency may grow by besides. -/
def creep (a : Arguments) : ℚ :=
  a.absoluteToleranceUs.toRat * (1 + 1 / 2 ^ 50) + 1 / 2 ^ 1073

/-- The latency that a series of comparisons may end with. -/
def compounded (a : Arguments) (n : ℕ) (first : ℚ) : ℚ :=
  growth a ^ n * first + creep a * ∑ i ∈ Finset.range n, growth a ^ i

section

variable {files : Bytes → FileContents} {selfTest : Checked Nat} {args : List Bytes}
  {a : Arguments} {text text' : Bytes} {baseline candidate : RunMetrics}

/-- A comparison that ends with zero has read both files. -/
theorem exists_accepted (hargs : parseArguments {} args = .ok (.compare a))
    (h : exitCode files selfTest args = .ok 0) :
    ∃ baseline candidate, Accepted files a baseline candidate := by
  rw [exitCode, hargs, ok_bind] at h
  dsimp only at h
  cases hruns : compareRuns files a a.maxRegressionPercent a.absoluteToleranceUs with
  | error e =>
    rw [hruns] at h
    cases e <;> cases h
  | ok status =>
    simp only [compareRuns, bind_eq_ok, throwUnless_eq_ok] at hruns
    obtain ⟨-, hpaths, -, hscope, -, hmetric, text, hread, baseline, hbaseline, text', hread',
      candidate, hcandidate, -⟩ := hruns
    obtain ⟨hpath, hpath'⟩ := not_or.mp hpaths
    have hscopes : a.scope = ascii "e2e" ∨ a.scope = ascii "device" := by
      by_contra hnone
      exact hscope (not_or.mp hnone)
    exact ⟨baseline, candidate, hpath, hpath', hscopes, hmetric,
      bind_eq_ok.mpr ⟨text, hread, hbaseline⟩, bind_eq_ok.mpr ⟨text', hread', hcandidate⟩⟩

private theorem latency_le (h : Accepted files a baseline candidate)
    (hargs : parseArguments {} args = .ok (.compare a)) (hb : 0 ≤ baseline.latencyUs.toRat)
    (hzero : exitCode files selfTest args = .ok 0) :
    candidate.latencyUs.toRat ≤ growth a * baseline.latencyUs.toRat + creep a := by
  obtain ⟨hr, ht⟩ := budgeted_parse hargs budgeted_default
  have hle := ((h.exitCode_eq_zero hargs).mp hzero).2
  have hexact : growth a * baseline.latencyUs.toRat + creep a =
      limit baseline.latencyUs.toRat a.maxRegressionPercent.toRat a.absoluteToleranceUs.toRat +
        slack (limit baseline.latencyUs.toRat a.maxRegressionPercent.toRat
          a.absoluteToleranceUs.toRat) := by
    have hlimit : limit baseline.latencyUs.toRat a.maxRegressionPercent.toRat
        a.absoluteToleranceUs.toRat = baseline.latencyUs.toRat *
          (1 + a.maxRegressionPercent.toRat / 100) + a.absoluteToleranceUs.toRat := rfl
    rw [hlimit, growth, creep, slack]
    generalize (1 : ℚ) / 2 ^ 1073 = underflow
    ring
  rw [hexact]
  by_contra hlt
  have hover := not_le_limit_of_lt ⟨h.isFinite.1, hb⟩ hr ht h.isFinite.2 (not_le.mp hlt)
  rw [hle] at hover
  cases hover

private theorem Passes.exists_runs (h : Passes a text text') :
    ∃ baseline candidate, parseMetrics text a.scope a.metric = .ok baseline ∧
      parseMetrics text' a.scope a.metric = .ok candidate ∧ a.Budgeted ∧
      (a.allowContextChange = false → contextDifferences baseline candidate = []) ∧
      (0 ≤ baseline.latencyUs.toRat →
        candidate.latencyUs.toRat ≤ growth a * baseline.latencyUs.toRat + creep a) := by
  obtain ⟨files, selfTest, args, p, q, hargs, hfile, hfile', hzero⟩ := h
  obtain ⟨baseline, candidate, haccepted⟩ := exists_accepted hargs hzero
  obtain ⟨text₁, hread, hbaseline⟩ := bind_eq_ok.mp haccepted.baseline
  obtain ⟨text₂, hread', hcandidate⟩ := bind_eq_ok.mp haccepted.candidate
  obtain rfl := FileContents.text.inj (hfile.symm.trans (readFile_eq_ok.mp hread))
  obtain rfl := FileContents.text.inj (hfile'.symm.trans (readFile_eq_ok.mp hread'))
  have hcontext := ((haccepted.exitCode_eq_zero hargs).mp hzero).1
  have hgrowth := fun hb ↦ latency_le haccepted hargs hb hzero
  obtain ⟨hr, ht⟩ := budgeted_parse hargs budgeted_default
  refine ⟨baseline, candidate, hbaseline, hcandidate, ⟨hr, ht⟩, fun hallow ↦ ?_, hgrowth⟩
  exact hcontext.resolve_left (by rw [hallow]; exact Bool.false_ne_true)

end

/-! ### A series -/

private theorem compounded_zero (a : Arguments) (first : ℚ) : compounded a 0 first = first := by
  simp [compounded]

private theorem compounded_succ (a : Arguments) (n : ℕ) (first : ℚ) :
    compounded a (n + 1) first = growth a * compounded a n first + creep a := by
  rw [compounded, compounded, geom_sum_succ]
  ring

private theorem growth_nonneg {a : Arguments} (h : a.Budgeted) : 0 ≤ growth a := by
  have hr := h.percent.toRat_nonneg
  unfold growth
  positivity

private theorem sameContext_trans {a b c : RunMetrics} (h : contextDifferences a b = [])
    (h' : contextDifferences b c = []) : contextDifferences a c = [] := by
  rw [contextDifferences_eq_nil] at h h' ⊢
  obtain ⟨h1, h2, h3, h4, h5⟩ := h
  obtain ⟨h1', h2', h3', h4', h5'⟩ := h'
  exact ⟨h1.trans h1', h2.trans h2', h3.trans h3', h4.trans h4', h5.trans h5'⟩

section

variable {a : Arguments} {text : ℕ → Bytes} {n : ℕ} {first last : RunMetrics}

private theorem series_bounded
    (hpass : ∀ i < n, Passes a (text i) (text (i + 1)))
    (hnonneg : ∀ i < n, ∀ m, parseMetrics (text i) a.scope a.metric = .ok m →
      0 ≤ m.latencyUs.toRat)
    (hfirst : parseMetrics (text 0) a.scope a.metric = .ok first)
    (hlast : parseMetrics (text n) a.scope a.metric = .ok last) :
    last.latencyUs.toRat ≤ compounded a n first.latencyUs.toRat ∧
      (a.allowContextChange = false → contextDifferences first last = []) := by
  induction n generalizing last with
  | zero =>
    obtain rfl := Except.ok.inj (hfirst.symm.trans hlast)
    rw [compounded_zero]
    exact ⟨le_rfl, fun _ ↦ contextDifferences_self _⟩
  | succ n ih =>
    obtain ⟨baseline, candidate, hbaseline, hcandidate, hbudgets, hcontext, hgrowth⟩ :=
      (hpass n (by omega)).exists_runs
    obtain rfl := Except.ok.inj (hcandidate.symm.trans hlast)
    obtain ⟨hbefore, hsame⟩ := ih (fun i hi ↦ hpass i (by omega))
      (fun i hi ↦ hnonneg i (by omega)) hbaseline
    refine ⟨?_, fun hallow ↦ sameContext_trans (hsame hallow) (hcontext hallow)⟩
    calc candidate.latencyUs.toRat
        ≤ growth a * baseline.latencyUs.toRat + creep a :=
          hgrowth (hnonneg n (by omega) baseline hbaseline)
      _ ≤ growth a * compounded a n first.latencyUs.toRat + creep a :=
          add_le_add_left (mul_le_mul_of_nonneg_left hbefore (growth_nonneg hbudgets)) _
      _ = compounded a (n + 1) first.latencyUs.toRat := (compounded_succ ..).symm

/-- In a series of documents that pass one after the other, the last latency is bounded by the
compound growth from the first, and the first context is kept unless a change is allowed. So the
last document passes against the first as soon as the budgets of that comparison leave room. -/
theorem drift_bounded
    (hpass : ∀ i < n, Passes a (text i) (text (i + 1)))
    (hnonneg : ∀ i ≤ n, ∀ m, parseMetrics (text i) a.scope a.metric = .ok m →
      0 ≤ m.latencyUs.toRat)
    (hfirst : parseMetrics (text 0) a.scope a.metric = .ok first)
    (hlast : parseMetrics (text n) a.scope a.metric = .ok last) :
    last.latencyUs.toRat ≤ compounded a n first.latencyUs.toRat ∧
    (a.allowContextChange = false → contextDifferences first last = []) ∧
    ∀ (files : Bytes → FileContents) (selfTest : Checked Nat) (args : List Bytes)
      (direct : Arguments) (exact : ℚ),
      parseArguments {} args = .ok (.compare direct) → Accepted files direct first last →
      (direct.allowContextChange = true ∨ a.allowContextChange = false) →
      exact = first.latencyUs.toRat * (1 + direct.maxRegressionPercent.toRat / 100) +
        direct.absoluteToleranceUs.toRat →
      compounded a n first.latencyUs.toRat ≤ exact - slack exact →
      exitCode files selfTest args = .ok 0 := by
  obtain ⟨hbound, hcontext⟩ :=
    series_bounded hpass (fun i hi ↦ hnonneg i (Nat.le_of_lt hi)) hfirst hlast
  refine ⟨hbound, hcontext, ?_⟩
  intro files selfTest args direct exact hargs haccepted hallow hexact hroom
  obtain ⟨hr, ht⟩ := budgeted_parse hargs budgeted_default
  have hbaseline : NonNegative first.latencyUs :=
    ⟨haccepted.isFinite.1, hnonneg 0 (by omega) first hfirst⟩
  subst hexact
  exact (haccepted.exitCode_eq_zero hargs).mpr ⟨hallow.imp_right hcontext,
    le_limit_of_le hbaseline hr ht haccepted.isFinite.2 (hbound.trans hroom)⟩

/-- Documents whose percentile grows from three microseconds, by a twentieth at most. -/
def grownText : ℕ → Bytes
  | 0 => sampleText (ascii "3")
  | 1 => sampleText (ascii "3.15")
  | _ => sampleText (ascii "3.3")

private theorem passes_grown : ∀ i < 2, Passes {} (grownText i) (grownText (i + 1)) := by
  intro i hi
  have hzero : ∀ i < 2, exitCode
      (fun path ↦ .text (if path = ascii "a.json" then grownText i else grownText (i + 1)))
      (.ok 0) sampleCommand = .ok 0 := by decide +kernel
  refine ⟨fun path ↦ .text (if path = ascii "a.json" then grownText i else grownText (i + 1)),
    .ok 0, sampleCommand, ascii "a.json", ascii "b.json",
    parseArguments_sampleCommand {}, ?_, ?_, hzero i hi⟩
  · exact congrArg FileContents.text (if_pos rfl)
  · exact congrArg FileContents.text (if_neg (by decide))

private theorem nonneg_grown : ∀ i ≤ 2, ∀ m,
    parseMetrics (grownText i) (ascii "e2e") (ascii "p99") = .ok m → 0 ≤ m.latencyUs.toRat := by
  have hnonneg : ∀ i ≤ 2, (parseMetrics (grownText i) (ascii "e2e") (ascii "p99")).toOption.all
      (fun m ↦ decide (0 ≤ m.latencyUs.toRat)) = true := by decide +kernel
  intro i hi m hm
  have h := hnonneg i hi
  rw [hm] at h
  exact of_decide_eq_true h

/-- The last of three documents is below the growth of two comparisons, in the first context. -/
theorem drift_bounded_grown : ∃ last,
    parseMetrics (grownText 2) (ascii "e2e") (ascii "p99") = .ok last ∧
      last.latencyUs.toRat ≤ compounded {} 2 (sampleMetrics (doubleOf 3)).latencyUs.toRat ∧
      contextDifferences (sampleMetrics (doubleOf 3)) last = [] := by
  have hfirst : parseMetrics (grownText 0) (ascii "e2e") (ascii "p99") =
      .ok (sampleMetrics (doubleOf 3)) := by decide +kernel
  obtain ⟨-, last, -, hlast, -⟩ := (passes_grown 1 (by decide)).exists_runs
  obtain ⟨hbound, hcontext, -⟩ :=
    @drift_bounded {} grownText 2 _ _ passes_grown nonneg_grown hfirst hlast
  exact ⟨last, hlast, hbound, hcontext rfl⟩

end

end MarketData.Comparator
