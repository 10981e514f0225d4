import MarketData.Engine.Artifact

/-!
# What the identity validation counts

The validation counts the elements whose error is above the tolerance. An error that is no number
is not above it, so that a NaN counts as a match.
-/

namespace MarketData

open Cpp

/-- The output element is a number within the tolerance of its input element. -/
def withinTolerance (tolerance : Double) (output : List Single) (index : Nat) : Bool :=
  output[index]?.any fun actual ↦
    decide (actual ≠ .nan) && (elementError actual (inputElement index)).le tolerance

/-- The error of the output element is above the tolerance. -/
def exceedsTolerance (tolerance : Double) (output : List Single) (index : Nat) : Bool :=
  output[index]?.any fun actual ↦ tolerance.lt (elementError actual (inputElement index))

/-- The output element is a NaN. -/
def isNanAt (output : List Single) (index : Nat) : Bool :=
  output[index]?.any fun actual ↦ decide (actual = .nan)

/-- The validation passes exactly when there is an output element for every input element and each
is a number within the tolerance, and it counts the compared elements that are not and the elements
without a counterpart. -/
structure ExactValidation (totalInput : UInt64) (output : List Single) (outputElements : UInt64)
    (tolerance : Double) (v : OutputValidation) : Prop where
  passed : v.passed = true ↔ outputElements = totalInput ∧
    ∀ index < totalInput.toNat, withinTolerance tolerance output index = true
  mismatches : v.mismatches.toNat =
    (List.range (min totalInput outputElements).toNat).countP
        (fun index ↦ !withinTolerance tolerance output index) +
      ((totalInput.toNat - outputElements.toNat) + (outputElements.toNat - totalInput.toNat))

/-! ### The loop -/

section

variable {total : UInt64} {output : List Single} {tolerance : Double}

private theorem validateElement_eq {v : OutputValidation} {index : Nat}
    (htotal : index < total.toNat) (houtput : index < output.length) :
    validateElement (benchmarkInput total) output tolerance v index =
      .ok (compareElement tolerance output[index] (inputElement index) v) := by
  have hactual : element output index = .ok output[index] := by
    rw [element_eq_ok, List.getElem?_eq_getElem houtput]
  have hexpected : element (benchmarkInput total) index = .ok (inputElement index) := by
    rw [element_eq_ok, benchmarkInput, List.getElem?_map, List.getElem?_range htotal,
      Option.map_some]
  rw [validateElement, hactual, ok_bind, hexpected, ok_bind]

private theorem exceedsTolerance_eq {index : Nat} (h : index < output.length) :
    exceedsTolerance tolerance output index =
      tolerance.lt (elementError output[index] (inputElement index)) := by
  rw [exceedsTolerance, List.getElem?_eq_getElem h, Option.any_some]

private theorem validateElements_mismatches (tolerance : Double) (start : OutputValidation)
    {n : Nat} (htotal : n ≤ total.toNat) (houtput : n ≤ output.length)
    (hsmall : start.mismatches.toNat + n < 2 ^ 64) :
    ∃ v, (List.range n).foldlM (validateElement (benchmarkInput total) output tolerance) start =
        .ok v ∧
      v.mismatches.toNat = start.mismatches.toNat +
        (List.range n).countP (exceedsTolerance tolerance output) := by
  induction n with
  | zero => exact ⟨start, rfl, rfl⟩
  | succ n ih =>
    obtain ⟨before, hbefore, hcount⟩ := ih (by omega) (by omega) (by omega)
    have hle : (List.range n).countP (exceedsTolerance tolerance output) ≤ n := by
      simpa using List.countP_le_length (p := exceedsTolerance tolerance output) (l := List.range n)
    rw [List.range_succ, List.foldlM_append, hbefore, ok_bind, List.foldlM_cons,
      validateElement_eq (by omega) (by omega), ok_bind, List.countP_append, List.countP_singleton,
      exceedsTolerance_eq (by omega)]
    refine ⟨_, rfl, ?_⟩
    rw [compareElement]
    split
    · rw [UInt64.toNat_add, hcount, Nat.mod_eq_of_lt]
      · simp
        omega
      · simp
        omega
    · simpa using hcount

/-! ### NaNs -/

private theorem elementError_ne_nan {actual : Single} (h : actual ≠ .nan) (index : Nat) :
    elementError actual (inputElement index) ≠ .nan := by
  have hinput := isFinite_inputElement index
  cases actual with
  | nan => exact absurd rfl h
  | infinite s =>
    rw [elementError_infinite s hinput]
    exact nofun
  | finite s m =>
    have hfinite : (elementError (.finite s m) (inputElement index)).isFinite = true :=
      isFinite_elementError rfl hinput
    intro hnan
    rw [hnan] at hfinite
    cases hfinite

private theorem lt_elementError_nan (index : Nat) :
    tolerance.lt (elementError .nan (inputElement index)) = false := by
  cases tolerance <;> rfl

private theorem outside_eq (htolerance : tolerance ≠ .nan) {index : Nat}
    (h : index < output.length) :
    (!withinTolerance tolerance output index) =
        (exceedsTolerance tolerance output index || isNanAt output index) ∧
      (exceedsTolerance tolerance output index && isNanAt output index) = false := by
  rw [withinTolerance, exceedsTolerance, isNanAt, List.getElem?_eq_getElem h, Option.any_some,
    Option.any_some, Option.any_some]
  by_cases hnan : output[index] = .nan
  · rw [hnan, lt_elementError_nan]
    exact ⟨rfl, rfl⟩
  · have hlt := Ieee.Number.lt_eq_not_le htolerance (elementError_ne_nan hnan index)
    simp [hnan, hlt]

private theorem countP_add {α : Type} {p q r : α → Bool} {l : List α}
    (h : ∀ a ∈ l, p a = (q a || r a) ∧ (q a && r a) = false) :
    l.countP p = l.countP q + l.countP r := by
  induction l with
  | nil => rfl
  | cons a l ih =>
    obtain ⟨⟨hp, hqr⟩, hl⟩ := List.forall_mem_cons.mp h
    rw [List.countP_cons, List.countP_cons, List.countP_cons, ih hl, hp]
    cases hq : q a <;> cases hr : r a <;> simp_all <;> omega

end

/-! ### The validation -/

/-- The smaller of two words has the smaller value. -/
theorem toNat_min (a b : UInt64) : (min a b).toNat = min a.toNat b.toNat := by
  change (if a ≤ b then a else b).toNat = _
  split
  · next h =>
    have h := UInt64.le_iff_toNat_le.mp h
    omega
  · next h =>
    have h := UInt64.lt_iff_toNat_lt.mp (UInt64.not_le.mp h)
    omega

private theorem countP_isNanAt {output : List Single} {n : Nat} :
    (List.range n).countP (isNanAt output) = 0 ↔ .nan ∉ output.take n := by
  rw [List.countP_eq_zero, List.mem_iff_getElem?, not_exists]
  constructor
  · intro h index hindex
    rw [List.getElem?_take] at hindex
    split at hindex
    · next hlt =>
      exact h index (List.mem_range.mpr hlt) (by rw [isNanAt, hindex]; rfl)
    · cases hindex
  · intro h index hindex hnan
    apply h index
    rw [List.getElem?_take, if_pos (List.mem_range.mp hindex)]
    obtain ⟨actual, hactual, hdecide⟩ := (Option.any_eq_true _ _).mp hnan
    rw [hactual, of_decide_eq_true hdecide]

private theorem toNat_difference (total elements : UInt64) :
    (if elements < total then total - elements else elements - total).toNat =
      (total.toNat - elements.toNat) + (elements.toNat - total.toNat) := by
  split
  · next h =>
    have h := UInt64.lt_iff_toNat_lt.mp h
    rw [UInt64.toNat_sub_of_le _ _ (UInt64.le_iff_toNat_le.mpr h.le)]
    omega
  · next h =>
    have h := UInt64.le_iff_toNat_le.mp (UInt64.not_lt.mp h)
    rw [UInt64.toNat_sub_of_le _ _ (UInt64.le_iff_toNat_le.mpr h)]
    omega

/-- A buffer that holds the reported elements is validated, whatever the tolerance is: the
mismatches are the elements above it and those without a counterpart. -/
theorem exists_validateIdentity {total elements : UInt64} {output : List Single}
    (tolerance : Double) (houtput : elements.toNat ≤ output.length) :
    ∃ v : OutputValidation, validateIdentity total output elements tolerance =
        .ok { v with passed := decide (v.mismatches = 0) } ∧
      v.mismatches.toNat = (total.toNat - elements.toNat) + (elements.toNat - total.toNat) +
        (List.range (min total elements).toNat).countP (exceedsTolerance tolerance output) := by
  have hmin := toNat_min total elements
  have hdifference := toNat_difference total elements
  have htotal := total.toNat_lt
  have helements := elements.toNat_lt
  generalize hn : (min total elements).toNat = n at hmin
  obtain ⟨v, hloop, hcount⟩ := validateElements_mismatches tolerance
    { comparedElements := min total elements
      mismatches := if elements < total then total - elements else elements - total }
    (show n ≤ total.toNat by omega) (show n ≤ output.length by omega)
    (by rw [hdifference]; omega)
  rw [hdifference] at hcount
  refine ⟨v, ?_, hcount⟩
  rw [validateIdentity, hn, hloop]
  rfl

/-- The validation is exact exactly when no compared element is a NaN. -/
theorem validateIdentity_exact {total elements : UInt64} {output : List Single} {tolerance : Double}
    (htolerance : tolerance ≠ .nan) (houtput : elements.toNat ≤ output.length) :
    ∃ v, validateIdentity total output elements tolerance = .ok v ∧
      (ExactValidation total output elements tolerance v ↔
        .nan ∉ output.take (min total elements).toNat) := by
  obtain ⟨v, hv, hcount⟩ := @exists_validateIdentity total _ _ tolerance houtput
  refine ⟨_, hv, ?_⟩
  have hmin := toNat_min total elements
  generalize hn : (min total elements).toNat = n at hmin hcount ⊢
  have hsplit : (List.range n).countP (fun index ↦ !withinTolerance tolerance output index) =
      (List.range n).countP (exceedsTolerance tolerance output) +
        (List.range n).countP (isNanAt output) :=
    countP_add fun index hindex ↦
      outside_eq htolerance (by have := List.mem_range.mp hindex; omega)
  rw [← countP_isNanAt]
  constructor
  · intro h
    have hmismatches := h.mismatches
    rw [hn, hsplit] at hmismatches
    simp only at hmismatches
    omega
  · intro hnone
    refine ⟨?_, ?_⟩
    · have hzero : v.mismatches = 0 ↔ v.mismatches.toNat = 0 := by
        rw [← UInt64.toNat_inj, UInt64.toNat_zero]
      have hwithin : (List.range n).countP (fun index ↦ !withinTolerance tolerance output index) =
          0 ↔ ∀ index < n, withinTolerance tolerance output index = true := by
        simp [List.countP_eq_zero]
      rw [decide_eq_true_eq, hzero]
      constructor
      · intro hall
        have hsame : elements = total := UInt64.toNat_inj.mp (by omega)
        subst hsame
        refine ⟨rfl, ?_⟩
        rw [show elements.toNat = n by omega]
        exact hwithin.mp (by omega)
      · rintro ⟨rfl, hall⟩
        have hnone' := hwithin.mpr fun index hindex ↦ hall index (by omega)
        omega
    · rw [hn, hsplit]
      simp only
      omega

/-! ### A run -/

section

variable {σ : Type} {engine : InferenceEngine σ} {clock : SteadyClock} {options : RunOptions}
  {s : σ} {m : Measurement σ}

/-- The output buffer keeps its capacity. -/
theorem length_output_runCalls (hm : runCalls engine clock options s = .ok m) :
    m.session.output.length = (outputCapacity engine options s).toNat := by
  rw [(runCalls_eq_ok hm).1]
  refine lastSession_invariant
    (P := fun session ↦ session.output.length = (outputCapacity engine options s).toNat) ?_ ?_
  · exact List.length_replicate
  · intro session hsession
    exact (engine.length_output ..).trans hsession

/-- The validation that a run reports is the one of the session behind its calls. -/
theorem validation_runBenchmark {stats : InferenceStats} {validation : Option OutputValidation}
    (hm : runCalls engine clock options s = .ok m)
    (hvalidation : validateRun options m.session = .ok validation)
    (h : runBenchmark engine clock options s = .ok stats) : stats.validation = validation := by
  obtain ⟨m', hreturned⟩ := exists_returned h
  obtain rfl := Except.ok.inj (hm.symm.trans hreturned.calls)
  exact Except.ok.inj (hreturned.validation.symm.trans hvalidation)

/-- A run whose engine reports no more elements than its buffer holds is validated, and exactly so
if and only if no output element that the validation compares is a NaN. -/
theorem identity_validation (hverify : options.verifyIdentity = true)
    (htolerance : Ieee.Number.zero.le options.validationTolerance = true)
    (hm : runCalls engine clock options s = .ok m)
    (hcapacity : m.session.outputElements ≤ outputCapacity engine options s) :
    ∃ v, validateRun options m.session = .ok (some v) ∧
      (∀ stats, runBenchmark engine clock options s = .ok stats → stats.validation = some v) ∧
      (ExactValidation options.totalInput m.session.output m.session.outputElements
          options.validationTolerance v ↔
        .nan ∉ m.session.output.take (min options.totalInput m.session.outputElements).toNat) := by
  have hnan : options.validationTolerance ≠ .nan := by
    intro hnan
    rw [hnan] at htolerance
    cases htolerance
  obtain ⟨v, hv, hexact⟩ := @validateIdentity_exact options.totalInput m.session.outputElements
    m.session.output _ hnan (by
      rw [length_output_runCalls hm]
      exact UInt64.le_iff_toNat_le.mp hcapacity)
  have hrun : validateRun options m.session = .ok (some v) := by
    rw [validateRun, if_pos hverify, hv]
    rfl
  exact ⟨v, hrun, fun stats hstats ↦ validation_runBenchmark hm hrun hstats, hexact⟩

end

/-- A run whose engine repeats its input is validated exactly. -/
theorem identity_validation_zero :
    ∃ m v, runCalls (constantEngine 0) tickingClock identityOptions () = .ok m ∧
      validateRun identityOptions m.session = .ok (some v) ∧
      ExactValidation identityOptions.totalInput m.session.output m.session.outputElements
        identityOptions.validationTolerance v := by
  obtain ⟨stats, hstats, -⟩ := exists_run 0 (p := fun _ ↦ True) (by decide +kernel)
  obtain ⟨m, hreturned⟩ := exists_returned hstats
  have hm := hreturned.calls
  have hsession : m.session = lastSession (constantEngine 0) identityOptions () :=
    (runCalls_eq_ok hm).1
  obtain ⟨v, hv, -, hexact⟩ := identity_validation (by decide) (by decide +kernel) hm
    (by rw [hsession]; decide +kernel)
  exact ⟨m, v, hm, hv, hexact.mpr (by rw [hsession]; decide +kernel)⟩

/-- A run whose output is a NaN passes without a mismatch. -/
theorem identity_validation_nan :
    ∃ stats v, runBenchmark (constantEngine .nan) tickingClock identityOptions () = .ok stats ∧
      stats.validation = some v ∧ v.passed = true ∧ v.mismatches = 0 ∧
      ¬ ExactValidation identityOptions.totalInput
        (lastSession (constantEngine .nan) identityOptions ()).output
        (lastSession (constantEngine .nan) identityOptions ()).outputElements
        identityOptions.validationTolerance v := by
  obtain ⟨stats, hstats, hpassed⟩ := exists_run .nan (p := fun stats ↦
    stats.validation.any (fun v ↦ v.passed && decide (v.mismatches = 0)) = true) (by decide +kernel)
  obtain ⟨v, hv, hzero⟩ := (Option.any_eq_true _ _).mp hpassed
  rw [Bool.and_eq_true, decide_eq_true_eq] at hzero
  refine ⟨stats, v, hstats, hv, hzero.1, hzero.2, fun hexact ↦ ?_⟩
  have hwithin := (hexact.passed.mp hzero.1).2 0 (by decide)
  have houtside : withinTolerance identityOptions.validationTolerance
      (lastSession (constantEngine .nan) identityOptions ()).output 0 = false := by
    decide +kernel
  rw [hwithin] at houtside
  cases houtside

end MarketData
