import MarketData.Base.Error
import MarketData.Comparator.Budget

/-!
# The regression gate as it is compiled

The gate computes its limit in `double`, with a rounding behind every operation. Rounding is
monotone, so the laws of the exact gate hold of the compiled one, and its limit is off by a small
part of the exact limit.
-/

namespace MarketData.Comparator

open ByteText Cpp Ieee

/-! ### Budgets -/

/-- A finite number that is not negative. -/
structure NonNegative (x : Double) : Prop where
  isFinite : x.isFinite = true
  toRat_nonneg : 0 ≤ x.toRat

/-- Both budgets are finite and not negative. -/
structure Arguments.Budgeted (a : Arguments) : Prop where
  percent : NonNegative a.maxRegressionPercent
  tolerance : NonNegative a.absoluteToleranceUs

private theorem nonNegative_doubleOf {n : UInt64} (hn : n.toNat ≤ 2 ^ 53) :
    NonNegative (doubleOf n) := by
  obtain ⟨hf, hv⟩ : (doubleOf n).isFinite = true ∧ (doubleOf n).toRat = n.toNat :=
    Number.ofNat_eq hn (by decide)
  refine ⟨hf, ?_⟩
  rw [hv]
  exact Nat.cast_nonneg _

private theorem nonNegative_of_parse {value option : Bytes} {x : Double}
    (h : parseNonnegative value option = .ok x) : NonNegative x := by
  unfold parseNonnegative at h
  split at h
  · next y hy =>
    split at h
    · cases h
    · next hlt =>
      obtain rfl := Except.ok.inj h
      have hf := isFinite_of_finiteToken hy
      refine ⟨hf, ?_⟩
      rw [Number.lt_eq hf Number.isFinite_zero, Number.toRat_zero] at hlt
      simpa using hlt
  · cases h

private theorem budgeted_set {value argument : Bytes} {a a' : Arguments}
    {set : Bytes → Arguments → Checked Arguments} (hset : valueOption? argument = some set)
    (h : set value a = .ok a') (ha : a.Budgeted) : a'.Budgeted := by
  unfold valueOption? at hset
  split at hset
  · obtain rfl := Option.some.inj hset
    obtain rfl := Except.ok.inj h
    exact ⟨ha.percent, ha.tolerance⟩
  split at hset
  · obtain rfl := Option.some.inj hset
    obtain rfl := Except.ok.inj h
    exact ⟨ha.percent, ha.tolerance⟩
  split at hset
  · obtain rfl := Option.some.inj hset
    obtain rfl := Except.ok.inj h
    exact ⟨ha.percent, ha.tolerance⟩
  split at hset
  · obtain rfl := Option.some.inj hset
    obtain rfl := Except.ok.inj h
    exact ⟨ha.percent, ha.tolerance⟩
  split at hset
  · obtain rfl := Option.some.inj hset
    obtain ⟨x, hx, h⟩ := bind_eq_ok.mp h
    obtain rfl := Except.ok.inj h
    exact ⟨nonNegative_of_parse hx, ha.tolerance⟩
  split at hset
  · obtain rfl := Option.some.inj hset
    obtain ⟨x, hx, h⟩ := bind_eq_ok.mp h
    obtain rfl := Except.ok.inj h
    exact ⟨ha.percent, nonNegative_of_parse hx⟩
  · cases hset

/-- The budgets that the arguments leave are finite and not negative. -/
theorem budgeted_parse {args : List Bytes} {a a' : Arguments}
    (h : parseArguments a args = .ok (.compare a')) (ha : a.Budgeted) : a'.Budgeted := by
  fun_induction parseArguments a args with
  | case1 a =>
    obtain rfl := Request.compare.inj (Except.ok.inj h)
    exact ha
  | case2 | case3 | case5 | case7 => cases h
  | case4 a argument hhelp hself set value rest hset ih =>
    obtain ⟨b, hb, h⟩ := bind_eq_ok.mp h
    exact ih b h (budgeted_set hset hb ha)
  | case6 a rest _ _ _ ih => exact ih h ⟨ha.percent, ha.tolerance⟩

/-- The default budgets are finite and not negative. -/
theorem budgeted_default : ({} : Arguments).Budgeted := by
  constructor
  · dsimp only
    exact nonNegative_doubleOf (by decide)
  · dsimp only
    exact nonNegative_doubleOf (by decide)

/-! ### The limit -/

private theorem constant_hundred :
    (constant 100 : Double).isFinite = true ∧ (constant 100 : Double).toRat = 100 := by
  obtain ⟨hf, hv⟩ := Number.ofNat_eq (F := binary64) (n := 100) (by decide) (by decide)
  exact ⟨hf, by exact_mod_cast hv⟩

private theorem constant_one :
    (constant 1 : Double).isFinite = true ∧ (constant 1 : Double).toRat = 1 := by
  obtain ⟨hf, hv⟩ := Number.ofNat_eq (F := binary64) (n := 1) (by decide) (by decide)
  exact ⟨hf, by exact_mod_cast hv⟩

/-- The factor that the relative budget allows. -/
def factor (percent : Double) : Double := constant 1 + percent / constant 100

private theorem limit_eq (b r t : Double) : limit b r t = (b.mul (factor r)).add t := rfl

private theorem exists_quotient {r : Double} (hr : NonNegative r) :
    ∃ z, r / (constant 100 : Double) = .round binary64 z (r.toRat / 100) ∧
      (Number.round binary64 z (r.toRat / 100)).isFinite = true ∧
      0 ≤ (Number.round binary64 z (r.toRat / 100)).toRat ∧
      (Number.round binary64 z (r.toRat / 100)).toRat ≤ 2 ^ 1018 := by
  obtain ⟨hf, hv⟩ := constant_hundred
  obtain ⟨z, hz⟩ := Number.exists_div_eq hr.isFinite hf (by rw [hv]; norm_num)
  rw [hv] at hz
  have h0 : 0 ≤ r.toRat / 100 := div_nonneg hr.toRat_nonneg (by norm_num)
  have hle : |r.toRat / 100| ≤ 2 ^ 1018 := by
    have hr2 : |r.toRat| ≤ 2 ^ 1024 := Number.abs_toRat_le (by decide)
    rw [abs_of_nonneg hr.toRat_nonneg] at hr2
    rw [abs_of_nonneg h0, div_le_iff₀ (by norm_num)]
    calc
      r.toRat ≤ 2 ^ 1018 * 2 ^ 6 := by rw [← pow_add]; exact hr2
      _ ≤ 2 ^ 1018 * 100 := mul_le_mul_of_nonneg_left (by norm_num) (by positivity)
  refine ⟨z, hz, Number.isFinite_round_of_le (by decide) hle, Number.toRat_round_nonneg h0, ?_⟩
  exact (le_abs_self _).trans (Number.abs_toRat_round_le (by decide) hle)

private theorem exists_factor {r : Double} (hr : NonNegative r) :
    ∃ z z', (Number.round binary64 z (r.toRat / 100)).isFinite = true ∧
      factor r = .round binary64 z' (1 + (Number.round binary64 z (r.toRat / 100)).toRat) ∧
      (factor r).isFinite = true ∧ 1 ≤ (factor r).toRat := by
  obtain ⟨z, hz, hf, h0, hle⟩ := exists_quotient hr
  obtain ⟨hone, hv⟩ := constant_one
  obtain ⟨z', hz'⟩ := Number.exists_add_eq hone hf
  have hfactor : factor r =
      .round binary64 z' (1 + (Number.round binary64 z (r.toRat / 100)).toRat) := by
    have hsum : factor r = Number.add (constant 1) (r / constant 100) := rfl
    rw [hsum, hz, hz', hv]
  have hsmall : |1 + (Number.round binary64 z (r.toRat / 100)).toRat| ≤ 2 ^ 1019 := by
    have hpow : (1 : ℚ) ≤ 2 ^ 1018 := one_le_pow₀ (by norm_num)
    rw [abs_of_nonneg (add_nonneg zero_le_one h0), pow_succ]
    generalize (2 : ℚ) ^ 1018 = p at hle hpow ⊢
    linarith
  have hfinite : (factor r).isFinite = true := by
    rw [hfactor]
    exact Number.isFinite_round_of_le (by decide) hsmall
  refine ⟨z, z', hf, hfactor, hfinite, ?_⟩
  have hle := Number.le_round (z := z') hone (x := 1 + (Number.round binary64 z
    (r.toRat / 100)).toRat) (by rw [hv]; linarith)
  rwa [← hfactor, Number.le_iff hone hfinite, hv] at hle

private theorem factor_mono {r r' : Double} (hr : NonNegative r) (hr' : NonNegative r')
    (h : r.toRat ≤ r'.toRat) : (factor r).toRat ≤ (factor r').toRat := by
  obtain ⟨z, w, hf, hfactor, hfinite, -⟩ := exists_factor hr
  obtain ⟨z', w', hf', hfactor', hfinite', -⟩ := exists_factor hr'
  have hquotient : (Number.round binary64 z (r.toRat / 100)).toRat ≤
      (Number.round binary64 z' (r'.toRat / 100)).toRat := by
    rw [← Number.le_iff hf hf']
    exact Number.round_le_round (by linarith)
  rw [← Number.le_iff hfinite hfinite', hfactor, hfactor']
  exact Number.round_le_round (by linarith)

/-- A larger baseline and larger budgets give no smaller limit. -/
theorem limit_mono {b b' r r' t t' : Double} (hb : NonNegative b) (hb' : NonNegative b')
    (hr : NonNegative r) (hr' : NonNegative r') (ht : NonNegative t) (ht' : NonNegative t')
    (hbb : b.toRat ≤ b'.toRat) (hrr : r.toRat ≤ r'.toRat) (htt : t.toRat ≤ t'.toRat) :
    (limit b r t).le (limit b' r' t') = true := by
  obtain ⟨-, -, -, -, hf, h1⟩ := exists_factor hr
  obtain ⟨-, -, -, -, hf', -⟩ := exists_factor hr'
  have hproduct : (b.mul (factor r)).le (b'.mul (factor r')) = true :=
    Number.mul_mono hb.isFinite hb'.isFinite hf hf' hb.toRat_nonneg hbb (zero_le_one.trans h1)
      (factor_mono hr hr' hrr)
  rw [limit_eq, limit_eq]
  exact Number.add_mono hproduct ht.isFinite ht'.isFinite htt

/-- The limit does not fall below the baseline. -/
theorem le_limit {b r t : Double} (hb : NonNegative b) (hr : NonNegative r) (ht : NonNegative t) :
    b.le (limit b r t) = true := by
  obtain ⟨-, -, -, -, hf, h1⟩ := exists_factor hr
  have hproduct : b.le (b.mul (factor r)) = true :=
    Number.le_mul hb.isFinite hb.toRat_nonneg hf h1
  rw [limit_eq]
  exact Number.le_of_le_of_le hproduct
    (Number.le_add (Number.ne_nan_of_le hproduct).2 ht.isFinite ht.toRat_nonneg)

/-! ### The error of the limit -/

/-- How far the compiled limit may be from an exact one. -/
def slack (exact : ℚ) : ℚ := exact / 2 ^ 50 + 1 / 2 ^ 1073

section

variable {u η b ρ t q f m l : ℚ}

private theorem abs_factor_sub_le (hu : 0 ≤ u) (hu' : u ≤ 1 / 16) (hη : 0 ≤ η) (hηu : η ≤ u / 8)
    (hρ : 0 ≤ ρ) (hq : |q - ρ| ≤ ρ * u + η) (hf : |f - (1 + q)| ≤ (1 + q) * u + η) :
    |f - (1 + ρ)| ≤ 3 * u * (1 + ρ) := by
  have hq' := abs_le.mp hq
  have hf' := abs_le.mp hf
  have hρu : 0 ≤ ρ * u := mul_nonneg hρ hu
  have hρuu : ρ * u * u ≤ ρ * u * (1 / 16) := mul_le_mul_of_nonneg_left hu' hρu
  have hηuu : η * u ≤ η * (1 / 16) := mul_le_mul_of_nonneg_left hu' hη
  have hqu : q * u ≤ (ρ + ρ * u + η) * u := mul_le_mul_of_nonneg_right (by linarith) hu
  rw [abs_le]
  constructor <;> linarith

private theorem abs_mul_sub_le (hb : 0 ≤ b) (hf : |f - (1 + ρ)| ≤ 3 * u * (1 + ρ)) :
    |b * f - b * (1 + ρ)| ≤ 3 * u * (b * (1 + ρ)) := by
  rw [← mul_sub, abs_mul, abs_of_nonneg hb]
  calc
    b * |f - (1 + ρ)| ≤ b * (3 * u * (1 + ρ)) := mul_le_mul_of_nonneg_left hf hb
    _ = 3 * u * (b * (1 + ρ)) := by ring

private theorem abs_product_sub_le (hu : 0 ≤ u) (hu' : u ≤ 1 / 16) (hb : 0 ≤ b) (hρ : 0 ≤ ρ)
    (hf : |f - (1 + ρ)| ≤ 3 * u * (1 + ρ)) (hm : |m - b * f| ≤ b * f * u + η) :
    |m - b * (1 + ρ)| ≤ 5 * u * (b * (1 + ρ)) + η := by
  have hB : 0 ≤ b * (1 + ρ) := mul_nonneg hb (by linarith)
  have huB : u * (b * (1 + ρ)) ≤ 1 / 16 * (b * (1 + ρ)) := mul_le_mul_of_nonneg_right hu' hB
  have huB0 : 0 ≤ u * (b * (1 + ρ)) := mul_nonneg hu hB
  have hbound := abs_le.mp (abs_mul_sub_le hb hf)
  have hbfu : b * f * u ≤ 2 * (b * (1 + ρ)) * u := mul_le_mul_of_nonneg_right (by linarith) hu
  have hm' := abs_le.mp hm
  rw [abs_le]
  constructor <;> linarith

private theorem abs_sum_sub_le (hu : 0 ≤ u) (hu' : u ≤ 1 / 16) (hη : 0 ≤ η) (hb : 0 ≤ b)
    (hρ : 0 ≤ ρ) (ht : 0 ≤ t) (hm : |m - b * (1 + ρ)| ≤ 5 * u * (b * (1 + ρ)) + η)
    (hl : |l - (m + t)| ≤ (m + t) * u + η) :
    |l - (b * (1 + ρ) + t)| ≤ 8 * u * (b * (1 + ρ) + t) + 4 * η := by
  have hB : 0 ≤ b * (1 + ρ) := mul_nonneg hb (by linarith)
  have huB : 0 ≤ u * (b * (1 + ρ)) := mul_nonneg hu hB
  have hut : 0 ≤ u * t := mul_nonneg hu ht
  have huuB : u * (b * (1 + ρ)) * u ≤ u * (b * (1 + ρ)) * (1 / 16) :=
    mul_le_mul_of_nonneg_left hu' huB
  have hηu : η * u ≤ η * (1 / 16) := mul_le_mul_of_nonneg_left hu' hη
  have hm' := abs_le.mp hm
  have hl' := abs_le.mp hl
  have hmu : m * u ≤ (b * (1 + ρ) + (5 * u * (b * (1 + ρ)) + η)) * u :=
    mul_le_mul_of_nonneg_right (by linarith) hu
  rw [abs_le]
  constructor <;> linarith

end

-- Half the distance from one to the next number.
private def roundoff : ℚ := 1 / 2 ^ 53

-- Half the least positive number.
private def underflow : ℚ := 1 / 2 ^ 1075

private theorem roundoff_nonneg : 0 ≤ roundoff := by
  unfold roundoff
  positivity

private theorem roundoff_le : roundoff ≤ 1 / 16 := by
  unfold roundoff
  norm_num

private theorem underflow_nonneg : 0 ≤ underflow := by
  unfold underflow
  positivity

private theorem underflow_le : underflow ≤ roundoff / 8 := by
  have hpow : (2 : ℚ) ^ 56 ≤ 2 ^ 1075 := pow_le_pow_right₀ (by norm_num) (by norm_num)
  calc
    underflow ≤ 1 / 2 ^ 56 := one_div_le_one_div_of_le (by positivity) hpow
    _ = roundoff / 8 := by norm_num [roundoff]

private theorem slack_eq (exact : ℚ) : slack exact = 8 * roundoff * exact + 4 * underflow := by
  have hpow : (2 : ℚ) ^ 1075 = 4 * 2 ^ 1073 := by rw [show 1075 = 2 + 1073 from rfl, pow_add]; rfl
  have hunderflow : 4 * underflow = 1 / 2 ^ 1073 := by
    rw [underflow, hpow]
    field_simp
  rw [slack, hunderflow, ← mul_one_div, add_left_inj, roundoff]
  ring

private theorem abs_round_sub_le {z : Bool} {x : ℚ} (h0 : 0 ≤ x)
    (hf : (Number.round binary64 z x).isFinite = true) :
    |(Number.round binary64 z x).toRat - x| ≤ x * roundoff + underflow := by
  have herror : |(Number.round binary64 z x).toRat - x| ≤ |x| / 2 ^ 53 + 1 / 2 ^ 1075 :=
    Number.abs_toRat_round_sub_le hf
  rwa [abs_of_nonneg h0, ← mul_one_div] at herror

private theorem toRat_lt_of_overflow {z : Bool} {x : ℚ} {c : Double} (h0 : 0 ≤ x)
    (hc : c.isFinite = true) (hf : (Number.round binary64 z x).isFinite = false) : c.toRat < x := by
  by_contra hle
  have habs : |x| ≤ |c.toRat| := abs_le_abs_of_nonneg h0 (not_lt.mp hle)
  rw [Number.isFinite_round_of_abs_le hc habs] at hf
  cases hf

private theorem abs_toRat_factor_sub_le {r : Double} (hr : NonNegative r) :
    |(factor r).toRat - (1 + r.toRat / 100)| ≤ 3 * roundoff * (1 + r.toRat / 100) := by
  obtain ⟨z, z', hq, hfactor, hf, -⟩ := exists_factor hr
  have h0 : 0 ≤ r.toRat / 100 := div_nonneg hr.toRat_nonneg (by norm_num)
  have hq0 : 0 ≤ (Number.round binary64 z (r.toRat / 100)).toRat := Number.toRat_round_nonneg h0
  rw [hfactor] at hf ⊢
  exact abs_factor_sub_le roundoff_nonneg roundoff_le underflow_nonneg underflow_le h0
    (abs_round_sub_le h0 hq) (abs_round_sub_le (add_nonneg zero_le_one hq0) hf)

-- The compiled limit is within the slack of the exact one, or it overflows and no finite number
-- exceeds the exact one by more than the slack.
private theorem limit_cases {b r t : Double} (hb : NonNegative b) (hr : NonNegative r)
    (ht : NonNegative t) :
    ((limit b r t).isFinite = true ∧
      |(limit b r t).toRat - limit b.toRat r.toRat t.toRat| ≤
        slack (limit b.toRat r.toRat t.toRat)) ∨
    ((limit b r t).isFinite = false ∧ ∀ c : Double, c.isFinite = true →
      c.toRat ≤ limit b.toRat r.toRat t.toRat + slack (limit b.toRat r.toRat t.toRat)) := by
  obtain ⟨-, -, -, -, hf, h1⟩ := exists_factor hr
  have hexact : (limit b.toRat r.toRat t.toRat : ℚ) =
      b.toRat * (1 + r.toRat / 100) + t.toRat := rfl
  have hρ : 0 ≤ r.toRat / 100 := div_nonneg hr.toRat_nonneg (by norm_num)
  have hB : 0 ≤ b.toRat * (1 + r.toRat / 100) := mul_nonneg hb.toRat_nonneg (by linarith)
  have huB : 0 ≤ roundoff * (b.toRat * (1 + r.toRat / 100)) := mul_nonneg roundoff_nonneg hB
  have hut : 0 ≤ roundoff * t.toRat := mul_nonneg roundoff_nonneg ht.toRat_nonneg
  have hη := underflow_nonneg
  have hbf : 0 ≤ b.toRat * (factor r).toRat :=
    mul_nonneg hb.toRat_nonneg (zero_le_one.trans h1)
  have hfactor := abs_toRat_factor_sub_le hr
  obtain ⟨z, hz⟩ := Number.exists_mul_eq hb.isFinite hf
  rw [limit_eq, hexact, slack_eq, hz]
  cases hm : (Number.round binary64 z (b.toRat * (factor r).toRat)).isFinite with
  | false =>
    -- The product overflows, and the sum stays infinite.
    right
    have hinfinite : ((Number.round binary64 z (b.toRat * (factor r).toRat)).add t).isFinite =
        false := by
      rw [Number.round_eq_infinite hm]
      cases t with
      | nan => rfl
      | infinite s => cases ht.isFinite
      | finite s n => rfl
    refine ⟨hinfinite, fun c hc ↦ ?_⟩
    have hlt := toRat_lt_of_overflow hbf hc hm
    have hbound := (abs_le.mp (abs_mul_sub_le hb.toRat_nonneg hfactor)).2
    have ht0 := ht.toRat_nonneg
    linarith
  | true =>
    have hproduct := abs_product_sub_le roundoff_nonneg roundoff_le hb.toRat_nonneg hρ hfactor
      (abs_round_sub_le hbf hm)
    have hm0 : 0 ≤ (Number.round binary64 z (b.toRat * (factor r).toRat)).toRat :=
      Number.toRat_round_nonneg hbf
    obtain ⟨z', hz'⟩ := Number.exists_add_eq hm ht.isFinite
    rw [hz']
    have hsum : 0 ≤ (Number.round binary64 z (b.toRat * (factor r).toRat)).toRat + t.toRat :=
      add_nonneg hm0 ht.toRat_nonneg
    cases hl : (Number.round binary64 z' ((Number.round binary64 z
        (b.toRat * (factor r).toRat)).toRat + t.toRat)).isFinite with
    | false =>
      right
      refine ⟨rfl, fun c hc ↦ ?_⟩
      have hlt := toRat_lt_of_overflow hsum hc hl
      have hbound := (abs_le.mp hproduct).2
      linarith
    | true =>
      left
      exact ⟨rfl, abs_sum_sub_le roundoff_nonneg roundoff_le hη hb.toRat_nonneg hρ
        ht.toRat_nonneg hproduct (abs_round_sub_le hsum hl)⟩

/-- What is below the exact limit by the slack is within the compiled one. -/
theorem le_limit_of_le {b r t c : Double} (hb : NonNegative b) (hr : NonNegative r)
    (ht : NonNegative t) (hc : c.isFinite = true)
    (h : c.toRat ≤ limit b.toRat r.toRat t.toRat - slack (limit b.toRat r.toRat t.toRat)) :
    c.le (limit b r t) = true := by
  rcases limit_cases hb hr ht with ⟨hf, herror⟩ | ⟨hf, -⟩
  · rw [Number.le_iff hc hf]
    have hbound := (abs_le.mp herror).1
    linarith
  · have hbase := le_limit hb hr ht
    cases hl : limit b r t with
    | nan => exact absurd hl (Number.ne_nan_of_le hbase).2
    | finite s n =>
      rw [hl] at hf
      cases hf
    | infinite s =>
      -- The limit is at least the baseline, so it overflows upwards.
      rw [hl] at hbase
      cases b with
      | nan => cases hbase
      | infinite s' => cases hb.isFinite
      | finite s' n =>
        cases c with
        | nan => cases hc
        | infinite s'' => cases hc
        | finite s'' m => exact hbase

/-- What is above the exact limit by more than the slack is not within the compiled one. -/
theorem not_le_limit_of_lt {b r t c : Double} (hb : NonNegative b) (hr : NonNegative r)
    (ht : NonNegative t) (hc : c.isFinite = true)
    (h : limit b.toRat r.toRat t.toRat + slack (limit b.toRat r.toRat t.toRat) < c.toRat) :
    c.le (limit b r t) = false := by
  rcases limit_cases hb hr ht with ⟨hf, herror⟩ | ⟨-, hnone⟩
  · rw [Number.le_eq hc hf, decide_eq_false]
    have hbound := (abs_le.mp herror).2
    linarith
  · exact absurd h (not_lt.mpr (hnone c hc))

/-! ### The program -/

/-- The latency of a run that is read is finite. -/
theorem isFinite_latencyUs {document scope metric : Bytes} {m : RunMetrics}
    (h : parseMetrics document scope metric = .ok m) : m.latencyUs.isFinite = true := by
  simp only [parseMetrics, bind_eq_ok] at h
  -- the spans of the document, the number of the statistic, then the fields of the context
  obtain ⟨_, _, _, _, _, _, _, _, _, _, _, _, _, _, _, _, _, _, _, _, x, hlatency,
    _, _, _, _, _, _, _, _, _, _, _, _, _, _, _, _, _, _, _, _, h⟩ := h
  obtain rfl := Except.ok.inj h
  obtain ⟨last, -, hnumber⟩ := bind_eq_ok.mp hlatency
  split at hnumber
  · next hy =>
    obtain rfl := Except.ok.inj hnumber
    exact isFinite_of_finiteToken hy
  · cases hnumber

section

variable {files : Bytes → FileContents} {selfTest : Checked Nat} {args : List Bytes}
  {a : Arguments} {baseline candidate : RunMetrics}

/-- The latencies of a comparison are finite. -/
theorem Accepted.isFinite (h : Accepted files a baseline candidate) :
    baseline.latencyUs.isFinite = true ∧ candidate.latencyUs.isFinite = true := by
  obtain ⟨text, -, hbaseline⟩ := bind_eq_ok.mp h.baseline
  obtain ⟨text', -, hcandidate⟩ := bind_eq_ok.mp h.candidate
  exact ⟨isFinite_latencyUs hbaseline, isFinite_latencyUs hcandidate⟩

/-- The exit code of a comparison of accepted files. -/
theorem Accepted.exitCode_eq (h : Accepted files a baseline candidate)
    (hargs : parseArguments {} args = .ok (.compare a)) :
    exitCode files selfTest args =
      .ok (if a.allowContextChange = false ∧ contextDifferences baseline candidate ≠ [] then 4
        else if passed baseline candidate a.maxRegressionPercent a.absoluteToleranceUs then 0
        else 1) := by
  rw [exitCode, hargs, ok_bind]
  dsimp only
  rw [h.compareRuns_eq, handled_ok]

/-- A comparison exits with zero exactly when the contexts may differ or agree, and the candidate
is within the compiled limit. -/
theorem Accepted.exitCode_eq_zero (h : Accepted files a baseline candidate)
    (hargs : parseArguments {} args = .ok (.compare a)) :
    exitCode files selfTest args = .ok 0 ↔
      (a.allowContextChange = true ∨ contextDifferences baseline candidate = []) ∧
        candidate.latencyUs.le
          (limit baseline.latencyUs a.maxRegressionPercent a.absoluteToleranceUs) = true := by
  have hpassed : passed baseline candidate a.maxRegressionPercent a.absoluteToleranceUs =
      candidate.latencyUs.le
        (limit baseline.latencyUs a.maxRegressionPercent a.absoluteToleranceUs) := rfl
  rw [h.exitCode_eq hargs, hpassed]
  by_cases hc : a.allowContextChange = false ∧ contextDifferences baseline candidate ≠ []
  · rw [if_pos hc]
    simp [hc.1, hc.2]
  · rw [if_neg hc]
    have hc' : a.allowContextChange = true ∨ contextDifferences baseline candidate = [] := by
      rw [not_and_or, not_not] at hc
      exact hc.imp_left (by simp)
    simp [hc']

/-- As it is compiled, the gate passes a document against itself under every budget that it
accepts, and keeps a pass when the budgets or the baseline latency grow or the candidate latency
falls, where the baseline latency is not negative. -/
theorem compiled_gate_law (h : Accepted files a baseline candidate)
    (hargs : parseArguments {} args = .ok (.compare a)) (hb : 0 ≤ baseline.latencyUs.toRat) :
    (files a.baselinePath = files a.candidatePath → exitCode files selfTest args = .ok 0) ∧
    (exitCode files selfTest args = .ok 0 →
      ∀ (files' : Bytes → FileContents) (args' : List Bytes) (a' : Arguments)
        (baseline' candidate' : RunMetrics),
        Accepted files' a' baseline' candidate' →
        parseArguments {} args' = .ok (.compare a') →
        (a'.allowContextChange = true ∨ contextDifferences baseline' candidate' = []) →
        baseline.latencyUs.toRat ≤ baseline'.latencyUs.toRat →
        candidate'.latencyUs.toRat ≤ candidate.latencyUs.toRat →
        a.maxRegressionPercent.toRat ≤ a'.maxRegressionPercent.toRat →
        a.absoluteToleranceUs.toRat ≤ a'.absoluteToleranceUs.toRat →
        exitCode files' selfTest args' = .ok 0) := by
  obtain ⟨hr, ht⟩ := budgeted_parse hargs budgeted_default
  have hbaseline : NonNegative baseline.latencyUs := ⟨h.isFinite.1, hb⟩
  constructor
  · intro hsame
    have hmetrics : candidate = baseline := by
      obtain ⟨text, hread, hbaseline⟩ := bind_eq_ok.mp h.baseline
      obtain ⟨text', hread', hcandidate⟩ := bind_eq_ok.mp h.candidate
      obtain rfl : text = text' :=
        FileContents.text.inj
          ((readFile_eq_ok.mp hread).symm.trans (hsame.trans (readFile_eq_ok.mp hread')))
      exact Except.ok.inj (hcandidate.symm.trans hbaseline)
    subst hmetrics
    exact (h.exitCode_eq_zero hargs).mpr
      ⟨.inr (contextDifferences_self _), le_limit hbaseline hr ht⟩
  · intro hzero files' args' a' baseline' candidate' h' hargs' hc hbb hcc hrr htt
    obtain ⟨hr', ht'⟩ := budgeted_parse hargs' budgeted_default
    have hbaseline' : NonNegative baseline'.latencyUs := ⟨h'.isFinite.1, hb.trans hbb⟩
    refine (h'.exitCode_eq_zero hargs').mpr ⟨hc, ?_⟩
    have hcandidate : candidate'.latencyUs.le candidate.latencyUs = true :=
      (Number.le_iff h'.isFinite.2 h.isFinite.2).mpr hcc
    have hlimit := ((h.exitCode_eq_zero hargs).mp hzero).2
    exact Number.le_of_le_of_le (Number.le_of_le_of_le hcandidate hlimit)
      (limit_mono hbaseline hbaseline' hr hr' ht ht' hbb hrr htt)

/-- As it is compiled, the gate decides as the exact one does on every candidate that is further
than the slack from the exact limit. -/
theorem compiled_gate_band (h : Accepted files a baseline candidate)
    (hargs : parseArguments {} args = .ok (.compare a)) (hb : 0 ≤ baseline.latencyUs.toRat)
    (hc : a.allowContextChange = true ∨ contextDifferences baseline candidate = []) {exact : ℚ}
    (hexact : exact = baseline.latencyUs.toRat * (1 + a.maxRegressionPercent.toRat / 100) +
      a.absoluteToleranceUs.toRat) :
    (candidate.latencyUs.toRat ≤ exact - slack exact → exitCode files selfTest args = .ok 0) ∧
    (exact + slack exact < candidate.latencyUs.toRat → exitCode files selfTest args = .ok 1) := by
  obtain ⟨hr, ht⟩ := budgeted_parse hargs budgeted_default
  have hbaseline : NonNegative baseline.latencyUs := ⟨h.isFinite.1, hb⟩
  subst hexact
  constructor
  · intro hle
    exact (h.exitCode_eq_zero hargs).mpr
      ⟨hc, le_limit_of_le hbaseline hr ht h.isFinite.2 hle⟩
  · intro hlt
    have hpassed : passed baseline candidate a.maxRegressionPercent a.absoluteToleranceUs = false :=
      not_le_limit_of_lt hbaseline hr ht h.isFinite.2 hlt
    have hcontext :
        ¬ (a.allowContextChange = false ∧ contextDifferences baseline candidate ≠ []) := by
      rintro ⟨hallow, hdiffer⟩
      rcases hc with hc | hc
      · rw [hallow] at hc
        cases hc
      · exact hdiffer hc
    rw [h.exitCode_eq hargs, if_neg hcontext, hpassed]
    rfl

end

/-- The command line of the short comparisons. -/
def sampleCommand : List Bytes :=
  [ascii "--baseline", ascii "a.json", ascii "--candidate", ascii "b.json"]

/-- The short command line names two files. -/
theorem parseArguments_sampleCommand (a : Arguments) :
    parseArguments a sampleCommand =
      .ok (.compare { a with baselinePath := ascii "a.json", candidatePath := ascii "b.json" }) :=
  rfl

/-- The short command line names the files of the short comparisons. -/
theorem parseArguments_sample :
    parseArguments {} sampleCommand = .ok (.compare sampleArguments) := by
  rw [parseArguments_sampleCommand, sampleArguments]

/-- The document with three microseconds passes against itself as compiled. -/
theorem compiled_gate_law_three :
    exitCode (fun _ ↦ .text (sampleText (ascii "3"))) (.ok 0) sampleCommand = .ok 0 := by
  have h : Accepted (fun _ ↦ .text (sampleText (ascii "3"))) sampleArguments
      (sampleMetrics (doubleOf 3)) (sampleMetrics (doubleOf 3)) :=
    accepted_sample (by decide +kernel)
  exact (compiled_gate_law h parseArguments_sample (by decide +kernel)).1 rfl

/-- Three microseconds are below the exact limit by more than the slack. -/
theorem compiled_gate_band_three :
    exitCode (fun _ ↦ .text (sampleText (ascii "3"))) (.ok 0) sampleCommand = .ok 0 := by
  have h : Accepted (fun _ ↦ .text (sampleText (ascii "3"))) sampleArguments
      (sampleMetrics (doubleOf 3)) (sampleMetrics (doubleOf 3)) :=
    accepted_sample (by decide +kernel)
  exact (compiled_gate_band h parseArguments_sample (by decide +kernel)
    (.inr (contextDifferences_self _)) rfl).1 (by decide +kernel)

end MarketData.Comparator
