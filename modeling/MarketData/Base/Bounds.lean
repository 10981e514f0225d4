import MarketData.Base.Arithmetic

/-!
# Bounds of computed numbers

Rounding is monotone and keeps powers of two, so a bound by a power of two on an exact
result bounds the rounded one. From above this shows that nothing overflows. From below
it keeps a number that is not zero away from zero, so that a quotient by it stays small.
-/

namespace Ieee

namespace Number

open Cpp

variable {F : Format}

/-! ### Bounds from above -/

/-- A magnitude up to a power of two below the top rounds within that power. -/
theorem abs_toRat_round_le {z : Bool} {x : ℚ} {k : ℕ} (hk : k + F.scale < F.width)
    (h : |x| ≤ 2 ^ k) : |(round F z x).toRat| ≤ 2 ^ k := by
  have hu : |x| * 2 ^ F.scale ≤ 2 ^ (k + F.scale) := by
    rw [pow_add]
    gcongr
  rw [abs_toRat_round (isFinite_round_of_le hk h), div_le_iff₀ (by positivity), ← pow_add]
  exact_mod_cast F.roundUnits_le_two_pow hu

/-- A finite datum stays below the top of its format. -/
theorem abs_toRat_le {x : Number F} {k : ℕ} (hk : F.width ≤ k + F.scale) : |x.toRat| ≤ 2 ^ k := by
  cases x with
  | nan => simp [toRat]
  | infinite s => simp [toRat]
  | finite s m =>
    have hm : |(finite s m).toRat| = m.toRat := by
      cases s <;> simp [toRat, abs_of_nonneg m.toRat_nonneg]
    rw [hm, Magnitude.toRat, div_le_iff₀ (by positivity), ← pow_add]
    exact_mod_cast m.property.2.le.trans (Nat.pow_le_pow_right (by decide) hk)

/-- A difference of small enough finite data is finite. -/
theorem isFinite_sub {a b : Number F} {k : ℕ} (hk : k + 1 + F.scale < F.width)
    (ha : a.isFinite = true) (hb : b.isFinite = true) (hak : |a.toRat| ≤ 2 ^ k)
    (hbk : |b.toRat| ≤ 2 ^ k) : (a - b).isFinite = true := by
  cases a with
  | nan => cases ha
  | infinite s => cases ha
  | finite s m =>
    cases b with
    | nan => cases hb
    | infinite t => cases hb
    | finite t n =>
      have hneg : (finite (!t) n).toRat = -(finite t n).toRat := by cases t <;> simp [toRat]
      apply isFinite_round_of_le hk
      rw [hneg]
      calc
        |(finite s m).toRat + -(finite t n).toRat|
            ≤ |(finite s m).toRat| + |-(finite t n).toRat| := abs_add_le _ _
        _ ≤ 2 ^ k + 2 ^ k := by rw [abs_neg]; gcongr
        _ = 2 ^ (k + 1) := by ring

/-- A product of small enough finite data is finite and as small as its factors allow. -/
theorem isFinite_mul {a b : Number F} {j k : ℕ} (hk : j + k + F.scale < F.width)
    (ha : a.isFinite = true) (hb : b.isFinite = true) (haj : |a.toRat| ≤ 2 ^ j)
    (hbk : |b.toRat| ≤ 2 ^ k) : (a * b).isFinite = true ∧ |(a * b).toRat| ≤ 2 ^ (j + k) := by
  cases a with
  | nan => cases ha
  | infinite s => cases ha
  | finite s m =>
    cases b with
    | nan => cases hb
    | infinite t => cases hb
    | finite t n =>
      have hle : |(finite s m).toRat * (finite t n).toRat| ≤ 2 ^ (j + k) := by
        rw [abs_mul, pow_add]
        gcongr
      exact ⟨isFinite_round_of_le hk hle, abs_toRat_round_le hk hle⟩

/-- A conversion to a format with room for the datum is finite and as small. -/
theorem isFinite_convert {G : Format} {a : Number F} {k : ℕ} (hk : k + G.scale < G.width)
    (ha : a.isFinite = true) (hak : |a.toRat| ≤ 2 ^ k) :
    (a.convert G).isFinite = true ∧ |(a.convert G).toRat| ≤ 2 ^ k := by
  cases a with
  | nan => cases ha
  | infinite s => cases ha
  | finite s m => exact ⟨isFinite_round_of_le hk hak, abs_toRat_round_le hk hak⟩

/-! ### Bounds from below -/

/-- Zero, or at least the power of two, or the positive infinity. -/
def AwayFromZero (k : ℕ) (x : Number F) : Prop :=
  x = .infinite false ∨ x.isFinite = true ∧ (x.toRat = 0 ∨ 1 / 2 ^ k ≤ x.toRat)

/-- Rounding keeps a number that is not negative so. -/
theorem toRat_round_nonneg {z : Bool} {x : ℚ} (h : 0 ≤ x) : 0 ≤ (round F z x).toRat := by
  rcases h.eq_or_lt with rfl | hx
  · exact (toRat_round_zero z).ge
  · simp only [round]
    split
    · simpa [hx.ne', hx.not_gt, toRat] using Magnitude.toRat_nonneg _
    · exact le_rfl

/-- A finite rounded result does not fall below a power of two. -/
theorem le_toRat_round {z : Bool} {x : ℚ} {k : ℕ} (hk : k ≤ F.scale)
    (hf : (round F z x).isFinite = true) (h : 1 / 2 ^ k ≤ x) :
    1 / 2 ^ k ≤ (round F z x).toRat := by
  have hx : 0 ≤ x := le_trans (by positivity) h
  have hu : (2 : ℚ) ^ (F.scale - k) ≤ x * 2 ^ F.scale := by
    calc
      (2 : ℚ) ^ (F.scale - k) = 1 / 2 ^ k * 2 ^ F.scale := by
        rw [pow_sub₀ _ (by norm_num) hk]
        ring
      _ ≤ x * 2 ^ F.scale := by gcongr
  have hr : (2 : ℚ) ^ (F.scale - k) ≤ F.roundUnits (x * 2 ^ F.scale) := by
    exact_mod_cast F.two_pow_le_roundUnits hu
  rw [← abs_of_nonneg (toRat_round_nonneg hx), abs_toRat_round hf, abs_of_nonneg hx,
    div_le_div_iff₀ (by positivity) (by positivity), one_mul]
  calc
    (2 : ℚ) ^ F.scale = 2 ^ (F.scale - k) * 2 ^ k := by rw [← pow_add, Nat.sub_add_cancel hk]
    _ ≤ _ := by gcongr

/-- Rounding does not move a number closer to zero than a power of two. -/
theorem awayFromZero_round {z : Bool} {x : ℚ} {k : ℕ} (hk : k ≤ F.scale)
    (h : x = 0 ∨ 1 / 2 ^ k ≤ x) : (round F z x).AwayFromZero k := by
  by_cases hf : (round F z x).isFinite = true
  · refine .inr ⟨hf, ?_⟩
    rcases h with rfl | h
    · exact .inl (toRat_round_zero z)
    · exact .inr (le_toRat_round hk hf h)
  · left
    have hx : ¬ x < 0 := by
      rcases h with rfl | h
      · exact lt_irrefl 0
      · exact (le_trans (by positivity) h).not_gt
    have hlt : ¬ F.roundUnits (|x| * 2 ^ F.scale) < 2 ^ F.width := fun hl ↦
      hf ((isFinite_round z x).mpr hl)
    simp [round, hlt, hx]

/-- A sum stays away from zero when its terms do. -/
theorem AwayFromZero.add {a b : Number F} {k : ℕ} (hk : k ≤ F.scale) (ha : a.AwayFromZero k)
    (hb : b.AwayFromZero k) : (a + b).AwayFromZero k := by
  rcases ha with rfl | ⟨hfa, ha⟩
  · rcases hb with rfl | ⟨hfb, -⟩
    · exact .inl rfl
    · cases b with
      | nan => cases hfb
      | infinite t => cases hfb
      | finite t n => exact .inl rfl
  · cases a with
    | nan => cases hfa
    | infinite s => cases hfa
    | finite s m =>
      rcases hb with rfl | ⟨hfb, hb⟩
      · exact .inl rfl
      · cases b with
        | nan => cases hfb
        | infinite t => cases hfb
        | finite t n =>
          have hp : (0 : ℚ) < 1 / 2 ^ k := by positivity
          apply awayFromZero_round hk
          rcases ha with ha | ha
          · rwa [ha, zero_add]
          · rcases hb with hb | hb
            · rw [hb, add_zero]
              exact .inr ha
            · exact .inr (by linarith)

private theorem sign_of_pos {t : Bool} {n : Magnitude F} (h : 0 < (finite t n).toRat) :
    t = false ∧ n.val ≠ 0 := by
  cases t with
  | false =>
    refine ⟨rfl, fun hn ↦ ?_⟩
    simp [toRat, Magnitude.toRat, hn] at h
  | true =>
    have := n.toRat_nonneg
    simp only [toRat, if_true] at h
    linarith

/-- A quotient by a positive number up to a power of two stays away from zero. -/
theorem AwayFromZero.div {a b : Number F} {k j : ℕ} (hk : k + j ≤ F.scale)
    (ha : a.AwayFromZero k) (hfb : b.isFinite = true) (hb : 0 < b.toRat) (hbj : b.toRat ≤ 2 ^ j) :
    (a / b).AwayFromZero (k + j) := by
  cases b with
  | nan => cases hfb
  | infinite t => cases hfb
  | finite t n =>
    obtain ⟨rfl, hn⟩ := sign_of_pos hb
    rcases ha with rfl | ⟨hfa, ha⟩
    · exact .inl rfl
    · cases a with
      | nan => cases hfa
      | infinite s => cases hfa
      | finite s m =>
        change (Number.div _ _).AwayFromZero (k + j)
        rw [Number.div, if_neg hn]
        apply awayFromZero_round hk
        rcases ha with ha | ha
        · left
          rw [ha, zero_div]
        · right
          rw [le_div_iff₀ hb]
          calc
            1 / 2 ^ (k + j) * (finite false n).toRat ≤ 1 / 2 ^ (k + j) * 2 ^ j := by gcongr
            _ = 1 / 2 ^ k := by rw [pow_add]; field_simp
            _ ≤ _ := ha

/-- A product with a number from one on stays away from zero. -/
theorem AwayFromZero.mul {a b : Number F} {k : ℕ} (hk : k ≤ F.scale) (ha : a.AwayFromZero k)
    (hfb : b.isFinite = true) (hb : 1 ≤ b.toRat) : (a * b).AwayFromZero k := by
  cases b with
  | nan => cases hfb
  | infinite t => cases hfb
  | finite t n =>
    obtain ⟨rfl, hn⟩ := sign_of_pos (zero_lt_one.trans_le hb)
    rcases ha with rfl | ⟨hfa, ha⟩
    · left
      change Number.mul _ _ = _
      rw [Number.mul, if_neg hn]
      rfl
    · cases a with
      | nan => cases hfa
      | infinite s => cases hfa
      | finite s m =>
        apply awayFromZero_round hk
        rcases ha with ha | ha
        · left
          rw [ha, zero_mul]
        · right
          have hp : (0 : ℚ) < 1 / 2 ^ k := by positivity
          exact ha.trans (le_mul_of_one_le_right (hp.le.trans ha) hb)

/-- A quotient by a positive number away from zero is finite. -/
theorem AwayFromZero.isFinite_div {a b : Number F} {j k : ℕ} (hk : j + k + F.scale < F.width)
    (hfa : a.isFinite = true) (ha : |a.toRat| ≤ 2 ^ j) (hb : b.AwayFromZero k)
    (hpos : zero.lt b = true) : (a / b).isFinite = true := by
  cases a with
  | nan => cases hfa
  | infinite s => cases hfa
  | finite s m =>
    rcases hb with rfl | ⟨hfb, hb⟩
    · rfl
    · rw [lt_eq isFinite_zero hfb, toRat_zero, decide_eq_true_eq] at hpos
      cases b with
      | nan => cases hfb
      | infinite t => cases hfb
      | finite t n =>
        obtain ⟨rfl, hn⟩ := sign_of_pos hpos
        have hb := hb.resolve_left hpos.ne'
        change (Number.div _ _).isFinite = true
        rw [Number.div, if_neg hn]
        apply isFinite_round_of_le hk
        rw [abs_div, abs_of_pos hpos, div_le_iff₀ hpos]
        calc
          |(finite s m).toRat| ≤ 2 ^ j := ha
          _ = 2 ^ (j + k) * (1 / 2 ^ k) := by rw [pow_add]; field_simp
          _ ≤ _ := by gcongr

end Number

end Ieee
