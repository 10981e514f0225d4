import MarketData.Base.Bounds

/-!
# Order of rounded arithmetic

Rounding is monotone, also where it overflows. The operations therefore keep the order of
their operands as long as no result is a NaN, and a number is its own rounding.
-/

namespace Ieee

namespace Format

variable {F : Format}

/-- The units of a larger magnitude are not fewer. -/
theorem roundUnits_abs_mono {x y : ℚ} (h : |x| ≤ |y|) :
    F.roundUnits (|x| * 2 ^ F.scale) ≤ F.roundUnits (|y| * 2 ^ F.scale) :=
  F.roundUnits_mono (mul_le_mul_of_nonneg_right h (by positivity))

end Format

namespace Number

variable {F : Format} {a b c d : Number F}

/-! ### The order -/

/-- A number is at most itself. -/
theorem le_rfl_of_ne_nan (h : a ≠ .nan) : a.le a = true := by
  cases a with
  | nan => exact absurd rfl h
  | infinite s => cases s <;> rfl
  | finite s m => simp [le]

/-- Neither side of a comparison that holds is a NaN. -/
theorem ne_nan_of_le (h : a.le b = true) : a ≠ .nan ∧ b ≠ .nan := by
  constructor
  · rintro rfl
    cases h
  · rintro rfl
    cases a <;> cases h

/-- The order is transitive. -/
theorem le_of_le_of_le (hab : a.le b = true) (hbc : b.le c = true) : a.le c = true := by
  cases a with
  | nan => cases hab
  | infinite s =>
    cases b with
    | nan => cases hab
    | infinite t => cases c <;> cases s <;> cases t <;> simp_all [le]
    | finite t n => cases c <;> cases s <;> simp_all [le]
  | finite s m =>
    cases b with
    | nan => cases hab
    | infinite t => cases c <;> cases t <;> simp_all [le]
    | finite t n =>
      cases c with
      | nan => cases hbc
      | infinite u => simp_all [le]
      | finite u k =>
        simp only [le, decide_eq_true_eq] at hab hbc ⊢
        exact hab.trans hbc

/-- Finite data compare as the numbers they denote. -/
theorem le_iff (ha : a.isFinite = true) (hb : b.isFinite = true) :
    a.le b = true ↔ a.toRat ≤ b.toRat := by
  rw [le_eq ha hb, decide_eq_true_eq]

/-! ### Rounding -/

/-- The value of a finite rounding, which has the sign of the number. -/
theorem toRat_round {z : Bool} {x : ℚ} (h : (round F z x).isFinite = true) :
    (round F z x).toRat =
      if x < 0 then -(F.roundUnits (|x| * 2 ^ F.scale) / 2 ^ F.scale : ℚ)
      else F.roundUnits (|x| * 2 ^ F.scale) / 2 ^ F.scale := by
  have hlt := (isFinite_round z x).mp h
  by_cases hx : x = 0
  · subst hx
    rw [toRat_round_zero, if_neg (lt_irrefl 0), abs_zero, zero_mul]
    have h0 : F.roundUnits 0 = 0 := by
      simpa using F.roundUnits_natCast (dvd_zero (2 ^ F.excess 0))
    simp [h0]
  · simp only [round, dif_pos hlt, if_neg hx, toRat, Magnitude.toRat, decide_eq_true_eq]

/-- A rounding is never a NaN. -/
theorem round_ne_nan (z : Bool) (x : ℚ) : round F z x ≠ .nan := by
  unfold round
  dsimp only
  split
  · rintro ⟨⟩
  · rintro ⟨⟩

/-- A rounding that is not finite is the infinity with the sign of the number. -/
theorem round_eq_infinite {z : Bool} {x : ℚ} (h : (round F z x).isFinite = false) :
    round F z x = .infinite (decide (x < 0)) := by
  have hlt : ¬ F.roundUnits (|x| * 2 ^ F.scale) < 2 ^ F.width := by
    rw [← isFinite_round z x, h]
    exact Bool.false_ne_true
  simp only [round, dif_neg hlt]

/-- What is smaller than a number with a finite rounding has a finite rounding. -/
theorem isFinite_round_mono {z w : Bool} {x y : ℚ} (h : |x| ≤ |y|)
    (hy : (round F z y).isFinite = true) : (round F w x).isFinite = true := by
  rw [isFinite_round] at hy ⊢
  exact (F.roundUnits_abs_mono h).trans_lt hy

private theorem toRat_round_mono_of_finite {z z' : Bool} {x y : ℚ} (h : x ≤ y)
    (hx : (round F z x).isFinite = true) (hy : (round F z' y).isFinite = true) :
    (round F z x).toRat ≤ (round F z' y).toRat := by
  have hscale : (0 : ℚ) < 2 ^ F.scale := by positivity
  rw [toRat_round hx, toRat_round hy]
  by_cases hx0 : x < 0
  · rw [if_pos hx0]
    by_cases hy0 : y < 0
    · rw [if_pos hy0, neg_le_neg_iff]
      have hunits := F.roundUnits_abs_mono (abs_le_abs_of_nonpos hy0.le h)
      gcongr
    · rw [if_neg hy0]
      have hl : (0 : ℚ) ≤ F.roundUnits (|x| * 2 ^ F.scale) / 2 ^ F.scale := by positivity
      have hr : (0 : ℚ) ≤ F.roundUnits (|y| * 2 ^ F.scale) / 2 ^ F.scale := by positivity
      linarith
  · have hy0 : ¬ y < 0 := fun hy0 ↦ hx0 (h.trans_lt hy0)
    rw [if_neg hx0, if_neg hy0]
    have hunits := F.roundUnits_abs_mono (abs_le_abs_of_nonneg (not_lt.mp hx0) h)
    gcongr

/-- Rounding keeps the order, also where it overflows. -/
theorem round_le_round {z z' : Bool} {x y : ℚ} (h : x ≤ y) :
    (round F z x).le (round F z' y) = true := by
  cases hx : (round F z x).isFinite with
  | true =>
    cases hy : (round F z' y).isFinite with
    | true =>
      rw [le_iff hx hy]
      exact toRat_round_mono_of_finite h hx hy
    | false =>
      -- A number above a finite rounding overflows upwards.
      have hy0 : ¬ y < 0 := by
        intro hy0
        have hfinite := isFinite_round_mono (w := z') (abs_le_abs_of_nonpos hy0.le h) hx
        rw [hy] at hfinite
        cases hfinite
      rw [round_eq_infinite hy, decide_eq_false hy0]
      cases hr : round F z x with
      | nan => exact absurd hr (round_ne_nan z x)
      | infinite s => cases s <;> rfl
      | finite s m => rfl
  | false =>
    have hbelow : x < 0 ∨ (round F z' y).isFinite = false := by
      by_contra hn
      obtain ⟨hx0, hy⟩ := not_or.mp hn
      have hfinite := isFinite_round_mono (w := z) (abs_le_abs_of_nonneg (not_lt.mp hx0) h)
        (by simpa using hy)
      rw [hx] at hfinite
      cases hfinite
    rw [round_eq_infinite hx]
    by_cases hx0 : x < 0
    · rw [decide_eq_true hx0]
      cases hr : round F z' y with
      | nan => exact absurd hr (round_ne_nan z' y)
      | infinite s => rfl
      | finite s m => rfl
    · have hy := hbelow.resolve_left hx0
      have hy0 : ¬ y < 0 := fun hy0 ↦ hx0 (h.trans_lt hy0)
      rw [round_eq_infinite hy, decide_eq_false hx0, decide_eq_false hy0]
      rfl

/-- A finite datum is its own rounding. -/
theorem round_toRat (ha : a.isFinite = true) (z : Bool) :
    (round F z a.toRat).isFinite = true ∧ (round F z a.toRat).toRat = a.toRat := by
  cases a with
  | nan => cases ha
  | infinite s => cases ha
  | finite s m =>
    have habs : |(finite s m).toRat| = m.toRat := by
      cases s <;> simp [toRat, abs_of_nonneg m.toRat_nonneg]
    have hunits : |(finite s m).toRat| * 2 ^ F.scale = (m.val : ℚ) := by
      rw [habs, Magnitude.toRat]
      field_simp
    have hround : F.roundUnits (|(finite s m).toRat| * 2 ^ F.scale) = m.val := by
      rw [hunits, F.roundUnits_natCast m.property.1]
    have hf : (round F z (finite s m).toRat).isFinite = true := by
      rw [isFinite_round, hround]
      exact m.property.2
    refine ⟨hf, ?_⟩
    rw [toRat_round hf, hround, ← Magnitude.toRat]
    cases s with
    | false =>
      have h0 : ¬ (finite false m).toRat < 0 := not_lt.mpr (by simp [toRat, m.toRat_nonneg])
      rw [if_neg h0]
      simp [toRat]
    | true =>
      split
      · simp [toRat]
      · next h0 =>
        have hm := m.toRat_nonneg
        simp only [toRat, if_true, not_lt, Left.nonneg_neg_iff] at h0 ⊢
        linarith

/-- What is bounded by a finite datum rounds to a finite datum. -/
theorem isFinite_round_of_abs_le (ha : a.isFinite = true) {z : Bool} {x : ℚ}
    (h : |x| ≤ |a.toRat|) : (round F z x).isFinite = true :=
  isFinite_round_mono h (round_toRat ha false).1

/-- A rounding stays above a finite datum that the number is above. -/
theorem le_round (ha : a.isFinite = true) {z : Bool} {x : ℚ} (h : a.toRat ≤ x) :
    a.le (round F z x) = true := by
  obtain ⟨hf, hv⟩ := round_toRat ha z
  have hself : a.le (round F z a.toRat) = true := by rw [le_iff ha hf, hv]
  exact le_of_le_of_le hself (round_le_round h)

/-! ### Operations -/

/-- A finite sum is the rounding of the exact one. -/
theorem exists_add_eq (ha : a.isFinite = true) (hb : b.isFinite = true) :
    ∃ z, a.add b = round F z (a.toRat + b.toRat) := by
  cases a with
  | nan => cases ha
  | infinite s => cases ha
  | finite s m =>
    cases b with
    | nan => cases hb
    | infinite t => cases hb
    | finite t n => exact ⟨s && t, rfl⟩

/-- A product of finite data is the rounding of the exact one. -/
theorem exists_mul_eq (ha : a.isFinite = true) (hb : b.isFinite = true) :
    ∃ z, a.mul b = round F z (a.toRat * b.toRat) := by
  cases a with
  | nan => cases ha
  | infinite s => cases ha
  | finite s m =>
    cases b with
    | nan => cases hb
    | infinite t => cases hb
    | finite t n => exact ⟨s ^^ t, rfl⟩

/-- A quotient of finite data is the rounding of the exact one, unless the divisor is zero. -/
theorem exists_div_eq (ha : a.isFinite = true) (hb : b.isFinite = true) (h0 : b.toRat ≠ 0) :
    ∃ z, a.div b = round F z (a.toRat / b.toRat) := by
  cases a with
  | nan => cases ha
  | infinite s => cases ha
  | finite s m =>
    cases b with
    | nan => cases hb
    | infinite t => cases hb
    | finite t n =>
      have hn : n.val ≠ 0 := by
        intro hn
        apply h0
        cases t <;> simp [toRat, Magnitude.toRat, hn]
      exact ⟨s ^^ t, if_neg hn⟩

/-- A sum with finite data keeps the order. -/
theorem add_mono (hab : a.le b = true) (hc : c.isFinite = true) (hd : d.isFinite = true)
    (hcd : c.toRat ≤ d.toRat) : (a.add c).le (b.add d) = true := by
  cases c with
  | nan => cases hc
  | infinite s => cases hc
  | finite s m =>
    cases d with
    | nan => cases hd
    | infinite t => cases hd
    | finite t n =>
      cases a with
      | nan => cases hab
      | infinite u =>
        cases b with
        | nan => cases hab
        | infinite v => exact hab
        | finite v k =>
          obtain rfl : u = true := hab
          cases hsum : (finite v k).add (finite t n) with
          | nan => exact absurd hsum (round_ne_nan _ _)
          | infinite w => rfl
          | finite w j => rfl
      | finite u k =>
        cases b with
        | nan => cases hab
        | infinite v =>
          obtain rfl : v = false := by simpa [le] using hab
          cases hsum : (finite u k).add (finite s m) with
          | nan => exact absurd hsum (round_ne_nan _ _)
          | infinite w => cases w <;> rfl
          | finite w j => rfl
        | finite v j =>
          have hterms := (le_iff rfl rfl).mp hab
          exact round_le_round (by linarith)

/-- A product of numbers that are not negative keeps the order. -/
theorem mul_mono (ha : a.isFinite = true) (hb : b.isFinite = true) (hc : c.isFinite = true)
    (hd : d.isFinite = true) (ha0 : 0 ≤ a.toRat) (hab : a.toRat ≤ b.toRat) (hc0 : 0 ≤ c.toRat)
    (hcd : c.toRat ≤ d.toRat) : (a.mul c).le (b.mul d) = true := by
  obtain ⟨z, hz⟩ := exists_mul_eq ha hc
  obtain ⟨z', hz'⟩ := exists_mul_eq hb hd
  rw [hz, hz']
  exact round_le_round (mul_le_mul hab hcd hc0 (ha0.trans hab))

/-- A quotient by a positive number keeps the order. -/
theorem div_mono (hab : a.le b = true) (hc : c.isFinite = true) (hpos : 0 < c.toRat) :
    (a.div c).le (b.div c) = true := by
  cases c with
  | nan => cases hc
  | infinite s => cases hc
  | finite s m =>
    obtain rfl : s = false := by
      cases s with
      | false => rfl
      | true =>
        have hm := m.toRat_nonneg
        simp only [toRat, if_true] at hpos
        linarith
    cases a with
    | nan => cases hab
    | infinite t =>
      cases b with
      | nan => cases hab
      | infinite u => simpa [div] using hab
      | finite u n =>
        obtain rfl : t = true := hab
        obtain ⟨z, hz⟩ := exists_div_eq (a := finite u n) rfl hc hpos.ne'
        rw [hz]
        cases hround : round F z ((finite u n).toRat / (finite false m).toRat) with
        | nan => exact absurd hround (round_ne_nan _ _)
        | infinite w => rfl
        | finite w k => rfl
    | finite t n =>
      obtain ⟨z, hz⟩ := exists_div_eq (a := finite t n) rfl hc hpos.ne'
      cases b with
      | nan => cases hab
      | infinite u =>
        obtain rfl : u = false := by simpa [le] using hab
        rw [hz]
        cases hround : round F z ((finite t n).toRat / (finite false m).toRat) with
        | nan => exact absurd hround (round_ne_nan _ _)
        | infinite w => cases w <;> rfl
        | finite w k => rfl
      | finite u k =>
        obtain ⟨w, hw⟩ := exists_div_eq (a := finite u k) rfl hc hpos.ne'
        rw [hz, hw]
        exact round_le_round (div_le_div_of_nonneg_right ((le_iff rfl rfl).mp hab) hpos.le)

/-- A sum with a number that is not negative does not fall below its first term. -/
theorem le_add (ha : a ≠ .nan) (hb : b.isFinite = true) (h0 : 0 ≤ b.toRat) :
    a.le (a.add b) = true := by
  cases b with
  | nan => cases hb
  | infinite t => cases hb
  | finite t n =>
    cases a with
    | nan => exact absurd rfl ha
    | infinite s => cases s <;> rfl
    | finite s m => exact le_round rfl (le_add_of_nonneg_right h0)

/-- A product with a number from one on does not fall below its first factor. -/
theorem le_mul (ha : a.isFinite = true) (h0 : 0 ≤ a.toRat) (hb : b.isFinite = true)
    (h1 : 1 ≤ b.toRat) : a.le (a.mul b) = true := by
  obtain ⟨z, hz⟩ := exists_mul_eq ha hb
  rw [hz]
  exact le_round ha (le_mul_of_one_le_right h0 h1)

end Number

end Ieee
