import Mathlib.Algebra.Order.Floor.Semiring
import Mathlib.Data.Nat.Log
import Mathlib.Data.Rat.Floor
import Mathlib.Tactic.Linarith
import Mathlib.Tactic.Positivity
import Mathlib.Tactic.Ring

/-!
# Binary floating point by exact rational rounding

A magnitude is a natural number of units, one unit being the least positive value
of its format. An operation is its exact rational result rounded to nearest, ties
to even. The laws below are the ones used for bounds: rounding is monotone, keeps
every representable magnitude and returns only representable magnitudes.
-/

namespace Ieee

/-- Round a nonnegative rational to the nearest natural number, ties to even. -/
def roundHalfEven (x : ℚ) : ℕ :=
  let n := ⌊x⌋₊
  let r := x - n
  if r < 1 / 2 then n else if 1 / 2 < r then n + 1 else n + n % 2

/-- A natural number is its own rounding. -/
theorem roundHalfEven_natCast (n : ℕ) : roundHalfEven n = n := by
  simp [roundHalfEven]

private theorem floor_le_roundHalfEven (x : ℚ) : ⌊x⌋₊ ≤ roundHalfEven x := by
  simp only [roundHalfEven]
  split
  · exact Nat.le_refl _
  · split <;> omega

private theorem roundHalfEven_le_floor (x : ℚ) : roundHalfEven x ≤ ⌊x⌋₊ + 1 := by
  simp only [roundHalfEven]
  split
  · omega
  · split <;> omega

/-- Rounding to a natural number preserves order. -/
theorem roundHalfEven_mono {x y : ℚ} (h : x ≤ y) : roundHalfEven x ≤ roundHalfEven y := by
  have hf : ⌊x⌋₊ ≤ ⌊y⌋₊ := Nat.floor_mono h
  by_cases he : ⌊x⌋₊ = ⌊y⌋₊
  · simp only [roundHalfEven, he]
    split
    · split
      · exact Nat.le_refl _
      · split <;> omega
    · rw [if_neg (by linarith : ¬ y - ⌊y⌋₊ < 1 / 2)]
      split
      · rw [if_pos (by linarith : 1 / 2 < y - ⌊y⌋₊)]
      · split <;> omega
  · have hx := roundHalfEven_le_floor x
    have hy := floor_le_roundHalfEven y
    omega

/-- A binary format: `precision` significant bits, magnitudes counted in units of
`2 ^ (-scale)`, every magnitude below `2 ^ width` units. -/
structure Format where
  precision : ℕ
  scale : ℕ
  width : ℕ
  precision_pos : 0 < precision

/-- The 64-bit format. -/
def binary64 : Format := ⟨53, 1074, 2098, by decide⟩

/-- The 32-bit format. -/
def binary32 : Format := ⟨24, 149, 277, by decide⟩

namespace Format

variable (F : Format)

/-- Number of low bits of a magnitude that exceed the precision. -/
def excess (n : ℕ) : ℕ := n.log2 + 1 - F.precision

/-- A magnitude fits the format when its excess bits are zero and it stays below the top. -/
def Representable (n : ℕ) : Prop := 2 ^ F.excess n ∣ n ∧ n < 2 ^ F.width

/-- Whether a magnitude fits is computed. -/
instance (n : ℕ) : Decidable (F.Representable n) := inferInstanceAs (Decidable (_ ∧ _))

/-- The least normal value. -/
def leastNormal : ℚ := 2 ^ (F.precision - 1) / 2 ^ F.scale

/-- Round a number of units to the precision of the format, ignoring its top. -/
def roundUnits (s : ℚ) : ℕ :=
  let e := F.excess ⌊s⌋₊
  roundHalfEven (s / 2 ^ e) * 2 ^ e

private theorem excess_mono {m n : ℕ} (h : m ≤ n) : F.excess m ≤ F.excess n := by
  by_cases hm : m = 0
  · subst hm
    have := F.precision_pos
    simp only [excess, Nat.log2_zero]
    omega
  · have hl : m.log2 ≤ n.log2 := (Nat.le_log2 (by omega)).mpr ((Nat.log2_self_le hm).trans h)
    simp only [excess]
    omega

private theorem lt_two_pow_excess (s : ℚ) : s < 2 ^ (F.precision + F.excess ⌊s⌋₊) := by
  have h : ⌊s⌋₊ < 2 ^ (F.precision + F.excess ⌊s⌋₊) := by
    refine Nat.lt_of_lt_of_le Nat.lt_log2_self (Nat.pow_le_pow_right (by decide) ?_)
    simp only [excess]
    omega
  exact_mod_cast Nat.lt_of_floor_lt h

/-- A magnitude with excess bits is at least the power of two that they say. -/
theorem two_pow_le_of_excess {s : ℚ} (h : 0 < F.excess ⌊s⌋₊) :
    (2 : ℚ) ^ (F.precision - 1 + F.excess ⌊s⌋₊) ≤ s := by
  have hs : ⌊s⌋₊ ≠ 0 := by
    intro hz
    rw [hz] at h
    have := F.precision_pos
    simp only [excess, Nat.log2_zero] at h
    omega
  have hp : F.precision - 1 + F.excess ⌊s⌋₊ = ⌊s⌋₊.log2 := by
    have := F.precision_pos
    simp only [excess] at h ⊢
    omega
  have hl : 2 ^ (F.precision - 1 + F.excess ⌊s⌋₊) ≤ ⌊s⌋₊ := hp ▸ Nat.log2_self_le hs
  exact_mod_cast (Nat.le_floor_iff' (by positivity)).mp hl

private theorem roundHalfEven_le_two_pow {x : ℚ} {k : ℕ} (h : x ≤ 2 ^ k) :
    roundHalfEven x ≤ 2 ^ k := by
  have hm := roundHalfEven_mono (y := ((2 ^ k : ℕ) : ℚ)) (by exact_mod_cast h)
  rwa [roundHalfEven_natCast] at hm

private theorem two_pow_le_roundHalfEven {x : ℚ} {k : ℕ} (h : 2 ^ k ≤ x) :
    2 ^ k ≤ roundHalfEven x := by
  have hm := roundHalfEven_mono (x := ((2 ^ k : ℕ) : ℚ)) (by exact_mod_cast h)
  rwa [roundHalfEven_natCast] at hm

private theorem coefficient_le (s : ℚ) :
    roundHalfEven (s / 2 ^ F.excess ⌊s⌋₊) ≤ 2 ^ F.precision := by
  apply roundHalfEven_le_two_pow
  rw [div_le_iff₀ (by positivity), ← pow_add]
  exact (F.lt_two_pow_excess s).le

/-- Rounding to the precision of a format preserves order. -/
theorem roundUnits_mono {s t : ℚ} (h : s ≤ t) : F.roundUnits s ≤ F.roundUnits t := by
  have he : F.excess ⌊s⌋₊ ≤ F.excess ⌊t⌋₊ := F.excess_mono (Nat.floor_mono h)
  simp only [roundUnits]
  rcases Nat.eq_or_lt_of_le he with he | he
  · rw [he]
    exact Nat.mul_le_mul_right _ (roundHalfEven_mono (by gcongr))
  · have hlow : 2 ^ (F.precision - 1) ≤ roundHalfEven (t / 2 ^ F.excess ⌊t⌋₊) := by
      apply two_pow_le_roundHalfEven
      rw [le_div_iff₀ (by positivity), ← pow_add]
      exact F.two_pow_le_of_excess (by omega)
    have hexp : F.precision + F.excess ⌊s⌋₊ ≤ F.precision - 1 + F.excess ⌊t⌋₊ := by omega
    calc
      roundHalfEven (s / 2 ^ F.excess ⌊s⌋₊) * 2 ^ F.excess ⌊s⌋₊
          ≤ 2 ^ F.precision * 2 ^ F.excess ⌊s⌋₊ := Nat.mul_le_mul_right _ (F.coefficient_le s)
      _ = 2 ^ (F.precision + F.excess ⌊s⌋₊) := (pow_add ..).symm
      _ ≤ 2 ^ (F.precision - 1 + F.excess ⌊t⌋₊) := Nat.pow_le_pow_right (by decide) hexp
      _ = 2 ^ (F.precision - 1) * 2 ^ F.excess ⌊t⌋₊ := pow_add ..
      _ ≤ _ := Nat.mul_le_mul_right _ hlow

/-- A magnitude with no excess bits set is its own rounding. -/
theorem roundUnits_natCast {n : ℕ} (h : 2 ^ F.excess n ∣ n) : F.roundUnits n = n := by
  obtain ⟨k, hk⟩ := h
  have hd : (n : ℚ) / 2 ^ F.excess n = k := by
    rw [div_eq_iff (by positivity)]
    calc
      (n : ℚ) = ((2 ^ F.excess n * k : ℕ) : ℚ) := congrArg Nat.cast hk
      _ = k * 2 ^ F.excess n := by push_cast; ring
  simp only [roundUnits, Nat.floor_natCast, hd, roundHalfEven_natCast]
  rw [Nat.mul_comm]
  exact hk.symm

/-- A rounded magnitude has no excess bits set. -/
theorem two_pow_excess_dvd_roundUnits (s : ℚ) :
    2 ^ F.excess (F.roundUnits s) ∣ F.roundUnits s := by
  have hp := F.precision_pos
  have hc := F.coefficient_le s
  simp only [roundUnits]
  generalize roundHalfEven (s / 2 ^ F.excess ⌊s⌋₊) = m at hc ⊢
  generalize F.excess ⌊s⌋₊ = e
  rcases Nat.eq_or_lt_of_le hc with hm | hm
  · subst hm
    rw [← pow_add, excess, Nat.log2_two_pow]
    exact pow_dvd_pow 2 (by omega)
  · by_cases hz : m * 2 ^ e = 0
    · rw [hz]
      exact dvd_zero _
    · have hlt : m * 2 ^ e < 2 ^ (F.precision + e) := by
        rw [pow_add]
        exact Nat.mul_lt_mul_of_pos_right hm (by positivity)
      have hl := (Nat.log2_lt hz).mpr hlt
      exact (pow_dvd_pow 2 (by simp only [excess]; omega)).trans (Dvd.intro_left m rfl)

/-- Rounding stays below a magnitude without excess bits. -/
theorem roundUnits_le {s : ℚ} {n : ℕ} (hn : 2 ^ F.excess n ∣ n) (h : s ≤ n) :
    F.roundUnits s ≤ n :=
  (F.roundUnits_mono h).trans_eq (F.roundUnits_natCast hn)

/-- Rounding stays above a magnitude without excess bits. -/
theorem le_roundUnits {s : ℚ} {n : ℕ} (hn : 2 ^ F.excess n ∣ n) (h : n ≤ s) :
    n ≤ F.roundUnits s :=
  (F.roundUnits_natCast hn).symm.trans_le (F.roundUnits_mono h)

/-- A power of two has no excess bits set. -/
theorem two_pow_excess_dvd_two_pow (k : ℕ) : 2 ^ F.excess (2 ^ k) ∣ 2 ^ k := by
  have := F.precision_pos
  rw [excess, Nat.log2_two_pow]
  exact pow_dvd_pow 2 (by omega)

/-- A power of two bounds the rounding from above. -/
theorem roundUnits_le_two_pow {s : ℚ} {k : ℕ} (h : s ≤ 2 ^ k) : F.roundUnits s ≤ 2 ^ k :=
  F.roundUnits_le (F.two_pow_excess_dvd_two_pow k) (by exact_mod_cast h)

/-- A power of two bounds the rounding from below. -/
theorem two_pow_le_roundUnits {s : ℚ} {k : ℕ} (h : 2 ^ k ≤ s) : 2 ^ k ≤ F.roundUnits s :=
  F.le_roundUnits (F.two_pow_excess_dvd_two_pow k) (by exact_mod_cast h)

end Format

/-- A representable magnitude, in units of its format. -/
def Magnitude (F : Format) : Type := {n : ℕ // F.Representable n}

/-- Magnitudes are compared as numbers. -/
instance (F : Format) : DecidableEq (Magnitude F) := inferInstanceAs (DecidableEq {_n // _})

/-- The value of a magnitude. -/
def Magnitude.toRat {F : Format} (m : Magnitude F) : ℚ := (m.val : ℚ) / 2 ^ F.scale

/-- A datum of a format. A zero keeps its sign; a NaN keeps neither sign nor payload. -/
inductive Number (F : Format) where
  | nan
  | infinite (negative : Bool)
  | finite (negative : Bool) (magnitude : Magnitude F)
deriving DecidableEq

namespace Number

variable {F : Format}

/-- Neither an infinity nor a NaN. -/
def isFinite : Number F → Bool
  | .finite _ _ => true
  | _ => false

/-- One of the two infinities. -/
def isInfinite : Number F → Bool
  | .infinite _ => true
  | _ => false

/-- The rational number a finite datum denotes; zero for the other data. -/
def toRat : Number F → ℚ
  | .finite negative m => if negative then -m.toRat else m.toRat
  | _ => 0

/-- Round an exact result, overflowing to an infinity. The sign of an exact zero is given. -/
def round (F : Format) (negativeZero : Bool) (x : ℚ) : Number F :=
  let n := F.roundUnits (|x| * 2 ^ F.scale)
  if h : n < 2 ^ F.width then
    .finite (if x = 0 then negativeZero else decide (x < 0))
      ⟨n, F.two_pow_excess_dvd_roundUnits _, h⟩
  else .infinite (decide (x < 0))

/-- IEEE `<`: false whenever an operand is a NaN. -/
def lt : Number F → Number F → Bool
  | .nan, _ => false
  | _, .nan => false
  | .infinite s, .infinite t => s && !t
  | .infinite s, .finite _ _ => s
  | .finite _ _, .infinite t => !t
  | a, b => decide (a.toRat < b.toRat)

/-- IEEE `<=`: false whenever an operand is a NaN. -/
def le : Number F → Number F → Bool
  | .nan, _ => false
  | _, .nan => false
  | .infinite s, .infinite t => s || !t
  | .infinite s, .finite _ _ => s
  | .finite _ _, .infinite t => !t
  | a, b => decide (a.toRat ≤ b.toRat)

/-- Zero with positive sign. -/
def zero : Number F := .finite false ⟨0, dvd_zero _, by positivity⟩

/-- Conversion of a natural number. -/
def ofNat (n : ℕ) : Number F := round F false n

/-- Conversion between formats. -/
def convert (G : Format) : Number F → Number G
  | .nan => .nan
  | .infinite s => .infinite s
  | .finite s m => round G s (Number.finite s m).toRat

/-- Sign reversal. -/
def neg : Number F → Number F
  | .nan => .nan
  | .infinite s => .infinite !s
  | .finite s m => .finite (!s) m

/-- Absolute value. -/
def abs : Number F → Number F
  | .nan => .nan
  | .infinite _ => .infinite false
  | .finite _ m => .finite false m

/-- Sum. -/
def add : Number F → Number F → Number F
  | .nan, _ => .nan
  | _, .nan => .nan
  | .infinite s, .infinite t => if s = t then .infinite s else .nan
  | .infinite s, .finite _ _ => .infinite s
  | .finite _ _, .infinite t => .infinite t
  | .finite s m, .finite t n =>
    round F (s && t) ((Number.finite s m).toRat + (Number.finite t n).toRat)

/-- Difference. -/
def sub (a b : Number F) : Number F := add a b.neg

/-- Product. -/
def mul : Number F → Number F → Number F
  | .nan, _ => .nan
  | _, .nan => .nan
  | .infinite s, .infinite t => .infinite (s ^^ t)
  | .infinite s, .finite t n => if n.val = 0 then .nan else .infinite (s ^^ t)
  | .finite s m, .infinite t => if m.val = 0 then .nan else .infinite (s ^^ t)
  | .finite s m, .finite t n =>
    round F (s ^^ t) ((Number.finite s m).toRat * (Number.finite t n).toRat)

/-- Quotient. -/
def div : Number F → Number F → Number F
  | .nan, _ => .nan
  | _, .nan => .nan
  | .infinite _, .infinite _ => .nan
  | .infinite s, .finite t _ => .infinite (s ^^ t)
  | .finite s _, .infinite t => .finite (s ^^ t) ⟨0, dvd_zero _, by positivity⟩
  | .finite s m, .finite t n =>
    if n.val = 0 then
      if m.val = 0 then .nan else .infinite (s ^^ t)
    else round F (s ^^ t) ((Number.finite s m).toRat / (Number.finite t n).toRat)

/-- Square root. The root of `n` units is `√(n * 2 ^ scale)` units; a quarter unit above
the integer root of four times that stands for an inexact rest, which no tie can hit. -/
def sqrt : Number F → Number F
  | .nan => .nan
  | .infinite s => if s then .nan else .infinite false
  | .finite s m =>
    if m.val = 0 then .finite s m
    else if s then .nan
    else
      let k := 4 * (m.val * 2 ^ F.scale)
      let r := Nat.sqrt k
      round F false ((r / 2 + if r * r = k then 0 else 1 / 4) / 2 ^ F.scale)

/-- Finite data compare as the numbers they denote. -/
theorem lt_eq {a b : Number F} (ha : a.isFinite = true) (hb : b.isFinite = true) :
    a.lt b = decide (a.toRat < b.toRat) := by
  cases a <;> cases b <;> simp_all [isFinite, lt]

/-- Finite data compare as the numbers they denote. -/
theorem le_eq {a b : Number F} (ha : a.isFinite = true) (hb : b.isFinite = true) :
    a.le b = decide (a.toRat ≤ b.toRat) := by
  cases a <;> cases b <;> simp_all [isFinite, le]

/-- Without a NaN, `<` is the negation of the reversed `<=`. -/
theorem lt_eq_not_le {a b : Number F} (ha : a ≠ .nan) (hb : b ≠ .nan) : a.lt b = !b.le a := by
  cases a with
  | nan => exact absurd rfl ha
  | infinite s =>
    cases b with
    | nan => exact absurd rfl hb
    | infinite t => cases s <;> cases t <;> rfl
    | finite t n => simp [lt, le]
  | finite s m =>
    cases b with
    | nan => exact absurd rfl hb
    | infinite t => rfl
    | finite t n =>
      rw [lt_eq rfl rfl, le_eq rfl rfl, ← decide_not]
      exact decide_eq_decide.mpr not_le.symm

/-- Zero is finite. -/
theorem isFinite_zero : (zero : Number F).isFinite = true := rfl

/-- Zero denotes zero. -/
theorem toRat_zero : (zero : Number F).toRat = 0 := by simp [zero, toRat, Magnitude.toRat]

/-! ### Rounded results -/

/-- A rounded result is finite exactly when its units stay below the top. -/
theorem isFinite_round (z : Bool) (x : ℚ) :
    (round F z x).isFinite = true ↔ F.roundUnits (|x| * 2 ^ F.scale) < 2 ^ F.width := by
  simp only [round]
  split
  · next h => simpa [isFinite] using h
  · next h => simpa [isFinite] using h

/-- The magnitude of a finite rounded result. -/
theorem abs_toRat_round {z : Bool} {x : ℚ} (h : (round F z x).isFinite = true) :
    |(round F z x).toRat| = F.roundUnits (|x| * 2 ^ F.scale) / 2 ^ F.scale := by
  have hlt := (isFinite_round z x).mp h
  have hp : (0 : ℚ) ≤ F.roundUnits (|x| * 2 ^ F.scale) / 2 ^ F.scale := by positivity
  simp only [round, dif_pos hlt, toRat, Magnitude.toRat]
  generalize (if x = 0 then z else decide (x < 0)) = s
  cases s <;> simp [abs_of_nonneg hp]

/-- Zero rounds to zero. -/
theorem toRat_round_zero (z : Bool) : (round F z 0).toRat = 0 := by
  have h0 : F.roundUnits 0 = 0 := by
    simpa using F.roundUnits_natCast (dvd_zero (2 ^ F.excess 0))
  simp [round, h0, toRat, Magnitude.toRat]

/-- The sign given for an exact zero does not change the number a result denotes. -/
theorem toRat_round_sign (z z' : Bool) (x : ℚ) :
    (round F z x).toRat = (round F z' x).toRat := by
  by_cases hx : x = 0
  · rw [hx, toRat_round_zero, toRat_round_zero]
  · simp only [round, if_neg hx]

/-- A normal value does not round below the normal range. -/
theorem leastNormal_le_abs_toRat_round {z : Bool} {x : ℚ}
    (hf : (round F z x).isFinite = true) (h : F.leastNormal ≤ |x|) :
    F.leastNormal ≤ |(round F z x).toRat| := by
  rw [abs_toRat_round hf, Format.leastNormal]
  gcongr
  have hu : (2 : ℚ) ^ (F.precision - 1) ≤ |x| * 2 ^ F.scale := by
    rwa [Format.leastNormal, div_le_iff₀ (by positivity)] at h
  exact_mod_cast F.two_pow_le_roundUnits hu

/-- A value of magnitude at most a power of two below the top rounds to a finite datum. -/
theorem isFinite_round_of_le {z : Bool} {x : ℚ} {k : ℕ} (hk : k + F.scale < F.width)
    (h : |x| ≤ 2 ^ k) : (round F z x).isFinite = true := by
  rw [isFinite_round]
  refine (F.roundUnits_le_two_pow (k := k + F.scale) ?_).trans_lt
    (Nat.pow_lt_pow_right (by decide) hk)
  rw [pow_add]
  gcongr

private theorem excess_units_dvd {n : ℕ} (h : n ≤ 2 ^ F.precision) :
    2 ^ F.excess (n * 2 ^ F.scale) ∣ n * 2 ^ F.scale := by
  rcases Nat.eq_or_lt_of_le h with rfl | h
  · rw [← pow_add]
    exact F.two_pow_excess_dvd_two_pow _
  · by_cases hz : n * 2 ^ F.scale = 0
    · rw [hz]
      exact dvd_zero _
    · have hlt : n * 2 ^ F.scale < 2 ^ (F.precision + F.scale) := by
        rw [pow_add]
        exact Nat.mul_lt_mul_of_pos_right h (by positivity)
      have hl := (Nat.log2_lt hz).mpr hlt
      exact (pow_dvd_pow 2 (by simp only [Format.excess]; omega)).trans (Dvd.intro_left n rfl)

/-- A natural number within the precision is its own conversion. -/
theorem ofNat_eq {n : ℕ} (h : n ≤ 2 ^ F.precision) (ht : F.precision + F.scale < F.width) :
    (ofNat n : Number F).isFinite = true ∧ (ofNat n : Number F).toRat = n := by
  have hu : F.roundUnits (|(n : ℚ)| * 2 ^ F.scale) = n * 2 ^ F.scale := by
    have hc : |(n : ℚ)| * 2 ^ F.scale = ((n * 2 ^ F.scale : ℕ) : ℚ) := by
      rw [abs_of_nonneg (Nat.cast_nonneg n)]
      push_cast
      rfl
    rw [hc, F.roundUnits_natCast (excess_units_dvd h)]
  have hlt : n * 2 ^ F.scale < 2 ^ F.width := by
    calc
      n * 2 ^ F.scale ≤ 2 ^ F.precision * 2 ^ F.scale := Nat.mul_le_mul_right _ h
      _ = 2 ^ (F.precision + F.scale) := (pow_add ..).symm
      _ < 2 ^ F.width := Nat.pow_lt_pow_right (by decide) ht
  have hneg : (if (n : ℚ) = 0 then false else decide ((n : ℚ) < 0)) = false := by simp
  have hv : ((n * 2 ^ F.scale : ℕ) : ℚ) / 2 ^ F.scale = n := by
    push_cast
    field_simp
  constructor
  · rw [ofNat, isFinite_round, hu]
    exact hlt
  · simp only [ofNat, round, hu, dif_pos hlt, hneg, toRat, Magnitude.toRat, hv]
    rfl

end Number

/-! ### Decimals of a magnitude -/

/-- A magnitude is not negative. -/
theorem Magnitude.toRat_nonneg {F : Format} (m : Magnitude F) : 0 ≤ m.toRat :=
  div_nonneg (Nat.cast_nonneg _) (by positivity)

/-- A magnitude rounded to some decimals stays below the top of its format. -/
theorem roundUnits_decimals_lt {F : Format} (hF : F.scale + F.precision < F.width)
    (decimals : ℕ) (m : Magnitude F) :
    F.roundUnits ((roundHalfEven (m.toRat * 10 ^ decimals) : ℚ) / 10 ^ decimals * 2 ^ F.scale) <
      2 ^ F.width := by
  have hp : (0 : ℚ) < 10 ^ decimals := by positivity
  have hs : (0 : ℚ) < 2 ^ F.scale := by positivity
  by_cases hm : m.val < 2 ^ (F.scale + F.precision)
  · -- Below `2 ^ precision` the decimals stay at most `2 ^ precision`.
    have hx : m.toRat * 10 ^ decimals ≤ ((2 ^ F.precision * 10 ^ decimals : ℕ) : ℚ) := by
      push_cast
      gcongr
      rw [Magnitude.toRat, div_le_iff₀ hs, ← pow_add, Nat.add_comm]
      exact_mod_cast hm.le
    have hr := roundHalfEven_mono hx
    rw [roundHalfEven_natCast] at hr
    have hq : (roundHalfEven (m.toRat * 10 ^ decimals) : ℚ) / 10 ^ decimals ≤
        2 ^ F.precision := by
      rw [div_le_iff₀ hp]
      exact_mod_cast hr
    refine (F.roundUnits_le_two_pow (k := F.scale + F.precision) ?_).trans_lt
      (Nat.pow_lt_pow_right (by decide) hF)
    rw [Nat.add_comm, pow_add]
    gcongr
  · -- From there on the value is an integer, whose decimals are exact.
    have hdvd : 2 ^ F.scale ∣ m.val := by
      refine (pow_dvd_pow 2 ?_).trans m.property.1
      have hne : m.val ≠ 0 := by
        have : 0 < 2 ^ (F.scale + F.precision) := by positivity
        omega
      have hl : F.scale + F.precision ≤ m.val.log2 := (Nat.le_log2 hne).mpr (by omega)
      simp only [Format.excess]
      omega
    obtain ⟨k, hk⟩ := hdvd
    have hv : m.toRat = k := by
      rw [Magnitude.toRat, hk]
      push_cast
      field_simp
    have hn : (k : ℚ) * 10 ^ decimals = ((k * 10 ^ decimals : ℕ) : ℚ) := by push_cast; rfl
    have hu : ((k * 10 ^ decimals : ℕ) : ℚ) / 10 ^ decimals * 2 ^ F.scale = (m.val : ℚ) := by
      rw [hk]
      push_cast
      field_simp
    rw [hv, hn, roundHalfEven_natCast, hu, F.roundUnits_natCast m.property.1]
    exact m.property.2

end Ieee
