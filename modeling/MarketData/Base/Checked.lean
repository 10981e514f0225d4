import MarketData.Base.FloatText

/-!
# Outcomes and output of C++ computations

A computation returns, throws an exception with its text, or reaches undefined
behaviour, which no handler catches. Only the conversion of a `double` outside the
range of the target integer type is undefined here. A stream is the text written to it.
-/

namespace Cpp

open ByteText Ieee

/-- The type `double`. -/
abbrev Double := Number binary64

/-- The type `float`. -/
abbrev Single := Number binary32

/-- Why a computation did not return. -/
inductive Failure where
  | exception (what : Bytes)
  | undefined
deriving DecidableEq

/-- A computation that may throw. -/
abbrev Checked := Except Failure

/-- `throw std::runtime_error(what)` unless the condition holds. -/
def throwUnless (condition : Prop) [Decidable condition] (what : Bytes) : Checked Unit :=
  if condition then .ok () else .error (.exception what)

/-- `string_view::substr`, which throws when the start lies past the end. -/
def substr (text : Bytes) (position count : Nat) : Checked Bytes :=
  match substr? text position count with
  | some slice => .ok slice
  | none => .error (.exception (ascii "basic_string_view::substr"))

/-- `static_cast<double>` of a 64-bit integer. -/
def doubleOf (n : UInt64) : Double := .ofNat n.toNat

/-- `static_cast<std::uint64_t>` of a `double`: truncation, undefined out of range. -/
def toUInt64 (x : Double) : Checked UInt64 :=
  if x.isFinite = true ∧ -1 < x.toRat ∧ x.toRat < 2 ^ 64 then .ok (UInt64.ofNat ⌊x.toRat⌋₊)
  else .error .undefined

/-- The check both readers make before they convert a number to an unsigned field. -/
def unsignedOf (field : Bytes) (value : Double) : Checked UInt64 := do
  throwUnless (¬ (value.lt .zero = true ∨ (doubleOf (.ofNat (2 ^ 64 - 1))).lt value = true ∨
    (⌊value.toRat⌋ : ℚ) ≠ value.toRat)) (ascii "field must be an unsigned integer: " ++ field)
  toUInt64 value

/-- Successive `<<` into one stream. -/
def stream (pieces : List Bytes) : Bytes := pieces.flatten

/-- `operator<<` of an unsigned integer. -/
def printUnsigned (n : UInt64) : Bytes := decimal n.toNat

/-- A computation that returned hands its result on. -/
@[simp] theorem ok_bind {α β : Type} (a : α) (f : α → Checked β) : (Except.ok a >>= f) = f a := rfl

/-- A computation that failed ends the sequence. -/
@[simp] theorem error_bind {α β : Type} (e : Failure) (f : α → Checked β) :
    (Except.error e >>= f) = .error e := rfl

/-- A sequence returns exactly when both computations do. -/
theorem bind_eq_ok {α β : Type} {x : Checked α} {f : α → Checked β} {b : β} :
    (x >>= f) = .ok b ↔ ∃ a, x = .ok a ∧ f a = .ok b := by
  cases x with
  | error e => simp [bind, Except.bind]
  | ok a => simp [bind, Except.bind]

/-- A result is mapped exactly when the computation returns. -/
theorem map_eq_ok {α β : Type} {x : Checked α} {f : α → β} {b : β} :
    f <$> x = .ok b ↔ ∃ a, x = .ok a ∧ f a = b := by
  cases x with
  | error e => simp [Functor.map, Except.map]
  | ok a => simp [Functor.map, Except.map]

/-- What follows a computation matters only for the values it returns. -/
theorem bind_congr_ok {α β : Type} {x : Checked α} {f g : α → Checked β}
    (h : ∀ a, x = .ok a → f a = g a) : (x >>= f) = (x >>= g) := by
  cases x with
  | error e => rfl
  | ok a => exact h a rfl

/-- A check passes exactly when its condition holds. -/
theorem throwUnless_eq_ok {condition : Prop} [Decidable condition] {what : Bytes} {u : Unit} :
    throwUnless condition what = .ok u ↔ condition := by
  unfold throwUnless
  split <;> simp_all

/-- The only failure of a check is its exception. -/
theorem throwUnless_eq_error {condition : Prop} [Decidable condition] {what : Bytes}
    {e : Failure} (h : throwUnless condition what = .error e) : e = .exception what := by
  unfold throwUnless at h
  split at h
  · cases h
  · exact (Except.error.inj h).symm

/-- A sequence fails where its first part does, or the part behind it. -/
theorem bind_eq_error {α β : Type} {x : Checked α} {f : α → Checked β} {e : Failure}
    (h : (x >>= f) = .error e) : x = .error e ∨ ∃ a, x = .ok a ∧ f a = .error e := by
  cases x with
  | error e' =>
    obtain rfl := Except.error.inj h
    exact .inl rfl
  | ok a => exact .inr ⟨a, rfl, h⟩

/-- The exception of a field that is no unsigned integer. -/
def notUnsigned (field : Bytes) : Failure :=
  .exception (ascii "field must be an unsigned integer: " ++ field)

private theorem doubleOf_greatest : (doubleOf (.ofNat (2 ^ 64 - 1))).isFinite = true ∧
    (doubleOf (.ofNat (2 ^ 64 - 1))).toRat = 2 ^ 64 := by
  decide +kernel

private theorem unsigned_check {x : Double} (hf : x.isFinite = true) :
    (x.lt .zero = true ∨ (doubleOf (.ofNat (2 ^ 64 - 1))).lt x = true ∨
      (⌊x.toRat⌋ : ℚ) ≠ x.toRat) ↔ x.toRat < 0 ∨ 2 ^ 64 < x.toRat ∨ (⌊x.toRat⌋ : ℚ) ≠ x.toRat := by
  rw [Number.lt_eq hf Number.isFinite_zero, Number.lt_eq doubleOf_greatest.1 hf, Number.toRat_zero,
    doubleOf_greatest.2, decide_eq_true_eq, decide_eq_true_eq]

/-- A number below zero is rejected. -/
theorem unsignedOf_of_neg {x : Double} (field : Bytes) (hf : x.isFinite = true) (hx : x.toRat < 0) :
    unsignedOf field x = .error (notUnsigned field) := by
  rw [unsignedOf, throwUnless, if_neg (not_not.mpr ((unsigned_check hf).mpr (.inl hx))),
    notUnsigned]
  rfl

/-- A natural number is rejected above `2 ^ 64`, where the greatest 64-bit integer rounds to; below
it is returned, and the conversion of `2 ^ 64` itself is undefined. -/
theorem unsignedOf_of_nat {x : Double} {n : Nat} (field : Bytes) (hf : x.isFinite = true)
    (hx : x.toRat = n) : unsignedOf field x =
      if 2 ^ 64 < n then .error (notUnsigned field)
      else if n < 2 ^ 64 then .ok (UInt64.ofNat n) else .error .undefined := by
  have hpos : ¬ (n : ℚ) < 0 := not_lt.mpr (Nat.cast_nonneg n)
  have hfloor : ¬ (⌊(n : ℚ)⌋ : ℚ) ≠ n := by
    rw [Int.floor_natCast]
    exact not_not.mpr rfl
  have hlt : (n : ℚ) < 2 ^ 64 ↔ n < 2 ^ 64 := by exact_mod_cast Iff.rfl
  have hlarge : (2 : ℚ) ^ 64 < n ↔ 2 ^ 64 < n := by exact_mod_cast Iff.rfl
  have hcheck := (unsigned_check hf).trans (show x.toRat < 0 ∨ 2 ^ 64 < x.toRat ∨
      (⌊x.toRat⌋ : ℚ) ≠ x.toRat ↔ 2 ^ 64 < n by
    rw [hx]
    simp only [hpos, hfloor, hlarge, false_or, or_false])
  rw [unsignedOf, throwUnless]
  by_cases h : 2 ^ 64 < n
  · rw [if_neg (not_not.mpr (hcheck.mpr h)), if_pos h]
    rfl
  · have hneg : (-1 : ℚ) < n := lt_of_lt_of_le (by norm_num) (Nat.cast_nonneg n)
    rw [if_pos (fun hc ↦ h (hcheck.mp hc)), if_neg h, ok_bind, toUInt64, hx, Nat.floor_natCast]
    simp only [hf, hneg, hlt, true_and]

/-- An unsigned integer up to `2 ^ 53` survives the way through a `double`. -/
theorem unsignedOf_doubleOf {n : UInt64} (field : Bytes) (h : n.toNat ≤ 2 ^ 53) :
    unsignedOf field (doubleOf n) = .ok n := by
  obtain ⟨hf, hv⟩ : (doubleOf n).isFinite = true ∧ (doubleOf n).toRat = n.toNat :=
    Number.ofNat_eq (F := binary64) h (by decide)
  rw [unsignedOf_of_nat field hf hv, if_neg (by omega), if_pos n.toNat_lt, UInt64.ofNat_toNat]

/-- An unsigned field holds the number that was read. -/
theorem unsignedOf_eq_ok {field : Bytes} {x : Double} {n : UInt64}
    (h : unsignedOf field x = .ok n) : (n.toNat : ℚ) = x.toRat := by
  obtain ⟨_, hcheck, h⟩ := bind_eq_ok.mp h
  have hcheck := throwUnless_eq_ok.mp hcheck
  rw [not_or, not_or, not_not] at hcheck
  obtain ⟨hneg, -, hfloor⟩ := hcheck
  unfold toUInt64 at h
  split at h
  · next hrange =>
    obtain ⟨hf, -, hlt⟩ := hrange
    obtain rfl := Except.ok.inj h
    rw [Number.lt_eq hf Number.isFinite_zero, Number.toRat_zero, decide_eq_true_eq,
      not_lt] at hneg
    have hcast : ((⌊x.toRat⌋₊ : ℕ) : ℚ) = x.toRat :=
      (natCast_floor_eq_intCast_floor hneg).trans hfloor
    have hsmall : ⌊x.toRat⌋₊ < 2 ^ 64 := by
      have : ((⌊x.toRat⌋₊ : ℕ) : ℚ) < 2 ^ 64 := by rw [hcast]; exact hlt
      exact_mod_cast this
    rw [UInt64.toNat_ofNat', Nat.mod_eq_of_lt hsmall, hcast]
  · cases h

/-- Only the conversion of `2 ^ 64` is undefined. -/
theorem unsignedOf_eq_undefined {x : Double} (field : Bytes) (hf : x.isFinite = true) :
    unsignedOf field x = .error .undefined ↔ x.toRat = 2 ^ 64 := by
  constructor
  · intro h
    rcases bind_eq_error h with hthrow | ⟨_, hcheck, h⟩
    · cases throwUnless_eq_error hthrow
    have hcheck := throwUnless_eq_ok.mp hcheck
    rw [unsigned_check hf, not_or, not_or, not_lt, not_lt] at hcheck
    unfold toUInt64 at h
    split at h
    · cases h
    · next hrange =>
      have hneg : -1 < x.toRat := neg_one_lt_zero.trans_le hcheck.1
      exact hcheck.2.1.antisymm (not_lt.mp fun hlt ↦ hrange ⟨hf, hneg, hlt⟩)
  · intro h
    have hnat : x.toRat = (2 ^ 64 : ℕ) := by rw [h, Nat.cast_pow, Nat.cast_ofNat]
    rw [unsignedOf_of_nat field hf hnat, if_neg (lt_irrefl _), if_neg (lt_irrefl _)]

/-- A slice from inside the text is the bytes left there, cut at its length. -/
theorem substr_append (before after : Bytes) (count : Nat) :
    substr (before ++ after) before.length count = .ok (after.take count) := by
  simp [substr, substr?]

end Cpp
