import MarketData.Base.Checked

/-!
# Arithmetic of numeric code

Code that computes with `double` is written once, over any type with these operations, so
that it can also be read in exact arithmetic. A comparison with a NaN is false, and an
index outside the range of `size_t` is undefined.
-/

namespace Cpp

open Ieee

/-- The operations on `double` that numeric code uses. -/
class Arithmetic (α : Type) extends Zero α, Add α, Sub α, Mul α, Div α where
  literal : ℚ → α
  lt : α → α → Bool
  isNan : α → Bool
  sqrt : α → α
  floorIndex : α → Checked Nat
  ceilIndex : α → Checked Nat

/-- `static_cast<size_t>` of an integral value: the number itself, undefined below zero and from
`2 ^ 64` on. -/
def indexOf (n : ℤ) : Checked Nat :=
  if 0 ≤ n ∧ n < 2 ^ 64 then .ok n.toNat else .error .undefined

/-- The positive zero. -/
instance {F : Format} : Zero (Number F) := ⟨.zero⟩
/-- The rounded sum. -/
instance {F : Format} : Add (Number F) := ⟨.add⟩
/-- The rounded difference. -/
instance {F : Format} : Sub (Number F) := ⟨.sub⟩
/-- The rounded product. -/
instance {F : Format} : Mul (Number F) := ⟨.mul⟩
/-- The rounded quotient. -/
instance {F : Format} : Div (Number F) := ⟨.div⟩

/-- The arithmetic as it is compiled. -/
instance : Arithmetic Double where
  literal := Number.round binary64 false
  lt := Number.lt
  isNan x := decide (x = .nan)
  sqrt := Number.sqrt
  floorIndex x := if x.isFinite then indexOf ⌊x.toRat⌋ else .error .undefined
  ceilIndex x := if x.isFinite then indexOf ⌈x.toRat⌉ else .error .undefined

export Arithmetic (literal)

section

variable {α : Type} [Arithmetic α]

/-- `std::clamp`: the bound that the value lies beyond, or the value. -/
def clamp (value low high : α) : α :=
  if Arithmetic.lt value low then low else if Arithmetic.lt high value then high else value

/-- `std::max`, which keeps the first argument unless the second is greater. -/
def maxOf (a b : α) : α := if Arithmetic.lt a b then b else a

/-- `operator[]` of a vector: the element at an index, undefined past the end. -/
def element {β : Type} (values : List β) (index : Nat) : Checked β :=
  match values[index]? with
  | some value => .ok value
  | none => .error .undefined

/-- An access returns the element at the index. -/
theorem element_eq_ok {β : Type} {values : List β} {index : Nat} {value : β} :
    element values index = .ok value ↔ values[index]? = some value := by
  unfold element
  cases values[index]? <;> simp

end

/-- The guard of a product by a division. -/
theorem product_overflows_iff {a b : UInt64} (hb : 0 < b.toNat) :
    UInt64.ofNat (2 ^ 64 - 1) / b < a ↔ 2 ^ 64 ≤ a.toNat * b.toNat := by
  have hmax : (UInt64.ofNat (2 ^ 64 - 1)).toNat = 2 ^ 64 - 1 := by decide
  rw [UInt64.lt_iff_toNat_lt, UInt64.toNat_div, hmax, Nat.div_lt_iff_lt_mul hb]
  omega

/-! ### Loops -/

section

variable {α : Type} {body : α → Checked α} {n : Nat} {a b : α}

/-- The loop `for (size_t i = 0; i < n; ++i)` around a body that does not read `i`. -/
def repeatTimes (body : α → Checked α) : Nat → α → Checked α
  | 0, a => .ok a
  | n + 1, a => body a >>= repeatTimes body n

/-- What holds before a loop and is kept by its body holds after it. -/
theorem repeatTimes_invariant {p : Nat → α → Prop} {k : Nat} (start : p k a)
    (next : ∀ k a b, p k a → body a = .ok b → p (k + 1) b)
    (h : repeatTimes body n a = .ok b) : p (k + n) b := by
  induction n generalizing a k with
  | zero =>
    obtain rfl := Except.ok.inj h
    exact start
  | succ n ih =>
    obtain ⟨c, hc, hrest⟩ := bind_eq_ok.mp h
    have := ih (next k a c start hc) hrest
    rwa [Nat.add_right_comm] at this

end

end Cpp
