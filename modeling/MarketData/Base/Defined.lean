import MarketData.Base.Checked

/-!
# Computations without undefined behaviour

A computation that returns or throws. The rules follow the ways in which computations are put
together, so that only a conversion out of range has to be looked at.
-/

namespace Cpp

open ByteText

/-- The computation returns or throws. -/
def Defined {α : Type} (x : Checked α) : Prop := x ≠ .error .undefined

variable {α β : Type}

/-- A result is defined. -/
theorem defined_ok (a : α) : Defined (.ok a : Checked α) := nofun

/-- An exception is defined. -/
theorem defined_exception (what : Bytes) : Defined (.error (.exception what) : Checked α) := by
  intro h
  cases h

/-- A sequence is defined when its parts are. -/
theorem Defined.bind {x : Checked α} {f : α → Checked β} (hx : Defined x)
    (hf : ∀ a, x = .ok a → Defined (f a)) : Defined (x >>= f) := by
  cases x with
  | error e => exact fun h ↦ hx (congrArg Except.error (Except.error.inj h))
  | ok a => exact hf a rfl

/-- A defined computation stays defined under a map of its result. -/
theorem Defined.map {x : Checked α} (hx : Defined x) (f : α → β) : Defined (f <$> x) := by
  cases x with
  | error e => exact fun h ↦ hx (congrArg Except.error (Except.error.inj h))
  | ok a => exact defined_ok (f a)

/-- A check is defined. -/
theorem defined_throwUnless (condition : Prop) [Decidable condition] (what : Bytes) :
    Defined (throwUnless condition what) := by
  unfold throwUnless
  split
  · exact defined_ok ()
  · exact defined_exception what

/-- A substring is defined: it is there, or `substr` throws. -/
theorem defined_substr (text : Bytes) (position count : Nat) :
    Defined (substr text position count) := by
  unfold substr
  split
  · exact defined_ok _
  · exact defined_exception _

/-- The computation reaches undefined behaviour only where the condition holds. -/
def DefinedUnless {α : Type} (condition : Prop) (x : Checked α) : Prop :=
  x = .error .undefined → condition

/-- A defined computation never does. -/
theorem Defined.unless {condition : Prop} {x : Checked α} (hx : Defined x) :
    DefinedUnless condition x :=
  fun h ↦ absurd h hx

/-- A sequence is defined unless a part of it is not. -/
theorem DefinedUnless.bind {condition : Prop} {x : Checked α} {f : α → Checked β}
    (hx : DefinedUnless condition x) (hf : ∀ a, x = .ok a → DefinedUnless condition (f a)) :
    DefinedUnless condition (x >>= f) := by
  cases x with
  | error e => exact fun h ↦ hx (congrArg Except.error (Except.error.inj h))
  | ok a => exact hf a rfl

/-- A defined computation that does not return throws. -/
theorem Defined.throws {x : Checked α} (hx : Defined x) (h : ∀ a, x ≠ .ok a) :
    ∃ what, x = .error (.exception what) := by
  cases x with
  | ok a => exact absurd rfl (h a)
  | error e =>
    cases e with
    | undefined => exact absurd rfl hx
    | exception what => exact ⟨what, rfl⟩

/-- What holds of no exception holds of a sequence when its first part, if defined, returns and it
holds of the rest. -/
theorem Defined.bind_iff {r : Checked β → Prop} (hr : ∀ what, ¬ r (.error (.exception what)))
    {x : Checked α} (hx : Defined x) {f : α → Checked β} :
    r (x >>= f) ↔ ∃ a, x = .ok a ∧ r (f a) := by
  constructor
  · intro h
    by_contra hnone
    have hfail : ∀ a, x ≠ .ok a := by
      rintro a rfl
      exact hnone ⟨a, rfl, h⟩
    obtain ⟨what, rfl⟩ := hx.throws hfail
    exact hr what h
  · rintro ⟨a, rfl, h⟩
    exact h

/-- A sequence reaches undefined behaviour behind a defined part only in the rest. -/
theorem Defined.bind_eq_undefined {x : Checked α} (hx : Defined x) {f : α → Checked β} :
    (x >>= f) = .error .undefined ↔ ∃ a, x = .ok a ∧ f a = .error .undefined :=
  hx.bind_iff (r := (· = .error .undefined)) nofun

end Cpp
