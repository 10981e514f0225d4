import Mathlib.Tactic.Basic

/-!
# Triples of state programs

A triple says what holds of the answer and the state behind a program when something held of the
state before it. The rules follow the way programs are put together.
-/

namespace StateProgram

variable {σ α β : Type} {P P' : σ → Prop} {Q Q' : α → σ → Prop}

/-- From every state with `P` the program ends with an answer and a state with `Q`. -/
def Ensures (P : σ → Prop) (x : StateM σ α) (Q : α → σ → Prop) : Prop :=
  ∀ s, P s → Q (x.run s).1 (x.run s).2

/-- The program keeps a property of the state, whatever it answers. -/
abbrev Keeps (P : σ → Prop) (x : StateM σ α) : Prop :=
  Ensures P x fun _ ↦ P

/-- A program that only answers. -/
theorem Ensures.pure {a : α} (h : ∀ s, P s → Q a s) :
    Ensures P (Pure.pure a : StateM σ α) Q :=
  h

/-- One program behind another. -/
theorem Ensures.bind {x : StateM σ α} {f : α → StateM σ β} {R : α → σ → Prop}
    {Q : β → σ → Prop} (hx : Ensures P x R) (hf : ∀ a, Ensures (R a) (f a) Q) :
    Ensures P (x >>= f) Q := by
  intro s hs
  exact hf _ _ (hx s hs)

/-- A program that reads the state first. -/
theorem Ensures.get {f : σ → StateM σ α} (h : ∀ s, Ensures (fun t ↦ t = s ∧ P s) (f s) Q) :
    Ensures P (MonadState.get >>= f) Q := by
  intro s hs
  exact h s s ⟨rfl, hs⟩

/-- A program that reads the state first, where it does not matter what it reads. -/
theorem Ensures.get_any {f : σ → StateM σ α} (h : ∀ s, Ensures P (f s) Q) :
    Ensures P (MonadState.get >>= f) Q := by
  intro s hs
  exact h s s hs

/-- A program that changes the state. -/
theorem Ensures.modify {f : σ → σ} {Q : PUnit → σ → Prop} (h : ∀ s, P s → Q ⟨⟩ (f s)) :
    Ensures P (MonadState.modifyGet fun s ↦ (⟨⟩, f s) : StateM σ PUnit) Q :=
  h

/-- A stronger precondition and a weaker postcondition. -/
theorem Ensures.mono {x : StateM σ α} (h : Ensures P x Q) (hP : ∀ s, P' s → P s)
    (hQ : ∀ a s, Q a s → Q' a s) : Ensures P' x Q' := by
  intro s hs
  exact hQ _ _ (h s (hP s hs))

/-- A weaker postcondition. -/
theorem Ensures.weaken {x : StateM σ α} (h : Ensures P x Q) (hQ : ∀ a s, Q a s → Q' a s) :
    Ensures P x Q' :=
  h.mono (fun _ hs ↦ hs) hQ

/-- A program that branches. -/
theorem Ensures.ite {c : Prop} [Decidable c] {x y : StateM σ α}
    (hx : c → Ensures P x Q) (hy : ¬ c → Ensures P y Q) : Ensures P (if c then x else y) Q := by
  split
  · exact hx ‹_›
  · exact hy ‹_›

/-- A program that returns early when its first part answers false. -/
theorem Ensures.orReturn {x : StateM σ Bool} {a : α} {y : StateM σ α} {R : σ → Prop}
    (hx : Ensures P x fun ok s ↦ if ok then R s else Q a s) (hy : Ensures R y Q) :
    Ensures P (x >>= fun ok ↦ if (!ok) = true then Pure.pure a else y) Q := by
  refine Ensures.bind hx ?_
  intro ok
  cases ok with
  | false => exact fun _ hs ↦ hs
  | true => exact hy

/-- A program that returns early behind a first part that keeps a property. -/
theorem Keeps.orReturn {x : StateM σ Bool} {a : α} {y : StateM σ α} (hx : Keeps P x)
    (ha : ∀ s, P s → Q a s) (hy : Ensures P y Q) :
    Ensures P (x >>= fun ok ↦ if (!ok) = true then Pure.pure a else y) Q := by
  refine Ensures.bind hx ?_
  intro ok
  cases ok with
  | false => exact ha
  | true => exact hy

/-- A part of the precondition that is not about the state. -/
theorem Ensures.of_prop {c : Prop} {x : StateM σ α} (h : c → Ensures P x Q) :
    Ensures (fun s ↦ c ∧ P s) x Q := by
  rintro s ⟨hc, hs⟩
  exact h hc s hs

/-- What holds of the state before a program and does not depend on it is available throughout. -/
theorem Ensures.of_pre {x : StateM σ α} (h : ∀ s, P s → Ensures (fun t ↦ t = s) x Q) :
    Ensures P x Q := by
  intro s hs
  exact h s hs s rfl

end StateProgram
