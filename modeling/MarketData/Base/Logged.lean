import MarketData.Base.Arithmetic
import Mathlib.Logic.Function.Iterate

/-!
# Computations that record events

A computation together with the events on its way. What was recorded before a failure stays
recorded. A loop whose body records one event is described by the states it goes through.
-/

namespace Cpp

/-- A computation that may throw, with the events it has recorded. -/
structure Logged (ε α : Type) where
  log : List ε
  result : Checked α

namespace Logged

variable {ε α β : Type}

/-- A computation that records nothing. -/
def silent (x : Checked α) : Logged ε α := ⟨[], x⟩

/-- One computation behind another, which does not start when the first fails. -/
def andThen (x : Logged ε α) (f : α → Logged ε β) : Logged ε β :=
  match x.result with
  | .error e => ⟨x.log, .error e⟩
  | .ok a => ⟨x.log ++ (f a).log, (f a).result⟩

/-- One computation after the other, the entries of the first in front. -/
instance : Monad (Logged ε) where
  pure a := silent (.ok a)
  bind := andThen

/-- The loop `for (size_t i = 0; i < n; ++i)` around a body that does not read `i`. -/
def repeatTimes (body : α → Logged ε α) : Nat → α → Logged ε α
  | 0, a => silent (.ok a)
  | n + 1, a => body a >>= repeatTimes body n

/-- A silent computation has the result of the computation. -/
@[simp] theorem result_silent (x : Checked α) : (silent x : Logged ε α).result = x := rfl

/-- A silent computation logs nothing. -/
@[simp] theorem log_silent (x : Checked α) : (silent x : Logged ε α).log = [] := rfl

/-- Recording does not change what is computed. -/
@[simp] theorem result_bind (x : Logged ε α) (f : α → Logged ε β) :
    (x >>= f).result = x.result >>= fun a ↦ (f a).result := by
  change (x.andThen f).result = _
  unfold andThen
  cases x.result <;> rfl

/-- A computation that failed ends the record. -/
theorem bind_of_error {x : Logged ε α} {e : Failure} (f : α → Logged ε β)
    (h : x.result = .error e) : x >>= f = ⟨x.log, .error e⟩ := by
  change x.andThen f = _
  rw [andThen, h]

/-- The record of a computation that returned goes on. -/
theorem bind_of_ok {x : Logged ε α} {a : α} (f : α → Logged ε β) (h : x.result = .ok a) :
    x >>= f = ⟨x.log ++ (f a).log, (f a).result⟩ := by
  change x.andThen f = _
  rw [andThen, h]

/-- What records nothing adds nothing to the record before it. -/
theorem log_bind_of_silent (x : Logged ε α) {f : α → Logged ε β} (h : ∀ a, (f a).log = []) :
    (x >>= f).log = x.log := by
  change (x.andThen f).log = _
  unfold andThen
  cases x.result with
  | error e => rfl
  | ok a => simp only [h a, List.append_nil]

/-- Recording does not change what a loop computes. -/
@[simp] theorem result_repeatTimes (body : α → Logged ε α) (n : Nat) (a : α) :
    (repeatTimes body n a).result = Cpp.repeatTimes (fun a ↦ (body a).result) n a := by
  induction n generalizing a with
  | zero => rfl
  | succ n ih =>
    rw [repeatTimes, Cpp.repeatTimes, result_bind]
    exact bind_congr_ok fun b _ ↦ ih b

/-! ### Loops of recorded steps -/

/-- A body that records one event, and then either moves on or fails. -/
structure Steps (body : α → Logged ε α) (event : α → ε) (succeeds : α → Bool) (next : α → α)
    (failure : Failure) : Prop where
  log : ∀ a, (body a).log = [event a]
  result : ∀ a, (body a).result = if succeeds a then .ok (next a) else .error failure

variable {body : α → Logged ε α} {event : α → ε} {succeeds : α → Bool} {next : α → α}
  {failure : Failure}

private theorem map_range_succ (f : α → ε) (n : Nat) (a : α) :
    f a :: (List.range n).map (fun j ↦ f (next^[j] (next a))) =
      (List.range (n + 1)).map (fun j ↦ f (next^[j] a)) := by
  rw [List.range_succ_eq_map, List.map_cons, List.map_map]
  rfl

/-- A loop of recorded steps records every step up to the first failure, or all of them. -/
theorem repeatTimes_of_steps (h : Steps body event succeeds next failure) (n : Nat) (a : α) :
    ((∀ j < n, succeeds (next^[j] a) = true) ∧ repeatTimes body n a =
        ⟨(List.range n).map (fun j ↦ event (next^[j] a)), .ok (next^[n] a)⟩) ∨
      ∃ k < n, (∀ j < k, succeeds (next^[j] a) = true) ∧ succeeds (next^[k] a) = false ∧
        repeatTimes body n a =
          ⟨(List.range (k + 1)).map (fun j ↦ event (next^[j] a)), .error failure⟩ := by
  induction n generalizing a with
  | zero => exact .inl ⟨fun _ hj ↦ absurd hj (Nat.not_lt_zero _), rfl⟩
  | succ n ih =>
    have hresult := h.result a
    cases hs : succeeds a with
    | false =>
      rw [hs] at hresult
      refine .inr ⟨0, Nat.succ_pos n, fun _ hj ↦ absurd hj (Nat.not_lt_zero _), hs, ?_⟩
      rw [repeatTimes, bind_of_error _ hresult, h.log]
      rfl
    | true =>
      rw [hs] at hresult
      have hshift : ∀ k, (∀ j < k, succeeds (next^[j] (next a)) = true) →
          ∀ j < k + 1, succeeds (next^[j] a) = true := by
        intro k hk j hj
        cases j with
        | zero => exact hs
        | succ j => exact hk j (Nat.lt_of_succ_lt_succ hj)
      rw [repeatTimes, bind_of_ok _ hresult, h.log]
      rcases ih (next a) with ⟨hall, hrun⟩ | ⟨k, hk, hbefore, hfails, hrun⟩
      · refine .inl ⟨hshift n hall, ?_⟩
        rw [hrun, List.singleton_append, map_range_succ]
        rfl
      · refine .inr ⟨k + 1, Nat.succ_lt_succ hk, hshift k hbefore, hfails, ?_⟩
        rw [hrun, List.singleton_append, map_range_succ]

end Logged

end Cpp
