import Mathlib.Data.List.Induction

/-!
# Runs of a partial step function

A run takes the events of a list one after the other and ends early when a step is not
possible. What holds of the empty history and is kept by every step holds of every state
that is reached, together with the events that led there.
-/

namespace Trace

variable {σ ε : Type} {step : σ → ε → Option σ}

/-- The state behind the events, when every step is possible. -/
def runAll (step : σ → ε → Option σ) (s : σ) : List ε → Option σ
  | [] => some s
  | e :: events => (step s e).bind (fun s' ↦ runAll step s' events)

/-- A run of some events and more. -/
theorem runAll_append {s : σ} {events later : List ε} :
    runAll step s (events ++ later) =
      (runAll step s events).bind (fun s' ↦ runAll step s' later) := by
  induction events generalizing s with
  | nil => rfl
  | cons e events ih =>
    rw [List.cons_append, runAll, runAll, Option.bind_assoc]
    exact Option.bind_congr fun s' _ ↦ ih

/-- A run of one more event. -/
theorem runAll_concat {s : σ} {events : List ε} {e : ε} :
    runAll step s (events ++ [e]) = (runAll step s events).bind (fun s' ↦ step s' e) := by
  rw [runAll_append]
  refine Option.bind_congr fun s' _ ↦ ?_
  rw [runAll]
  cases step s' e <;> rfl

/-- A property of the history and the state that every step keeps holds behind every run. -/
theorem runAll_invariant {p : List ε → σ → Prop} {s s' : σ} {events : List ε}
    (start : p [] s)
    (next : ∀ past before e after, p past before → step before e = some after →
      p (past ++ [e]) after)
    (h : runAll step s events = some s') : p events s' := by
  induction events using List.reverseRecOn generalizing s' with
  | nil =>
    obtain rfl := Option.some.inj h
    exact start
  | append_singleton events e ih =>
    rw [runAll_concat] at h
    obtain ⟨before, hb, he⟩ := Option.bind_eq_some_iff.mp h
    exact next events before e s' (ih hb) he

/-- Where runs are bounded in length, a sequence of events of which the next one is possible in
every state that is not final leads to a final state. -/
theorem exists_final {s : σ} {final : σ → Prop} {next : ℕ → ε} {bound : ℕ}
    (bounded : ∀ n s', runAll step s ((List.range n).map next) = some s' → n ≤ bound)
    (possible : ∀ n s', runAll step s ((List.range n).map next) = some s' → ¬ final s' →
      (step s' (next n)).isSome = true) :
    ∃ n ≤ bound, ∃ s', runAll step s ((List.range n).map next) = some s' ∧ final s' := by
  by_contra hnever
  have hruns : ∀ n ≤ bound + 1, ∃ s', runAll step s ((List.range n).map next) = some s' := by
    intro n
    induction n with
    | zero => exact fun _ ↦ ⟨s, rfl⟩
    | succ n ih =>
      intro hn
      obtain ⟨s', hs'⟩ := ih (by omega)
      have hgoes : ¬ final s' := fun hfinal ↦ hnever ⟨n, by omega, s', hs', hfinal⟩
      obtain ⟨s'', hstep⟩ := Option.isSome_iff_exists.mp (possible n s' hs' hgoes)
      refine ⟨s'', ?_⟩
      rw [List.range_succ, List.map_append, List.map_singleton, runAll_concat, hs',
        Option.bind_some, hstep]
  obtain ⟨s', hs'⟩ := hruns (bound + 1) (Nat.le_refl _)
  have hbound := bounded _ s' hs'
  omega

end Trace
