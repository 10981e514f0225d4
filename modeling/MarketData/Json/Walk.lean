import MarketData.Json.Balanced

/-!
# Reading past balanced text

A loop over a text is seen as a function of the bytes before its cursor and those from it
on. A loop that tracks containers by a state, one push for each opening delimiter and one
pop for the delimiter that closes it, and that skips strings whole, passes every balanced
stretch without a change of its state.
-/

namespace Json

open ByteText

/-- The loop goes on behind a stretch of text as it does in front of it. -/
def Moves {α : Type} (loop : Bytes → Bytes → α) (before stretch after : Bytes) : Prop :=
  loop before (stretch ++ after) = loop (before ++ stretch) after

namespace Moves

variable {α : Type} {loop : Bytes → Bytes → α} {before s t after : Bytes}

/-- Two stretches one after the other. -/
theorem append (hs : Moves loop before s (t ++ after)) (ht : Moves loop (before ++ s) t after) :
    Moves loop before (s ++ t) after := by
  unfold Moves at *
  rw [List.append_assoc, hs, ht, List.append_assoc]

/-- A run of bytes that are each passed. -/
theorem run (h : ∀ b ∈ s, ∀ before after, loop before (b :: after) = loop (before ++ [b]) after) :
    Moves loop before s after := by
  induction s generalizing before with
  | nil => simp [Moves]
  | cons b s ih =>
    exact append (s := [b]) (h b (by simp) before (s ++ after))
      (ih (fun c hc ↦ h c (by simp [hc])))

end Moves

/-- A loop that tracks containers by a state. -/
structure Walker (σ α : Type) where
  loop : σ → Bytes → Bytes → α
  push : UInt8 → σ → σ
  plain : ∀ s before after b, isPlain b = true →
    loop s before (b :: after) = loop s (before ++ [b]) after
  string : ∀ s before after (l : Literal), Moves (loop s) before l.quoted after
  opened : ∀ s before after b, b = openBrace ∨ b = openBracket →
    loop s before (b :: after) = loop (push b s) (before ++ [b]) after
  closedBrace : ∀ s before after,
    loop (push openBrace s) before (closeBrace :: after) = loop s (before ++ [closeBrace]) after
  closedBracket : ∀ s before after,
    loop (push openBracket s) before (closeBracket :: after) =
      loop s (before ++ [closeBracket]) after

namespace Walker

variable {σ α : Type} (walker : Walker σ α)

/-- A balanced stretch is passed with the state unchanged. -/
theorem moves_balanced {t : Bytes} (ht : Balanced t) (s : σ) (before after : Bytes) :
    Moves (walker.loop s) before t after := by
  induction ht generalizing s before after with
  | nil => simp [Moves]
  | @plain b rest hb hr ih =>
    have hb : Moves (walker.loop s) before [b] (rest ++ after) := walker.plain s before _ b hb
    exact hb.append (ih s _ after)
  | @string l rest hr ih => exact (walker.string s before _ l).append (ih s _ after)
  | @braces inside rest hi hr ihi ihr =>
    have hinside := ihi (walker.push openBrace s) (before ++ [openBrace])
      (closeBrace :: (rest ++ after))
    have hrest := ihr s (before ++ [openBrace] ++ inside ++ [closeBrace]) after
    unfold Moves at *
    simp only [List.cons_append, List.append_assoc, List.nil_append] at *
    rw [walker.opened _ _ _ _ (.inl rfl), hinside, walker.closedBrace]
    simpa using hrest
  | @brackets inside rest hi hr ihi ihr =>
    have hinside := ihi (walker.push openBracket s) (before ++ [openBracket])
      (closeBracket :: (rest ++ after))
    have hrest := ihr s (before ++ [openBracket] ++ inside ++ [closeBracket]) after
    unfold Moves at *
    simp only [List.cons_append, List.append_assoc, List.nil_append] at *
    rw [walker.opened _ _ _ _ (.inr rfl), hinside, walker.closedBracket]
    simpa using hrest

end Walker

end Json
