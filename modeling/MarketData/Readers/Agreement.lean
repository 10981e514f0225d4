import MarketData.Comparator.Lookup
import MarketData.Exporter.Values

/-!
# Where the two readers end

The comparator validates the strings it passes and keeps a stack of the delimiters it
expects; the exporter looks for the closing quote only and counts braces. Wherever the
comparator succeeds, the exporter ends at the same byte.
-/

namespace MarketData

open ByteText Cpp Json

-- What the comparator reads as a string, the exporter reads up to the same closing quote.
private theorem stringEnd_of_parseString {text : Bytes} {position : Nat} {r : Bytes × Nat}
    (h : Comparator.parseString text position = .ok r) :
    ∃ c, r.2 = c + 1 ∧ text[c]? = some quote ∧ Exporter.stringEnd text position = .ok c ∧
      ∃ value, Exporter.stringAt text position = .ok value := by
  obtain ⟨before, after, l, rfl, rfl, rfl⟩ := Comparator.exists_quoted_of_parseString h
  refine ⟨before.length + 1 + l.text.length, ?_, ?_, Exporter.stringEnd_quoted before after l, ?_⟩
  · simp [Literal.quoted]
    omega
  · have ht : before ++ (l.quoted ++ after) =
        (before ++ quote :: l.text) ++ quote :: after := by simp [Literal.quoted]
    have hl : before.length + 1 + l.text.length = (before ++ quote :: l.text).length := by
      simp
      omega
    rw [ht, hl, List.getElem?_append_right le_rfl, Nat.sub_self]
    rfl
  · have hat := Exporter.stringAt_inside before after (.string l)
    obtain ⟨value, hv⟩ := Exporter.exists_stringOf_string l
    exact ⟨value, hat.trans hv⟩

-- The brace counter stands for the braces of the delimiter stack, at whose bottom is the brace
-- that is matched.
private structure Counts (depth : Nat) (expected : Bytes) : Prop where
  depth : depth = expected.count closeBrace
  bottom : expected.getLast? = some closeBrace

namespace Counts

variable {depth : Nat} {expected outer : Bytes}

private theorem openBrace (h : Counts depth expected) :
    Counts (depth + 1) (closeBrace :: expected) where
  depth := by rw [h.depth, List.count_cons_self]
  bottom := by rw [List.getLast?_cons, h.bottom]; rfl

private theorem openBracket (h : Counts depth expected) :
    Counts depth (closeBracket :: expected) where
  depth := by rw [h.depth, List.count_cons_of_ne (by decide)]
  bottom := by rw [List.getLast?_cons, h.bottom]; rfl

private theorem bottom_tail {c : UInt8} (h : Counts depth (c :: outer)) (ho : outer ≠ []) :
    outer.getLast? = some closeBrace := by
  obtain ⟨b, rest, rfl⟩ := List.exists_cons_of_ne_nil ho
  simpa using h.bottom

private theorem closeBrace (h : Counts depth (closeBrace :: outer)) :
    (depth - 1 = 0 ↔ outer = []) ∧ (outer ≠ [] → Counts (depth - 1) outer) := by
  have hd : depth - 1 = outer.count ByteText.closeBrace := by
    rw [h.depth, List.count_cons_self, Nat.add_sub_cancel]
  refine ⟨⟨fun hz ↦ ?_, ?_⟩, fun ho ↦ ⟨hd, h.bottom_tail ho⟩⟩
  · by_contra ho
    have hmem := List.mem_of_getLast? (h.bottom_tail ho)
    have := List.count_pos_iff.mpr hmem
    omega
  · rintro rfl
    exact hd

private theorem closeBracket (h : Counts depth (closeBracket :: outer)) :
    outer ≠ [] ∧ Counts depth outer := by
  have ho : outer ≠ [] := by
    rintro rfl
    exact absurd h.bottom (by decide)
  exact ⟨ho, by rw [h.depth, List.count_cons_of_ne (by decide)], h.bottom_tail ho⟩

end Counts

-- One loop simulates the other: they pass the same strings, and the counter follows the stack.
private theorem matchingContainerLoop_of_matchingDelimiterLoop {text rest expected : Bytes}
    {cursor skip depth c : Nat} (hc : Counts depth expected)
    (h : Comparator.matchingDelimiterLoop text rest cursor skip expected = .ok c) :
    Exporter.matchingContainerLoop text rest cursor skip depth = .ok c := by
  induction rest generalizing cursor skip depth expected with
  | nil => cases h
  | cons b rest ih =>
    cases skip with
    | succ skip => exact ih hc h
    | zero =>
      rw [Comparator.matchingDelimiterLoop] at h
      rw [Exporter.matchingContainerLoop]
      by_cases hq : b = quote
      · rw [if_pos hq] at h ⊢
        obtain ⟨parsed, hp, h⟩ := bind_eq_ok.mp h
        obtain ⟨last, hlast, -, hend, -⟩ := stringEnd_of_parseString hp
        have hskip : parsed.2 - (cursor + 1) = last - cursor := by omega
        rw [hskip] at h
        rw [hend, ok_bind]
        exact ih hc h
      rw [if_neg hq] at h ⊢
      by_cases ho : b = openBrace
      · rw [if_pos ho] at h ⊢
        exact ih hc.openBrace h
      rw [if_neg ho] at h ⊢
      by_cases hb : b = openBracket
      · subst hb
        rw [if_pos rfl] at h
        rw [if_neg (by decide)]
        exact ih hc.openBracket h
      rw [if_neg hb] at h
      by_cases hclose : b = closeBrace ∨ b = closeBracket
      · rw [if_pos hclose] at h
        obtain ⟨outer, hp, hrun⟩ := bind_eq_ok.mp h
        obtain rfl : expected = b :: outer := by
          cases expected with
          | nil => cases hp
          | cons delimiter others =>
            rw [Comparator.popDelimiter] at hp
            split at hp
            · cases hp
            · next hd => rw [not_not.mp hd, Except.ok.inj hp]
        rcases hclose with rfl | rfl
        · rw [if_pos rfl]
          obtain ⟨hzero, hrest⟩ := hc.closeBrace
          by_cases hn : outer = []
          · rw [if_pos hn] at hrun
            rw [if_pos (hzero.mpr hn)]
            exact hrun
          · rw [if_neg hn] at hrun
            rw [if_neg (fun hz ↦ hn (hzero.mp hz))]
            exact ih (hrest hn) hrun
        · obtain ⟨hn, hrest⟩ := hc.closeBracket
          rw [if_neg hn] at hrun
          rw [if_neg (by decide)]
          exact ih hrest hrun
      · rw [if_neg hclose] at h
        rw [if_neg (fun hb ↦ hclose (.inl hb))]
        exact ih hc h

/-- Where the comparator ends a string or an object, the exporter ends it too. -/
theorem readers_agree (text : Bytes) (position : Nat) :
    (∀ value last, Comparator.parseString text position = .ok (value, last) →
      ∃ c, last = c + 1 ∧ text[c]? = some quote ∧ Exporter.stringEnd text position = .ok c ∧
        ∃ s, Exporter.stringAt text position = .ok s) ∧
    (text[position]? = some openBrace → ∀ c, Comparator.matchingDelimiter text position = .ok c →
      Exporter.matchingContainer text position = .ok c) := by
  constructor
  · intro value last h
    exact stringEnd_of_parseString h
  · intro hat c h
    rw [← List.head?_drop] at hat
    obtain ⟨rest, hd⟩ := List.head?_eq_some_iff.mp hat
    rw [Comparator.matchingDelimiter, hd] at h
    rw [Exporter.matchingContainer, hd]
    simp only [if_true] at h ⊢
    exact matchingContainerLoop_of_matchingDelimiterLoop ⟨rfl, rfl⟩ h

/-- An object with a bracket, a brace and an escaped quote in a string. -/
theorem readers_agree_nested :
    Exporter.stringEnd (ascii "\x7b\"a\\\"\x7d\":[\x7b\x7d]\x7d") 1 = .ok 6 ∧
      Exporter.matchingContainer (ascii "\x7b\"a\\\"\x7d\":[\x7b\x7d]\x7d") 0 = .ok 12 := by
  have hs : Comparator.parseString (ascii "\x7b\"a\\\"\x7d\":[\x7b\x7d]\x7d") 1 =
      .ok (ascii "a\"\x7d", 7) := by decide +kernel
  have hm : Comparator.matchingDelimiter (ascii "\x7b\"a\\\"\x7d\":[\x7b\x7d]\x7d") 0 = .ok 12 := by
    decide +kernel
  obtain ⟨c, hc, -, hend, -⟩ := (readers_agree _ _).1 _ _ hs
  obtain rfl : c = 6 := by omega
  exact ⟨hend, (readers_agree _ _).2 (by decide +kernel) _ hm⟩

end MarketData
