import MarketData.Comparator.Progress

/-!
# Objects of a text that goes on

What the comparator reads as a string or a container ends inside the text, so it is read
the same way in every longer text.
-/

namespace MarketData.Comparator

open ByteText Cpp

private theorem parseStringLoop_append {rest value : Bytes} {cursor : Nat} {r : Bytes × Nat}
    (more : Bytes) (h : parseStringLoop rest cursor value = .ok r) :
    parseStringLoop (rest ++ more) cursor value = .ok r := by
  fun_induction parseStringLoop rest cursor value with
  | case1 => cases h
  | case2 rest cursor value =>
    rw [← h, List.cons_append, parseStringLoop.eq_def]
    simp only [if_true]
  | case3 c rest cursor value hq hb ih =>
    rw [← ih h, List.cons_append, parseStringLoop.eq_def]
    simp only [hq, hb, if_false, ne_eq, not_false_eq_true, if_true]
  | case4 => cases h
  | case5 c cursor value hq hb letter rest b hs ih =>
    rw [← ih h, List.cons_append, List.cons_append, parseStringLoop.eq_def]
    simp only [hq, hb, if_false, hs]
  | case6 c cursor value hq hb x y z w rest hx hu ih =>
    rw [← ih h]
    simp only [List.cons_append]
    rw [parseStringLoop.eq_def]
    simp only [hq, hb, if_false, hu, hx, if_true]
  | case7 => cases h
  | case8 => cases h
  | case9 => cases h

private theorem parseString_append {text : Bytes} {position : Nat} {r : Bytes × Nat} (more : Bytes)
    (h : parseString text position = .ok r) : parseString (text ++ more) position = .ok r := by
  unfold parseString at h
  split at h
  · cases h
  · next c rest hd =>
    split at h
    · next hq =>
      rw [parseString, drop_append_cons more hd]
      simp only [hq, if_true]
      exact parseStringLoop_append more h
    · cases h

private theorem matchingDelimiterLoop_append {text rest expected : Bytes} {cursor skip last : Nat}
    (more : Bytes) (h : matchingDelimiterLoop text rest cursor skip expected = .ok last) :
    matchingDelimiterLoop (text ++ more) (rest ++ more) cursor skip expected = .ok last ∧
      last < cursor + rest.length := by
  induction rest generalizing cursor skip expected with
  | nil => cases h
  | cons c rest ih =>
    have hgo : ∀ {skip expected},
        matchingDelimiterLoop text rest (cursor + 1) skip expected = .ok last →
        matchingDelimiterLoop (text ++ more) (rest ++ more) (cursor + 1) skip expected = .ok last ∧
          last < cursor + (c :: rest).length := by
      intro skip expected h
      obtain ⟨h1, h2⟩ := ih h
      exact ⟨h1, by rw [List.length_cons]; omega⟩
    cases skip with
    | succ skip => exact hgo h
    | zero =>
      rw [List.cons_append]
      rw [matchingDelimiterLoop] at h ⊢
      by_cases hq : c = quote
      · rw [if_pos hq] at h ⊢
        obtain ⟨parsed, hp, h⟩ := bind_eq_ok.mp h
        rw [parseString_append more hp, ok_bind]
        exact hgo h
      by_cases ho : c = openBrace
      · rw [if_neg hq, if_pos ho] at h ⊢
        exact hgo h
      by_cases hb : c = openBracket
      · rw [if_neg hq, if_neg ho, if_pos hb] at h ⊢
        exact hgo h
      by_cases hc : c = closeBrace ∨ c = closeBracket
      · rw [if_neg hq, if_neg ho, if_neg hb, if_pos hc] at h ⊢
        obtain ⟨outer, hp, h⟩ := bind_eq_ok.mp h
        rw [hp, ok_bind]
        split at h
        · next hn =>
          rw [if_pos hn]
          exact ⟨h, by rw [← Except.ok.inj h, List.length_cons]; omega⟩
        · next hn =>
          rw [if_neg hn]
          exact hgo h
      · rw [if_neg hq, if_neg ho, if_neg hb, if_neg hc] at h ⊢
        exact hgo h

private theorem matchingDelimiter_append {text : Bytes} {position last : Nat} (more : Bytes)
    (h : matchingDelimiter text position = .ok last) :
    matchingDelimiter (text ++ more) position = .ok last ∧ last < text.length := by
  unfold matchingDelimiter at h
  split at h
  · cases h
  · next c rest hd =>
    rw [matchingDelimiter, drop_append_cons more hd, ← length_of_drop hd]
    split at h
    · next ho =>
      simp only [ho, if_true]
      exact matchingDelimiterLoop_append more h
    split at h
    · next hb =>
      simp only [hb, if_true]
      exact matchingDelimiterLoop_append more h
    · cases h

/-- An object is closed inside its text, and it is the same object when the text goes on. -/
theorem objectAt_append {text : Bytes} {position : Nat} {object : Span} (more : Bytes)
    (h : objectAt text position = .ok object) :
    objectAt (text ++ more) position = .ok object ∧ object.closing < text.length := by
  simp only [objectAt] at h
  split at h
  · next hb =>
    obtain ⟨hlt, -⟩ := List.getElem?_eq_some_iff.mp hb
    cases hm : matchingDelimiter text (skipSpace text position) with
    | error e =>
      rw [hm] at h
      cases h
    | ok last =>
      rw [hm] at h
      obtain rfl := Except.ok.inj h
      obtain ⟨h1, h2⟩ := matchingDelimiter_append more hm
      have hs : skipSpace (text ++ more) position = skipSpace text position :=
        skipWhile_append more hlt
      refine ⟨?_, h2⟩
      rw [objectAt, hs, List.getElem?_append_left hlt, if_pos hb, h1]
      rfl
  · cases h

end MarketData.Comparator
