import MarketData.Exporter.Reader

/-!
# Fields of a text that goes on

A key that the exporter finds in front of some byte, and an object that it reads, are found
and read the same way in every longer text.
-/

namespace MarketData.Exporter

open ByteText Cpp

/-! ### Objects -/

private theorem stringEndLoop_append {rest : Bytes} {cursor last : Nat} {escaped : Bool}
    (more : Bytes) (h : stringEndLoop rest cursor escaped = .ok last) :
    stringEndLoop (rest ++ more) cursor escaped = .ok last := by
  induction rest generalizing cursor escaped with
  | nil => cases h
  | cons c rest ih =>
    rw [List.cons_append]
    rw [stringEndLoop] at h ⊢
    split at h
    · next hc =>
      rw [if_pos hc]
      exact h
    · next hc =>
      rw [if_neg hc]
      exact ih h

private theorem stringEnd_append {text : Bytes} {position last : Nat} (more : Bytes)
    (h : stringEnd text position = .ok last) : stringEnd (text ++ more) position = .ok last := by
  unfold stringEnd at h
  split at h
  · cases h
  · next c rest hd =>
    rw [stringEnd, drop_append_cons more hd]
    split at h
    · next hq =>
      simp only [hq, if_true]
      exact stringEndLoop_append more h
    · cases h

private theorem matchingContainerLoop_append {text rest : Bytes} {cursor skip depth last : Nat}
    (more : Bytes) (h : matchingContainerLoop text rest cursor skip depth = .ok last) :
    matchingContainerLoop (text ++ more) (rest ++ more) cursor skip depth = .ok last ∧
      cursor ≤ last ∧ last < cursor + rest.length := by
  induction rest generalizing cursor skip depth with
  | nil => cases h
  | cons c rest ih =>
    have hgo : ∀ {skip depth},
        matchingContainerLoop text rest (cursor + 1) skip depth = .ok last →
        matchingContainerLoop (text ++ more) (rest ++ more) (cursor + 1) skip depth = .ok last ∧
          cursor ≤ last ∧ last < cursor + (c :: rest).length := by
      intro skip depth h
      obtain ⟨h1, h2, h3⟩ := ih h
      exact ⟨h1, by omega, by rw [List.length_cons]; omega⟩
    cases skip with
    | succ skip => exact hgo h
    | zero =>
      rw [List.cons_append]
      rw [matchingContainerLoop] at h ⊢
      by_cases hq : c = quote
      · rw [if_pos hq] at h ⊢
        obtain ⟨stop, hs, h⟩ := bind_eq_ok.mp h
        rw [stringEnd_append more hs, ok_bind]
        exact hgo h
      by_cases ho : c = openBrace
      · rw [if_neg hq, if_pos ho] at h ⊢
        exact hgo h
      by_cases hc : c = closeBrace
      · rw [if_neg hq, if_neg ho, if_pos hc] at h ⊢
        split at h
        · next hz =>
          rw [if_pos hz]
          have hl := Except.ok.inj h
          exact ⟨h, by omega, by rw [List.length_cons]; omega⟩
        · next hz =>
          rw [if_neg hz]
          exact hgo h
      · rw [if_neg hq, if_neg ho, if_neg hc] at h ⊢
        exact hgo h

private theorem matchingContainer_append {text : Bytes} {position last : Nat} (more : Bytes)
    (h : matchingContainer text position = .ok last) :
    matchingContainer (text ++ more) position = .ok last ∧ position < last ∧
      last < text.length := by
  unfold matchingContainer at h
  split at h
  · cases h
  · next c rest hd =>
    rw [matchingContainer, drop_append_cons more hd, ← length_of_drop hd]
    split at h
    · next ho =>
      simp only [ho, if_true]
      exact matchingContainerLoop_append more h
    · cases h

/-- An object lies inside its text, and it is the same object when the text goes on. -/
theorem objectAt_append {text object : Bytes} {position : Nat} (more : Bytes)
    (h : objectAt text position = .ok object) :
    objectAt (text ++ more) position = .ok object ∧ position < text.length ∧
      position + object.length ≤ text.length := by
  rw [objectAt] at h
  obtain ⟨last, hm, hs⟩ := bind_eq_ok.mp h
  obtain ⟨h1, h2, h3⟩ := matchingContainer_append more hm
  have hskip : skipSpace (text ++ more) position = skipSpace text position :=
    skipWhile_append more (by rw [skipSpace] at h2; omega)
  have hle : position ≤ skipSpace text position := le_skipWhile _ _ _
  generalize skipSpace text position = start at *
  have hobject : (text.drop start).take (last - start + 1) = object := by
    rw [substr, substr?, if_neg (by omega)] at hs
    exact Except.ok.inj hs
  refine ⟨?_, by omega, ?_⟩
  · rw [objectAt, hskip, h1, ok_bind, substr, substr?,
      if_neg (by rw [List.length_append]; omega), List.drop_append_of_le_length (by omega),
      List.take_append_of_le_length (by rw [List.length_drop]; omega), hobject]
  · rw [← hobject, List.length_take, List.length_drop]
    omega

/-! ### Keys -/

private theorem findValueLoop_short {document needle rest : Bytes} {cursor searchFrom : Nat}
    (h : rest.length < needle.length) :
    findValueLoop document needle rest cursor searchFrom = none := by
  induction rest generalizing cursor with
  | nil => rfl
  | cons c rest ih =>
    have hp : ¬ needle.isPrefixOf (c :: rest) = true := by
      intro hp
      have := (List.isPrefixOf_iff_prefix.mp hp).length_le
      omega
    rw [findValueLoop, if_neg (fun hc ↦ hp hc.2)]
    exact ih (by rw [List.length_cons] at h; omega)

private theorem findValueLoop_spaces {document word rest : Bytes} {cursor searchFrom : Nat}
    (hr : document.drop cursor = rest) (hs : ∀ b ∈ document.drop searchFrom, isSpace b = true) :
    findValueLoop document (quote :: word) rest cursor searchFrom = none := by
  induction rest generalizing cursor with
  | nil => rfl
  | cons c rest ih =>
    have hnext := drop_next hr
    have hp : ¬ (searchFrom ≤ cursor ∧ (quote :: word).isPrefixOf (c :: rest) = true) := by
      rintro ⟨hle, hp⟩
      have hc : c ∈ document.drop searchFrom := by
        obtain ⟨k, rfl⟩ := Nat.exists_eq_add_of_le hle
        rw [← List.drop_drop] at hr
        exact List.mem_of_mem_drop (by rw [hr]; simp)
      have hq : c = quote := by
        simp only [List.isPrefixOf, Bool.and_eq_true, beq_iff_eq] at hp
        exact hp.1.symm
      rw [hq] at hc
      exact absurd (hs quote hc) (by decide)
    rw [findValueLoop, if_neg hp]
    exact ih hnext

private theorem isPrefixOf_of_append {word rest more : Bytes} (hl : word.length ≤ rest.length)
    (h : word.isPrefixOf (rest ++ more) = true) : word.isPrefixOf rest = true :=
  List.isPrefixOf_iff_prefix.mpr (List.prefix_of_prefix_length_le
    (List.isPrefixOf_iff_prefix.mp h) (List.prefix_append rest more) hl)

private theorem isPrefixOf_append_right {word rest : Bytes} (more : Bytes)
    (h : word.isPrefixOf rest = true) : word.isPrefixOf (rest ++ more) = true :=
  List.isPrefixOf_iff_prefix.mpr
    ((List.isPrefixOf_iff_prefix.mp h).trans (List.prefix_append rest more))

private theorem findValueLoop_append {document word rest : Bytes} {cursor searchFrom p : Nat}
    (more : Bytes) (hr : document.drop cursor = rest) (hp : p < document.length)
    (h : findValueLoop document (quote :: word) rest cursor searchFrom = some p) :
    findValueLoop (document ++ more) (quote :: word) (rest ++ more) cursor searchFrom = some p := by
  induction rest generalizing cursor searchFrom with
  | nil => cases h
  | cons c rest ih =>
    have hnext := drop_next hr
    have hlen : cursor + (rest.length + 1) = document.length := by
      have hl := congrArg List.length hr
      rw [List.length_drop, List.length_cons] at hl
      omega
    rw [List.cons_append]
    rw [findValueLoop] at h ⊢
    by_cases hm : searchFrom ≤ cursor ∧ (quote :: word).isPrefixOf (c :: rest) = true
    · have hslash : slashCount (document ++ more) cursor = slashCount document cursor := by
        rw [slashCount, List.take_append_of_le_length (by omega), slashCount]
      rw [if_pos hm] at h
      rw [if_pos ⟨hm.1, isPrefixOf_append_right more hm.2⟩, hslash]
      by_cases hodd : slashCount document cursor % 2 ≠ 0
      · simp only [if_pos hodd] at h ⊢
        exact ih hnext h
      simp only [if_neg hodd] at h ⊢
      by_cases hinside : skipSpace document (cursor + (quote :: word).length) < document.length
      · -- the byte behind the key is inside the shorter text
        have hskip : skipSpace (document ++ more) (cursor + (quote :: word).length) =
            skipSpace document (cursor + (quote :: word).length) := skipWhile_append more hinside
        rw [hskip, List.getElem?_append_left hinside]
        split at h
        · next hcolon =>
          obtain rfl := Option.some.inj h
          rw [if_pos hcolon]
          exact congrArg some (skipWhile_append more hp)
        · next hcolon =>
          rw [if_neg hcolon]
          exact ih hnext h
      · -- nothing but whitespace is left, so the shorter text has no further key
        rw [if_neg (by rw [List.getElem?_eq_none (by omega)]; simp),
          findValueLoop_spaces hnext (length_le_skipWhile.mp (not_lt.mp hinside))] at h
        cases h
    · rw [if_neg hm] at h
      by_cases hlong : searchFrom ≤ cursor ∧
          (quote :: word).isPrefixOf (c :: (rest ++ more)) = true
      · -- the key is cut by the end of the shorter text
        have hshort : (c :: rest).length < (quote :: word).length := by
          by_contra hle
          exact hm ⟨hlong.1, isPrefixOf_of_append (by omega) hlong.2⟩
        rw [findValueLoop_short (by rw [List.length_cons] at hshort; omega)] at h
        cases h
      · rw [if_neg hlong]
        exact ih hnext h

/-- A key found in front of a byte of the text is found there when the text goes on. -/
theorem findValue_append {document key : Bytes} {p : Nat} (more : Bytes)
    (h : findValue document key = some p) (hp : p < document.length) :
    findValue (document ++ more) key = some p :=
  findValueLoop_append more rfl hp h

end MarketData.Exporter
