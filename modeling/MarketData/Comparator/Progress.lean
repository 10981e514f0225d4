import MarketData.Comparator.Reader

/-!
# The lookup moves forward

Strings and values end behind the position they are read at, so every pass over a member
moves on and the bound on the passes is never what ends the lookup. The lookup from a
position is therefore the loop of the source.
-/

namespace MarketData.Comparator

open ByteText Cpp

private theorem le_parseStringLoop {rest value : Bytes} {cursor : Nat} {r : Bytes × Nat}
    (h : parseStringLoop rest cursor value = .ok r) : cursor ≤ r.2 := by
  fun_induction parseStringLoop rest cursor value with
  | case1 => cases h
  | case2 rest cursor value =>
    rw [← Except.ok.inj h]
    omega
  | case3 c rest cursor value hq hb ih =>
    have := ih h
    omega
  | case4 => cases h
  | case5 c cursor value hq hb letter rest b hs ih =>
    have := ih h
    omega
  | case6 c cursor value hq hb x y z w rest hx hu ih =>
    have := ih h
    omega
  | case7 => cases h
  | case8 => cases h
  | case9 => cases h

/-- A string ends behind its opening quote. -/
theorem lt_parseString {text : Bytes} {position : Nat} {r : Bytes × Nat}
    (h : parseString text position = .ok r) : position < r.2 := by
  unfold parseString at h
  split at h
  · cases h
  · split at h
    · exact le_parseStringLoop h
    · cases h

private theorem le_matchingDelimiterLoop {text rest expected : Bytes} {cursor skip last : Nat}
    (h : matchingDelimiterLoop text rest cursor skip expected = .ok last) : cursor ≤ last := by
  induction rest generalizing cursor skip expected with
  | nil => cases h
  | cons c rest ih =>
    have hgo : ∀ {skip expected},
        matchingDelimiterLoop text rest (cursor + 1) skip expected = .ok last →
        cursor ≤ last := by
      intro skip expected h
      have := ih h
      omega
    cases skip with
    | succ skip => exact hgo h
    | zero =>
      rw [matchingDelimiterLoop] at h
      split at h
      · obtain ⟨parsed, -, h⟩ := bind_eq_ok.mp h
        exact hgo h
      split at h
      · exact hgo h
      split at h
      · exact hgo h
      split at h
      · obtain ⟨outer, -, h⟩ := bind_eq_ok.mp h
        split at h
        · exact (Except.ok.inj h).le
        · exact hgo h
      · exact hgo h

private theorem le_matchingDelimiter {text : Bytes} {position last : Nat}
    (h : matchingDelimiter text position = .ok last) : position ≤ last := by
  unfold matchingDelimiter at h
  split at h
  · cases h
  · split at h
    · exact Nat.le_of_succ_le (le_matchingDelimiterLoop h)
    split at h
    · exact Nat.le_of_succ_le (le_matchingDelimiterLoop h)
    · cases h

/-- A value ends behind the position it is read at. -/
theorem lt_skipValue {text : Bytes} {position last : Nat}
    (h : skipValue text position = .ok last) : position < last := by
  have hs : position ≤ skipSpace text position := le_skipWhile _ _ _
  simp only [skipValue] at h
  split at h
  · cases h
  split at h
  · obtain ⟨r, hp, rfl⟩ := map_eq_ok.mp h
    exact hs.trans_lt (lt_parseString hp)
  split at h
  · obtain ⟨closing, hm, rfl⟩ := map_eq_ok.mp h
    exact Nat.lt_succ_of_le (hs.trans (le_matchingDelimiter hm))
  split at h
  · cases h
  · next hne =>
    obtain rfl := Except.ok.inj h
    exact hs.trans_lt (lt_of_le_of_ne (le_skipWhile _ _ _) (Ne.symm hne))

/-! ### The loop of the source -/

variable {text wanted : Bytes} {object : Span}

private theorem findLoop_bound {fuel fuel' position : Nat}
    (h : object.closing - position ≤ fuel) (h' : object.closing - position ≤ fuel') :
    findLoop text object wanted fuel position = findLoop text object wanted fuel' position := by
  induction fuel generalizing fuel' position with
  | zero =>
    have hc : object.closing ≤ position := by omega
    cases fuel' with
    | zero => rfl
    | succ fuel' => rw [findLoop, findLoop, if_pos hc]
  | succ fuel ih =>
    by_cases hc : object.closing ≤ position
    · cases fuel' with
      | zero => rw [findLoop, findLoop, if_pos hc]
      | succ fuel' => rw [findLoop, findLoop, if_pos hc, if_pos hc]
    · obtain ⟨fuel', rfl⟩ : ∃ k, fuel' = k + 1 := ⟨fuel' - 1, by omega⟩
      rw [findLoop, findLoop, if_neg hc, if_neg hc]
      apply bind_congr_ok
      rintro ⟨key, afterKey⟩ hkey
      apply bind_congr_ok
      intro _ _
      split
      · rfl
      apply bind_congr_ok
      intro last hlast
      dsimp only
      split
      · rfl
      apply bind_congr_ok
      intro _ _
      have hnext := lt_parseString hkey
      have hgap : afterKey ≤ skipSpace text afterKey := le_skipWhile _ _ _
      have hvalue : skipSpace text afterKey + 1 ≤ skipSpace text (skipSpace text afterKey + 1) :=
        le_skipWhile _ _ _
      have hpassed := lt_skipValue hlast
      have hafter : last ≤ skipSpace text last := le_skipWhile _ _ _
      have hcomma : skipSpace text last + 1 ≤ skipSpace text (skipSpace text last + 1) :=
        le_skipWhile _ _ _
      apply ih
      · omega
      · omega

/-- The loop of `find` from a position. -/
def findFrom (text : Bytes) (object : Span) (wanted : Bytes) (position : Nat) :
    Checked (Option Nat) :=
  findLoop text object wanted (object.closing - position) position

/-- The lookup from a position is one pass of the source's loop and the lookup behind it. -/
theorem findFrom_eq (position : Nat) : findFrom text object wanted position =
    if object.closing ≤ position then .ok none
    else (do
      let (key, afterKey) ← parseString text position
      let position := skipSpace text afterKey
      throwUnless (position < object.closing ∧ text[position]? = some colon)
        (ascii "expected ':' after a JSON object key")
      let value := skipSpace text (position + 1)
      if key = wanted then return some value
      else
        let position := skipSpace text (← skipValue text value)
        if position = object.closing then return none
        else
          throwUnless (text[position]? = some comma)
            (ascii "expected ',' between JSON object fields")
          findFrom text object wanted (skipSpace text (position + 1))) := by
  have hbound : findFrom text object wanted position =
      findLoop text object wanted (object.closing + 1) position :=
    findLoop_bound le_rfl (by omega)
  have hrest : ∀ position, findLoop text object wanted object.closing position =
      findFrom text object wanted position := fun _ ↦ findLoop_bound (by omega) le_rfl
  rw [hbound, findLoop]
  simp only [hrest]

end MarketData.Comparator
