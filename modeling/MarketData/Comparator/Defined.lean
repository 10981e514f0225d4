import MarketData.Base.Defined
import MarketData.Comparator.Progress

/-!
# Where the comparator's reader is defined

Every step of the reader returns or throws, up to the conversion of an unsigned field.
-/

namespace MarketData.Comparator

open ByteText Cpp

private theorem defined_parseStringLoop (rest : Bytes) (cursor : Nat) (value : Bytes) :
    Defined (parseStringLoop rest cursor value) := by
  fun_induction parseStringLoop rest cursor value with
  | case1 => exact defined_exception _
  | case2 => exact defined_ok _
  | case3 c rest cursor value hq hb ih => exact ih
  | case4 => exact defined_exception _
  | case5 c cursor value hq hb letter rest b hs ih => exact ih
  | case6 c cursor value hq hb x y z w rest hx hu ih => exact ih
  | case7 => exact defined_exception _
  | case8 => exact defined_exception _
  | case9 => exact defined_exception _

/-- `parse_string` returns or throws on every text. -/
theorem defined_parseString (text : Bytes) (position : Nat) :
    Defined (parseString text position) := by
  unfold parseString
  split
  · exact defined_exception _
  split
  · exact defined_parseStringLoop _ _ _
  · exact defined_exception _

private theorem defined_popDelimiter (c : UInt8) (expected : Bytes) :
    Defined (popDelimiter c expected) := by
  unfold popDelimiter
  split
  · exact defined_exception _
  split
  · exact defined_exception _
  · exact defined_ok _

private theorem defined_matchingDelimiterLoop (text rest : Bytes) (cursor skip : Nat)
    (expected : Bytes) : Defined (matchingDelimiterLoop text rest cursor skip expected) := by
  induction rest generalizing cursor skip expected with
  | nil => exact defined_exception _
  | cons c rest ih =>
    cases skip with
    | succ skip => exact ih _ _ _
    | zero =>
      rw [matchingDelimiterLoop]
      split
      · exact (defined_parseString text cursor).bind fun _ _ ↦ ih _ _ _
      split
      · exact ih _ _ _
      split
      · exact ih _ _ _
      split
      · refine (defined_popDelimiter c expected).bind fun outer _ ↦ ?_
        split
        · exact defined_ok _
        · exact ih _ _ _
      · exact ih _ _ _

/-- `matching_delimiter` returns or throws on every text. -/
theorem defined_matchingDelimiter (text : Bytes) (position : Nat) :
    Defined (matchingDelimiter text position) := by
  unfold matchingDelimiter
  split
  · exact defined_exception _
  split
  · exact defined_matchingDelimiterLoop _ _ _ _ _
  split
  · exact defined_matchingDelimiterLoop _ _ _ _ _
  · exact defined_exception _

/-- `skip_value` returns or throws on every text. -/
theorem defined_skipValue (text : Bytes) (position : Nat) : Defined (skipValue text position) := by
  simp only [skipValue]
  split
  · exact defined_exception _
  split
  · exact (defined_parseString text _).map _
  split
  · exact (defined_matchingDelimiter text _).map _
  split
  · exact defined_exception _
  · exact defined_ok _

private theorem defined_findLoop (text : Bytes) (object : Span) (wanted : Bytes)
    (fuel position : Nat) : Defined (findLoop text object wanted fuel position) := by
  induction fuel generalizing position with
  | zero => exact defined_ok _
  | succ fuel ih =>
    rw [findLoop]
    split
    · exact defined_ok _
    refine (defined_parseString text position).bind fun parsed _ ↦ ?_
    refine (defined_throwUnless _ _).bind fun _ _ ↦ ?_
    split
    · exact defined_ok _
    refine (defined_skipValue text _).bind fun last _ ↦ ?_
    dsimp only
    split
    · exact defined_ok _
    · exact (defined_throwUnless _ _).bind fun _ _ ↦ ih _

/-- `required` returns or throws on every text. -/
theorem defined_required (text : Bytes) (object : Span) (key : Bytes) :
    Defined (required text object key) := by
  refine (defined_findLoop text object key _ _).bind fun found _ ↦ ?_
  cases found with
  | none => exact defined_exception _
  | some value => exact defined_ok _

/-- `object_at` returns or throws on every text. -/
theorem defined_objectAt (text : Bytes) (position : Nat) : Defined (objectAt text position) := by
  simp only [objectAt]
  split
  · exact (defined_matchingDelimiter text _).map _
  · exact defined_exception _

/-- `root_object` returns or throws on every text. -/
theorem defined_rootObject (text : Bytes) : Defined (rootObject text) := by
  refine (defined_objectAt text _).bind fun root _ ↦ ?_
  exact (defined_throwUnless _ _).bind fun _ _ ↦ defined_ok _

private theorem defined_compareAt (text : Bytes) (start count : Nat) (word : Bytes) :
    Defined (compareAt text start count word) := by
  unfold compareAt
  split
  · exact defined_ok _
  · exact defined_exception _

/-- `is_null` returns or throws on every text. -/
theorem defined_isNull (text : Bytes) (position : Nat) : Defined (isNull text position) :=
  defined_compareAt _ _ _ _

/-- `string_at` returns or throws on every text. -/
theorem defined_stringAt (text : Bytes) (position : Nat) : Defined (stringAt text position) :=
  (defined_parseString text _).map _

/-- `bool_at` returns or throws on every text. -/
theorem defined_boolAt (text : Bytes) (position : Nat) : Defined (boolAt text position) := by
  refine (defined_compareAt text _ _ _).bind fun isTrue _ ↦ ?_
  split
  · exact defined_ok _
  refine (defined_compareAt text _ _ _).bind fun isFalse _ ↦ ?_
  split
  · exact defined_ok _
  · exact defined_exception _

/-- `number_at` returns or throws on every text. -/
theorem defined_numberAt (text : Bytes) (position : Nat) : Defined (numberAt text position) := by
  refine (defined_skipValue text _).bind fun last _ ↦ ?_
  split
  · exact defined_ok _
  · exact defined_exception _

end MarketData.Comparator
