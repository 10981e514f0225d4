import MarketData.Base.Error
import MarketData.Base.FloatText
import MarketData.Json.Layout
import MarketData.Json.Numbers

/-!
# Compact objects and fixed decimals

An object without whitespace, under keys that need no escapes, and the numbers that are printed
with a fixed number of decimals: what such a token denotes is the number up to half a unit of the
last decimal, and larger numbers are not printed smaller.
-/

namespace Json

open ByteText Ieee

/-! ### Compact objects -/

/-- A key without whitespace around it. -/
def compactName (k : Key) : Name := ⟨noSpace, k.literal, noSpace, noSpace⟩

/-- Members without whitespace. -/
def compact (k : Key) (v : Value) : List (Key × Value) → Members
  | [] => .last (compactName k) v noSpace
  | (k', v') :: rest => .cons (compactName k) v noSpace (compact k' v' rest)

/-- The text of a key without whitespace. -/
theorem text_compactName (k : Key) :
    (compactName k).text = ascii "\"" ++ (ascii k.name ++ ascii "\":") := by
  simp only [Name.text, compactName, Literal.quoted, k.text_literal, noSpace, List.nil_append,
    List.cons_append, List.append_assoc]
  rfl

/-- The text of the last member. -/
theorem text_compact_nil (k : Key) (v : Value) :
    (compact k v []).text = (compactName k).text ++ v.text := by
  rw [compact, Members.text, noSpace, List.append_nil]

/-- The text of several members. -/
theorem text_compact_cons (k k' : Key) (v v' : Value) (rest : List (Key × Value)) :
    (compact k v ((k', v') :: rest)).text =
      (compactName k).text ++ (v.text ++ comma :: (compact k' v' rest).text) := rfl

/-- One member is strict when its value is. -/
theorem strict_compact_nil (k : Key) (v : Value) : (compact k v []).Strict ↔ v.Strict := by
  simp [compact, Members.Strict, compactName, k.strict_literal]

/-- Several members are strict when all their values are. -/
theorem strict_compact_cons (k k' : Key) (v v' : Value) (rest : List (Key × Value)) :
    (compact k v ((k', v') :: rest)).Strict ↔ v.Strict ∧ (compact k' v' rest).Strict := by
  simp [compact, Members.Strict, compactName, k.strict_literal]

/-- The member of an object with a given name. -/
def Value.member (v : Value) (name : String) : Option Value :=
  v.directNamed (fun literal ↦ literal.text == ascii name)

private theorem key_beq (k : Key) (name : String) :
    (k.literal.text == ascii name) = decide (k.name = name) := by
  rw [k.text_literal, Bool.eq_iff_iff, beq_iff_eq, ascii_inj, decide_eq_true_eq]

/-- The members of an object with one. -/
@[simp] theorem member_compact_nil (k : Key) (v : Value) (name : String) :
    (Value.object (compact k v [])).member name = if k.name = name then some v else none := by
  simp [Value.member, Value.directNamed, compact, Members.directNamed, compactName, key_beq]

/-- The members of an object with several. -/
@[simp] theorem member_compact_cons (k k' : Key) (v v' : Value) (rest : List (Key × Value))
    (name : String) :
    (Value.object (compact k v ((k', v') :: rest))).member name =
      if k.name = name then some v else (Value.object (compact k' v' rest)).member name := by
  simp [Value.member, Value.directNamed, compact, Members.directNamed, compactName, key_beq]

/-! ### Fixed decimals -/

variable {decimals : ℕ} {x y : Number binary64}

/-- The number that is printed. -/
def fixedValue (decimals : ℕ) : Number binary64 → ℚ
  | .finite s m =>
    let n : ℚ := roundHalfEven (m.toRat * 10 ^ decimals) / 10 ^ decimals
    if s then -n else n
  | _ => 0

private theorem isScalarByte_of_isDigit {b : UInt8} (h : isDigit b = true) :
    isScalarByte b = true := by
  simp only [isScalarByte, isDelimiter, isSpace, Bool.not_eq_true', Bool.or_eq_false_iff,
    beq_eq_false_iff_ne]
  refine ⟨⟨⟨⟨⟨⟨?_, ?_⟩, ?_⟩, ⟨⟨?_, ?_⟩, ?_⟩, ?_⟩, ?_⟩, ?_⟩, ?_⟩ <;> rintro rfl <;>
    exact absurd h (by decide)

private theorem formatFixed_nan (decimals : ℕ) :
    formatFixed decimals (.nan : Number binary64) = ascii "nan" := rfl

private theorem formatFixed_infinite (decimals : ℕ) (s : Bool) :
    formatFixed decimals (.infinite s : Number binary64) = signText s ++ ascii "inf" := rfl

private theorem isScalarByte_formatFixed (decimals : ℕ) (x : Number binary64) :
    ∀ b ∈ formatFixed decimals x, isScalarByte b = true := by
  have hs : ∀ s, ∀ b ∈ signText s, isScalarByte b = true := by decide
  cases x with
  | nan =>
    rw [formatFixed_nan]
    decide
  | infinite s =>
    rw [formatFixed_infinite]
    cases s <;> decide
  | finite s m =>
    intro b hb
    simp only [formatFixed, fixedMagnitude, List.mem_append, List.mem_cons] at hb
    rcases hb with hb | hb | rfl | hb
    · exact hs s b hb
    · exact isScalarByte_of_isDigit (isDigit_of_mem_decimal hb)
    · decide
    · exact isScalarByte_of_isDigit (isDigit_of_mem_paddedDecimal hb)

private theorem formatFixed_ne_nil (decimals : ℕ) (x : Number binary64) :
    formatFixed decimals x ≠ [] := by
  cases x with
  | nan =>
    rw [formatFixed_nan]
    decide
  | infinite s =>
    rw [formatFixed_infinite]
    cases s <;> decide
  | finite s m => simp [formatFixed, fixedMagnitude]

/-- The token of a number printed with a fixed number of decimals. -/
def fixedNode (decimals : ℕ) (x : Number binary64) : Value :=
  .scalar ⟨formatFixed decimals x, formatFixed_ne_nil decimals x,
    isScalarByte_formatFixed decimals x⟩

/-- A printed number denotes its value. -/
theorem denotes_formatFixed (hd : 0 < decimals) (hx : x.isFinite = true) :
    Denotes (formatFixed decimals x) (fixedValue decimals x) := by
  cases x with
  | nan => cases hx
  | infinite s => cases hx
  | finite s m =>
    let n := roundHalfEven (m.toRat * 10 ^ decimals)
    have hlength : (paddedDecimal decimals (n % 10 ^ decimals)).length = decimals :=
      length_paddedDecimal hd (Nat.mod_lt _ (by positivity))
    have hwhole : IsWhole (decimal (n / 10 ^ decimals)) := by
      rcases decimal_head (n / 10 ^ decimals) with h | ⟨b, rest, h, hb⟩
      · exact .inl h
      · exact .inr ⟨b, rest, h, hb, fun c hc ↦ isDigit_of_mem_decimal hc⟩
    have hfraction : IsFraction (46 :: paddedDecimal decimals (n % 10 ^ decimals)) := by
      refine .inr ⟨_, rfl, ?_, fun c hc ↦ isDigit_of_mem_paddedDecimal hc⟩
      intro hnil
      rw [hnil] at hlength
      exact hd.ne hlength
    have hvalue : magnitude (decimal (n / 10 ^ decimals))
        (46 :: paddedDecimal decimals (n % 10 ^ decimals)) [] = n / 10 ^ decimals := by
      rw [magnitude, List.drop_one, List.tail_cons, numeral_append, hlength, numeral_decimal,
        numeral_paddedDecimal, Nat.div_add_mod, exponentValue, zero_sub, zpow_neg, zpow_natCast,
        div_eq_mul_inv]
    refine ⟨signText s, decimal (n / 10 ^ decimals),
      46 :: paddedDecimal decimals (n % 10 ^ decimals), [], ?_, ?_, hwhole, hfraction, .inl rfl, ?_⟩
    · rw [List.append_nil]
      rfl
    · cases s <;> simp [signText]
    · rw [hvalue]
      cases s <;> simp [fixedValue, signText, n]

private theorem not_strict_of_word {t : Token} {word : Bytes} (ht : t.val = word)
    (hd : ∀ b ∈ word, isDigit b = false)
    (hn : word ≠ ascii "null" ∧ word ≠ ascii "true" ∧ word ≠ ascii "false") : ¬ t.Strict := by
  rw [Token.Strict, ht]
  rintro (h | h | h | ⟨sign, whole, fraction, exponent, rfl, -, hw, -, -⟩)
  · exact hn.1 h
  · exact hn.2.1 h
  · exact hn.2.2 h
  · have hdigit : ∃ b ∈ whole, isDigit b = true := by
      rcases hw with rfl | ⟨b, rest, rfl, -, hdigits⟩
      · exact ⟨48, by simp, by decide⟩
      · exact ⟨b, by simp, hdigits b (by simp)⟩
    obtain ⟨b, hb, hbd⟩ := hdigit
    rw [hd b (by simp [hb])] at hbd
    cases hbd

/-- A printed number is one of the grammar exactly when it is finite. -/
theorem strict_fixedNode (hd : 0 < decimals) :
    (fixedNode decimals x).Strict ↔ x.isFinite = true := by
  rw [fixedNode, Value.Strict]
  cases x with
  | nan =>
    refine iff_of_false ?_ Bool.false_ne_true
    exact not_strict_of_word (formatFixed_nan decimals) (by decide) (by decide)
  | infinite s =>
    refine iff_of_false ?_ Bool.false_ne_true
    exact not_strict_of_word (formatFixed_infinite decimals s) (by cases s <;> decide)
      (by cases s <;> decide)
  | finite s m =>
    have hdenotes := denotes_formatFixed (x := .finite s m) hd rfl
    exact iff_of_true (.inr (.inr (.inr hdenotes.isNumber))) rfl

/-- A printed number is off by half a unit of the last decimal at most. -/
theorem abs_fixedValue_sub_le (hx : x.isFinite = true) :
    |fixedValue decimals x - x.toRat| ≤ 1 / (2 * 10 ^ decimals) := by
  cases x with
  | nan => cases hx
  | infinite s => cases hx
  | finite s m =>
    have hpow : (0 : ℚ) < 10 ^ decimals := by positivity
    have hm : |(roundHalfEven (m.toRat * 10 ^ decimals) : ℚ) / 10 ^ decimals - m.toRat| ≤
        1 / (2 * 10 ^ decimals) := by
      have hround := abs_roundHalfEven_sub_le (x := m.toRat * 10 ^ decimals)
        (mul_nonneg m.toRat_nonneg hpow.le)
      have hsplit : (roundHalfEven (m.toRat * 10 ^ decimals) : ℚ) / 10 ^ decimals - m.toRat =
          (roundHalfEven (m.toRat * 10 ^ decimals) - m.toRat * 10 ^ decimals) / 10 ^ decimals := by
        field_simp
      rw [hsplit, abs_div, abs_of_pos hpow, ← div_div]
      exact div_le_div_of_nonneg_right hround hpow.le
    cases s with
    | false => simpa [fixedValue, Number.toRat] using hm
    | true =>
      have hneg : |-((roundHalfEven (m.toRat * 10 ^ decimals) : ℚ) / 10 ^ decimals) - -m.toRat| =
          |(roundHalfEven (m.toRat * 10 ^ decimals) : ℚ) / 10 ^ decimals - m.toRat| := by
        rw [← abs_neg]
        congr 1
        ring
      simp only [fixedValue, Number.toRat, if_true]
      rw [hneg]
      exact hm

private theorem rounded_mono (decimals : ℕ) {a b : ℚ} (h : a ≤ b) :
    (roundHalfEven (a * 10 ^ decimals) : ℚ) / 10 ^ decimals ≤
      roundHalfEven (b * 10 ^ decimals) / 10 ^ decimals := by
  have hround : roundHalfEven (a * 10 ^ decimals) ≤ roundHalfEven (b * 10 ^ decimals) :=
    roundHalfEven_mono (mul_le_mul_of_nonneg_right h (by positivity))
  gcongr

/-- A larger number is not printed smaller. -/
theorem fixedValue_mono (hx : x.isFinite = true) (hy : y.isFinite = true)
    (h : x.toRat ≤ y.toRat) : fixedValue decimals x ≤ fixedValue decimals y := by
  cases x with
  | nan => cases hx
  | infinite s => cases hx
  | finite s m =>
    cases y with
    | nan => cases hy
    | infinite t => cases hy
    | finite t n =>
      have hm := m.toRat_nonneg
      have hn := n.toRat_nonneg
      have hm' : (0 : ℚ) ≤ roundHalfEven (m.toRat * 10 ^ decimals) / 10 ^ decimals := by positivity
      have hn' : (0 : ℚ) ≤ roundHalfEven (n.toRat * 10 ^ decimals) / 10 ^ decimals := by positivity
      cases s with
      | false =>
        cases t with
        | false => exact rounded_mono decimals h
        | true =>
          -- Both are zero.
          simp only [Number.toRat, Bool.false_eq_true, if_false, if_true] at h
          have hmn : m.toRat ≤ n.toRat := by linarith
          have hn0 : n.toRat = 0 := by linarith
          have hzero : roundHalfEven (n.toRat * 10 ^ decimals) = 0 := by
            rw [hn0, zero_mul]
            exact_mod_cast roundHalfEven_natCast 0
          have hle := rounded_mono decimals hmn
          simp only [fixedValue, Bool.false_eq_true, if_false, if_true]
          rw [hzero, Nat.cast_zero, zero_div] at hle ⊢
          linarith
      | true =>
        cases t with
        | false =>
          simp only [fixedValue, Bool.false_eq_true, if_false, if_true]
          linarith
        | true =>
          simp only [Number.toRat, if_true, neg_le_neg_iff] at h
          simp only [fixedValue, if_true, neg_le_neg_iff]
          exact rounded_mono decimals h

end Json
