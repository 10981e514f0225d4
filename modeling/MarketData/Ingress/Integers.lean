import MarketData.Ingress.Arguments

/-!
# Integer options

The integers that the driver, the engine builder and the exporter read from their arguments:
`parse_size` of `src/main.cpp`, `parse_positive_size` of `src/build_tiny_engine.cpp` and
`parse_port` of `tools/metrics_exporter.cpp`. All three convert with the C functions, which negate
a number behind a minus modulo `2 ^ 64`.
-/

namespace MarketData

open ByteText Cpp Ingress

/-- `parse_positive_size`, `src/build_tiny_engine.cpp:26–34`: the size that an option gives, from
one to the greatest `int32_t`. -/
def Builder.parsePositiveSize (flag value : Bytes) : Checked UInt64 := do
  let (parsed, consumed) ← stoull value
  throwUnless (¬ (consumed ≠ value.length ∨ parsed = 0 ∨ UInt64.ofNat (2 ^ 31 - 1) < parsed))
    (flag ++ ascii " must be between 1 and INT32_MAX")
  .ok parsed

/-- `parse_port`, `tools/metrics_exporter.cpp:687–696`: the port that `--port` gives, from 1 to
65535. -/
def Exporter.parsePort (text : Bytes) : Checked UInt16 := do
  let conversion := strtoul text
  throwUnless (¬ (conversion.rangeError = true ∨ conversion.consumed ≠ text.length ∨
    conversion.value = 0 ∨ 65535 < conversion.value))
    (ascii "--port requires an integer from 1 to 65535")
  .ok conversion.value.toUInt16

/-! ### What is accepted -/

/-- A function accepts a text exactly when it spells an integer of its range without a minus, and
gives this integer; other texts it rejects with an exception. -/
structure MeansWhatItSays (parse : Bytes → Checked ℕ) (least greatest : ℕ) (text : Bytes) :
    Prop where
  accepts : ∀ n, parse text = .ok n ↔ SpellsInteger text false n ∧ least ≤ n ∧ n ≤ greatest
  rejects : (∀ n, parse text ≠ .ok n) → ∃ what, parse text = .error (.exception what)

/-- The text is a minus and a numeral whose negation modulo `2 ^ 64` is in the range. -/
def WrapsInto (least greatest : ℕ) (text : Bytes) : Prop :=
  ∃ n < 2 ^ 64, SpellsInteger text true n ∧ least ≤ (2 ^ 64 - n) % 2 ^ 64 ∧
    (2 ^ 64 - n) % 2 ^ 64 ≤ greatest

/-- The text is converted as a whole to a word. -/
def ConvertsTo (text : Bytes) (v : UInt64) : Prop :=
  ∃ negative n, SpellsInteger text negative n ∧ n < 2 ^ 64 ∧ v = wordOf negative n

section

variable {text : Bytes}

private theorem toNat_wordOf_true {n : ℕ} (h : n < 2 ^ 64) :
    (wordOf true n).toNat = (2 ^ 64 - n) % 2 ^ 64 := by
  rw [wordOf, if_pos rfl, UInt64.toNat_neg, UInt64.toNat_ofNat', Nat.mod_eq_of_lt h]
  rfl

private theorem toNat_wordOf_false {n : ℕ} (h : n < 2 ^ 64) : (wordOf false n).toNat = n := by
  rw [wordOf, if_neg Bool.false_ne_true, UInt64.toNat_ofNat', Nat.mod_eq_of_lt h]

/-- A function that accepts the words of a range means what it says exactly for the texts that do
not wrap into the range. -/
theorem meansWhatItSays_iff {parse : Bytes → Checked ℕ} {least greatest : ℕ}
    (hgreatest : greatest < 2 ^ 64)
    (haccepts : ∀ n, parse text = .ok n ↔
      (∃ v, ConvertsTo text v ∧ v.toNat = n) ∧ least ≤ n ∧ n ≤ greatest)
    (hrejects : ∀ e, parse text = .error e → ∃ what, e = .exception what) :
    MeansWhatItSays parse least greatest text ↔ ¬ WrapsInto least greatest text := by
  constructor
  · rintro h ⟨n, hn, hspells, hleast, hmost⟩
    have haccepted := (haccepts _).mpr
      ⟨⟨_, ⟨true, n, hspells, hn, rfl⟩, toNat_wordOf_true hn⟩, hleast, hmost⟩
    have hsign := (((h.accepts _).mp haccepted).1.unique hspells).1
    cases hsign
  · intro hwraps
    refine ⟨fun n ↦ ?_, fun hall ↦ ?_⟩
    · rw [haccepts]
      refine and_congr_left fun ⟨hleast, hmost⟩ ↦ ⟨?_, fun hspells ↦ ?_⟩
      · rintro ⟨v, ⟨negative, m, hspells, hm, rfl⟩, rfl⟩
        cases negative with
        | false => rwa [toNat_wordOf_false hm]
        | true =>
          rw [toNat_wordOf_true hm] at hleast hmost
          exact absurd ⟨m, hm, hspells, hleast, hmost⟩ hwraps
      · have hn : n < 2 ^ 64 := hmost.trans_lt hgreatest
        exact ⟨_, ⟨false, n, hspells, hn, rfl⟩, toNat_wordOf_false hn⟩
    · cases hparse : parse text with
      | ok n => exact absurd hparse (hall n)
      | error e =>
        obtain ⟨what, rfl⟩ := hrejects e hparse
        exact ⟨what, rfl⟩

end

/-! ### The conversions -/

private theorem convertsTo_iff {text : Bytes} {v : UInt64} (hne : text ≠ []) :
    ConvertsTo text v ↔ strtoull text = ⟨v, text.length, false⟩ := by
  constructor
  · rintro ⟨negative, n, hspells, hn, rfl⟩
    rw [strtoull_eq hspells, if_pos hn]
  · intro h
    have hconsumed : (strtoull text).consumed = text.length := by rw [h]
    have hpos : (strtoull text).consumed ≠ 0 := by
      rw [hconsumed]
      simpa using hne
    obtain ⟨negative, n, hspells⟩ := exists_spellsInteger hpos hconsumed
    refine ⟨negative, n, hspells, ?_⟩
    rw [strtoull_eq hspells] at h
    split at h
    · next hn => exact ⟨hn, (congrArg IntegerConversion.value h).symm⟩
    · have herror : true = false := congrArg IntegerConversion.rangeError h
      cases herror

private theorem ne_nil_of_convertsTo {text : Bytes} {v : UInt64} (h : ConvertsTo text v) :
    text ≠ [] := by
  rintro rfl
  obtain ⟨negative, n, ⟨blanks, sign, digits, htext, -, -, hne, -⟩, -⟩ := h
  simp [hne] at htext

private theorem stoull_eq_ok {text : Bytes} {v : UInt64} :
    stoull text = .ok (v, text.length) ↔ ConvertsTo text v := by
  constructor
  · intro h
    obtain ⟨_, hconsumed, h⟩ := bind_eq_ok.mp h
    obtain ⟨_, herror, h⟩ := bind_eq_ok.mp h
    obtain ⟨hvalue, hlength⟩ := Prod.mk.inj (Except.ok.inj h)
    have hne : text ≠ [] := by
      rintro rfl
      exact throwUnless_eq_ok.mp hconsumed hlength
    rw [convertsTo_iff hne, ← hvalue, ← hlength, ← throwUnless_eq_ok.mp herror]
  · intro h
    have hne := ne_nil_of_convertsTo h
    have hlength : text.length ≠ 0 := by simpa using hne
    simp [stoull, (convertsTo_iff hne).mp h, stoa, throwUnless, hlength]

private theorem stoull_error {text : Bytes} {e : Failure} (h : stoull text = .error e) :
    ∃ what, e = .exception what := by
  rcases bind_eq_error h with h | ⟨_, -, h⟩
  · exact ⟨_, throwUnless_eq_error h⟩
  rcases bind_eq_error h with h | ⟨_, -, h⟩
  · exact ⟨_, throwUnless_eq_error h⟩
  · cases h

/-- The word that `stoull` makes of a whole text, unless it is a bad one. -/
def checkedStoull (text what : Bytes) (bad : UInt64 → Prop) [DecidablePred bad] :
    Checked UInt64 := do
  let (parsed, consumed) ← stoull text
  throwUnless (¬ (consumed ≠ text.length ∨ bad parsed)) what
  .ok parsed

private theorem checkedStoull_spec (text what : Bytes) (bad : UInt64 → Prop) [DecidablePred bad] :
    (∀ a, checkedStoull text what bad = .ok a ↔ ∃ v, ConvertsTo text v ∧ ¬ bad v ∧ id v = a) ∧
      ∀ e, checkedStoull text what bad = .error e → ∃ what, e = .exception what := by
  unfold checkedStoull
  constructor
  · intro a
    simp only [bind_eq_ok, Prod.exists, throwUnless_eq_ok, not_or, not_not]
    constructor
    · rintro ⟨parsed, consumed, h, _, ⟨rfl, hbad⟩, ha⟩
      exact ⟨parsed, stoull_eq_ok.mp h, hbad, Except.ok.inj ha⟩
    · rintro ⟨v, h, hbad, rfl⟩
      exact ⟨v, text.length, stoull_eq_ok.mpr h, (), ⟨rfl, hbad⟩, rfl⟩
  · intro e h
    rcases bind_eq_error h with h | ⟨a, -, h⟩
    · exact stoull_error h
    rcases bind_eq_error h with h | ⟨_, -, h⟩
    · exact ⟨_, throwUnless_eq_error h⟩
    · cases h

private theorem map_eq_error {α β : Type} {x : Checked α} {f : α → β} {e : Failure}
    (h : f <$> x = .error e) : x = .error e := by
  cases x with
  | error e' =>
    obtain rfl := Except.error.inj h
    rfl
  | ok a => cases h

private theorem checked_meansWhatItSays {α : Type} {parse : Bytes → Checked α} {toNat : α → ℕ}
    {least greatest : ℕ} {text : Bytes} (bad : UInt64 → Prop) (ofWord : UInt64 → α)
    (hok : ∀ a, parse text = .ok a ↔ ∃ v, ConvertsTo text v ∧ ¬ bad v ∧ ofWord v = a)
    (herror : ∀ e, parse text = .error e → ∃ what, e = .exception what)
    (hgreatest : greatest < 2 ^ 64)
    (hbad : ∀ v, ¬ bad v ↔ least ≤ v.toNat ∧ v.toNat ≤ greatest)
    (htoNat : ∀ v, ¬ bad v → toNat (ofWord v) = v.toNat) :
    MeansWhatItSays (fun s ↦ toNat <$> parse s) least greatest text ↔
      ¬ WrapsInto least greatest text := by
  refine meansWhatItSays_iff hgreatest (fun n ↦ ?_) fun e he ↦ herror e (map_eq_error he)
  rw [map_eq_ok]
  constructor
  · rintro ⟨a, ha, rfl⟩
    obtain ⟨v, hconverts, hgood, rfl⟩ := (hok a).mp ha
    rw [htoNat v hgood]
    exact ⟨⟨v, hconverts, rfl⟩, (hbad v).mp hgood⟩
  · rintro ⟨⟨v, hconverts, rfl⟩, hrange⟩
    have hgood := (hbad v).mpr hrange
    exact ⟨ofWord v, (hok _).mpr ⟨v, hconverts, hgood, rfl⟩, htoNat v hgood⟩

/-! ### The three functions -/

private theorem parseSize_iff (flag : Bytes) (allowZero : Bool) (text : Bytes) :
    MeansWhatItSays (fun s ↦ UInt64.toNat <$> parseSize flag allowZero s)
        (if allowZero then 0 else 1) (2 ^ 64 - 1) text ↔
      ¬ WrapsInto (if allowZero then 0 else 1) (2 ^ 64 - 1) text := by
  obtain ⟨hok, herror⟩ := checkedStoull_spec text
    (ascii "Invalid value for " ++ flag ++ ascii ": " ++ text)
    fun v ↦ (allowZero = false ∧ v = 0) ∨ UInt64.ofNat (2 ^ 64 - 1) < v
  refine checked_meansWhatItSays _ _ hok herror (by decide) (fun v ↦ ?_) fun _ _ ↦ rfl
  have hv := v.toNat_lt
  simp only [UInt64.lt_iff_toNat_lt, ← UInt64.toNat_inj]
  cases allowZero with
  | false =>
    simp
    omega
  | true => simp

private theorem parsePositiveSize_iff (flag text : Bytes) :
    MeansWhatItSays (fun s ↦ UInt64.toNat <$> Builder.parsePositiveSize flag s) 1 (2 ^ 31 - 1)
        text ↔ ¬ WrapsInto 1 (2 ^ 31 - 1) text := by
  obtain ⟨hok, herror⟩ := checkedStoull_spec text
    (flag ++ ascii " must be between 1 and INT32_MAX") fun v ↦ v = 0 ∨ UInt64.ofNat (2 ^ 31 - 1) < v
  refine checked_meansWhatItSays _ _ hok herror (by decide) (fun v ↦ ?_) fun _ _ ↦ rfl
  simp only [UInt64.lt_iff_toNat_lt, ← UInt64.toNat_inj]
  simp
  omega

private theorem parsePort_eq_ok {text : Bytes} {port : UInt16} :
    Exporter.parsePort text = .ok port ↔
      ∃ v, ConvertsTo text v ∧ ¬ (v = 0 ∨ 65535 < v) ∧ v.toUInt16 = port := by
  simp only [Exporter.parsePort, bind_eq_ok, throwUnless_eq_ok, not_or, not_not, strtoul]
  constructor
  · rintro ⟨_, ⟨herror, hconsumed, hzero, hrange⟩, hport⟩
    have hne : text ≠ [] := by
      rintro rfl
      exact hzero (by decide)
    refine ⟨_, (convertsTo_iff hne).mpr ?_, ⟨hzero, hrange⟩, Except.ok.inj hport⟩
    rw [← hconsumed, ← Bool.eq_false_iff.mpr herror]
  · rintro ⟨v, hconverts, hgood, rfl⟩
    rw [(convertsTo_iff (ne_nil_of_convertsTo hconverts)).mp hconverts]
    exact ⟨(), ⟨Bool.false_ne_true, rfl, hgood⟩, rfl⟩

private theorem parsePort_iff (text : Bytes) :
    MeansWhatItSays (fun s ↦ UInt16.toNat <$> Exporter.parsePort s) 1 65535 text ↔
      ¬ WrapsInto 1 65535 text := by
  refine checked_meansWhatItSays (fun v ↦ v = 0 ∨ 65535 < v) UInt64.toUInt16
    (fun _ ↦ parsePort_eq_ok) (fun e he ↦ ?_) (by decide) (fun v ↦ ?_) fun v hv ↦ ?_
  · rcases bind_eq_error he with h | ⟨_, -, h⟩
    · exact ⟨_, throwUnless_eq_error h⟩
    · cases h
  · simp only [UInt64.lt_iff_toNat_lt, ← UInt64.toNat_inj]
    simp
    omega
  · simp only [UInt64.lt_iff_toNat_lt, ← UInt64.toNat_inj] at hv
    simp at hv ⊢
    omega

/-- Every integer option means what it says exactly for the texts that are no minus with a numeral
whose negation modulo `2 ^ 64` lies in the range of the option. -/
theorem integer_options (text : Bytes) :
    (∀ flag allowZero,
      MeansWhatItSays (fun s ↦ UInt64.toNat <$> parseSize flag allowZero s)
          (if allowZero then 0 else 1) (2 ^ 64 - 1) text ↔
        ¬ WrapsInto (if allowZero then 0 else 1) (2 ^ 64 - 1) text) ∧
    (∀ flag,
      MeansWhatItSays (fun s ↦ UInt64.toNat <$> Builder.parsePositiveSize flag s) 1 (2 ^ 31 - 1)
          text ↔
        ¬ WrapsInto 1 (2 ^ 31 - 1) text) ∧
    (MeansWhatItSays (fun s ↦ UInt16.toNat <$> Exporter.parsePort s) 1 65535 text ↔
      ¬ WrapsInto 1 65535 text) :=
  ⟨fun flag allowZero ↦ parseSize_iff flag allowZero text,
    fun flag ↦ parsePositiveSize_iff flag text, parsePort_iff text⟩

/-- A number that is negated to one. -/
def negatedOne : Bytes := ascii "-18446744073709551615"

/-- All three functions read one where the text says a negative number. -/
theorem integer_options_negated :
    parseSize (ascii "--iterations") false negatedOne = .ok 1 ∧
      Builder.parsePositiveSize (ascii "--input-size") negatedOne = .ok 1 ∧
      Exporter.parsePort negatedOne = .ok 1 ∧ ¬ ∃ n, SpellsInteger negatedOne false n := by
  refine ⟨by decide, by decide, by decide, ?_⟩
  rintro ⟨n, hn⟩
  have hspells : SpellsInteger negatedOne true 18446744073709551615 :=
    ⟨[], [45], ascii "18446744073709551615", rfl, nofun, rfl, by decide, by decide, by decide⟩
  cases (hn.unique hspells).1

end MarketData
