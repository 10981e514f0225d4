import MarketData.Base.Conversions

/-!
# The numerals of `strtod`

Blanks, a sign and a decimal or hexadecimal magnitude. `strtod` takes a text as a whole and
without a range error exactly when the text is such a numeral of a number in range; of the
empty text it takes nothing, which is all of it.
-/

namespace Ieee

open ByteText Cpp

/-! ### The parts of a magnitude -/

/-- Digits before and after an optional point, at least one of them. -/
structure IsMantissa (p : UInt8 → Bool) (whole point fraction : Bytes) : Prop where
  all_whole : ∀ b ∈ whole, p b = true
  all_fraction : ∀ b ∈ fraction, p b = true
  is_point : point = [46] ∨ point = [] ∧ fraction = []
  nonempty : ¬ (whole = [] ∧ fraction = [])

/-- An optional exponent behind the letter. -/
inductive IsScale (letter : UInt8) : Bytes → ℤ → Prop where
  | absent : IsScale letter [] 0
  | present {mark : UInt8} {negative : Bool} {sign digits : Bytes} (hmark : lower mark = letter)
      (hsign : IsSign negative sign) (hne : digits ≠ [])
      (hdigits : ∀ b ∈ digits, isDigit b = true) :
      IsScale letter (mark :: (sign ++ digits))
        (if negative then -(numeral digits : ℤ) else numeral digits)

/-- Digits around an optional point, and an optional exponent. -/
def IsScaled (p : UInt8 → Bool) (letter : UInt8) (text whole fraction : Bytes) (k : ℤ) : Prop :=
  ∃ point scale, text = whole ++ (point ++ (fraction ++ scale)) ∧
    IsMantissa p whole point fraction ∧ IsScale letter scale k

/-- A hexadecimal digit of a numeral. -/
def isHexadecimal (b : UInt8) : Bool := (hexValue? b).isSome

/-- The number that hexadecimal digits spell. -/
def hexNumeral (digits : Bytes) : ℕ := digits.foldl (fun n b ↦ 16 * n + (hexValue? b).getD 0) 0

/-- The magnitude of a numeral. -/
inductive IsMagnitude : Bytes → ℚ → Prop where
  | decimal {text whole fraction : Bytes} {k : ℤ} (h : IsScaled isDigit 101 text whole fraction k) :
      IsMagnitude text (numeral (whole ++ fraction) * 10 ^ (k - fraction.length))
  | hexadecimal {mark : UInt8} {text whole fraction : Bytes} {k : ℤ} (hmark : lower mark = 120)
      (h : IsScaled isHexadecimal 112 text whole fraction k) :
      IsMagnitude (48 :: mark :: text)
        (hexNumeral (whole ++ fraction) * 2 ^ (k - 4 * fraction.length))

/-- The text is a numeral of the number. -/
def Spells (text : Bytes) (negative : Bool) (x : ℚ) : Prop :=
  ∃ blanks sign body m, text = blanks ++ (sign ++ body) ∧ (∀ b ∈ blanks, isSpaceC b = true) ∧
    IsSign negative sign ∧ IsMagnitude body m ∧ x = if negative then -m else m

/-- The number rounds to a finite datum, and to itself where that is subnormal. The last is a
reading of the standard, which leaves it to the implementation what an underflow sets. An
implementation that judges the result before its exponent is bounded differs only for inexact
numbers between `2 ^ (-1022) - 2 ^ (-1075)` and `2 ^ (-1022) - 2 ^ (-1076)`. -/
def InRange (negative : Bool) (x : ℚ) : Prop :=
  (Number.round binary64 negative x).isFinite = true ∧
    (|(Number.round binary64 negative x).toRat| < binary64.leastNormal →
      (Number.round binary64 negative x).toRat = x)

/-! ### Scanning the parts -/

private theorem IsScale.head {letter : UInt8} {text : Bytes} {k : ℤ} (h : IsScale letter text k) :
    ∀ b ∈ text.head?, lower b = letter := by
  cases h with
  | absent => simp
  | present hmark => simpa using hmark

private theorem takeWhile_stop {p : UInt8 → Bool} {run rest : Bytes} (hrun : ∀ b ∈ run, p b = true)
    (hrest : ∀ b ∈ rest.head?, p b = false) : (run ++ rest).takeWhile p = run := by
  rw [List.takeWhile_append_of_pos hrun]
  cases rest with
  | nil => simp
  | cons b rest => simp [hrest b rfl]

private theorem scanDigits_append {p : UInt8 → Bool} (hp : p 46 = false)
    {whole point fraction rest : Bytes} (h : IsMantissa p whole point fraction)
    (hrest : ∀ b ∈ rest.head?, p b = false ∧ b ≠ 46) :
    scanDigits p (whole ++ (point ++ (fraction ++ rest))) =
      (whole, fraction, whole.length + point.length + fraction.length) := by
  have hstop : ∀ b ∈ rest.head?, p b = false := fun b hb ↦ (hrest b hb).1
  rcases h.is_point with rfl | ⟨rfl, rfl⟩
  · have hwhole : (whole ++ 46 :: (fraction ++ rest)).takeWhile p = whole :=
      takeWhile_stop h.all_whole (by simpa using hp)
    simp only [List.singleton_append, scanDigits, hwhole, List.drop_left, if_true,
      takeWhile_stop h.all_fraction hstop, List.length_singleton]
  · simp only [List.nil_append, scanDigits, takeWhile_stop h.all_whole hstop, List.drop_left]
    cases rest with
    | nil => rfl
    | cons b rest =>
      simp only [(hrest b rfl).2, if_false]
      rfl

private theorem scanDigits_split (p : UInt8 → Bool) (text : Bytes) :
    ∃ point rest, text = (scanDigits p text).1 ++ (point ++ ((scanDigits p text).2.1 ++ rest)) ∧
      (scanDigits p text).2.2 =
        (scanDigits p text).1.length + point.length + (scanDigits p text).2.1.length ∧
      (∀ b ∈ (scanDigits p text).1, p b = true) ∧ (∀ b ∈ (scanDigits p text).2.1, p b = true) ∧
      (point = [46] ∨ point = [] ∧ (scanDigits p text).2.1 = []) := by
  have htake : ∀ (text : Bytes), ∀ b ∈ text.takeWhile p, p b = true :=
    fun _ _ hb ↦ List.mem_takeWhile_imp hb
  have hsplit : ∀ (text : Bytes), text.takeWhile p ++ text.drop (text.takeWhile p).length = text :=
    fun _ ↦ List.prefix_iff_eq_append.mp (List.takeWhile_prefix p)
  have hwhole := hsplit text
  simp only [scanDigits]
  split
  · next b rest hrest =>
    rw [hrest] at hwhole
    split
    · next hpoint =>
      subst hpoint
      refine ⟨[46], rest.drop (rest.takeWhile p).length, ?_, rfl, htake text, htake rest, .inl rfl⟩
      rw [hsplit rest]
      exact hwhole.symm
    · exact ⟨[], b :: rest, hwhole.symm, rfl, htake text, by simp, .inr ⟨rfl, rfl⟩⟩
  · next hrest =>
    rw [hrest] at hwhole
    exact ⟨[], [], hwhole.symm, rfl, htake text, by simp, .inr ⟨rfl, rfl⟩⟩

private theorem scanExponent_eq {letter : UInt8} {text : Bytes} {k : ℤ}
    (h : IsScale letter text k) : scanExponent letter text = (k, text.length) := by
  cases h with
  | absent => rfl
  | @present mark negative sign digits hmark hsign hne hdigits =>
    have hhead : ∀ b ∈ digits.head?, b ≠ 45 ∧ b ≠ 43 := fun b hb ↦
      have h := numeral_byte_ne (.inl (hdigits b (List.mem_of_mem_head? hb)))
      ⟨h.1, h.2.1⟩
    simp only [scanExponent, hmark, if_true, scanSign_append hsign hhead, List.drop_left,
      List.takeWhile_eq_self_iff.mpr hdigits, hne, if_false, List.length_cons, List.length_append]
    congr 1
    omega

private theorem isScale_scanExponent {letter : UInt8} {text : Bytes}
    (h : (scanExponent letter text).2 = text.length) :
    IsScale letter text (scanExponent letter text).1 := by
  cases text with
  | nil => exact .absent
  | cons mark rest =>
    simp only [scanExponent] at h ⊢
    split at h
    · next hmark =>
      rw [if_pos hmark]
      split at h
      · cases h
      · next hne =>
        rw [if_neg hne]
        have hsplit : rest.take (scanSign rest).2 ++ rest.drop (scanSign rest).2 = rest :=
          List.take_append_drop _ _
        have hall : (rest.drop (scanSign rest).2).takeWhile isDigit =
            rest.drop (scanSign rest).2 := by
          refine (List.takeWhile_prefix isDigit).eq_of_length ?_
          rw [List.length_drop]
          simp only [List.length_cons] at h
          omega
        have hscale := IsScale.present hmark (isSign_scanSign rest) hne
          fun _ hb ↦ List.mem_takeWhile_imp hb
        rw [hall, hsplit] at hscale
        rw [hall]
        exact hscale
    · cases h

private theorem drop_three (a b c d : Bytes) :
    (a ++ (b ++ (c ++ d))).drop (a.length + b.length + c.length) = d := by
  rw [← List.append_assoc, ← List.append_assoc, ← List.length_append, ← List.length_append,
    List.drop_left]

private theorem scan_eq {p : UInt8 → Bool} {letter : UInt8} (hp : p 46 = false)
    (hletter : ∀ b, lower b = letter → p b = false ∧ b ≠ 46) {text whole fraction : Bytes} {k : ℤ}
    (h : IsScaled p letter text whole fraction k) :
    ∃ n, scanDigits p text = (whole, fraction, n) ∧
      scanExponent letter (text.drop n) = (k, text.length - n) ∧ n ≤ text.length ∧
      ¬ (whole = [] ∧ fraction = []) := by
  obtain ⟨point, scale, rfl, hmantissa, hscale⟩ := h
  refine ⟨whole.length + point.length + fraction.length,
    scanDigits_append hp hmantissa fun b hb ↦ hletter b (hscale.head b hb), ?_, ?_,
    hmantissa.nonempty⟩
  · rw [drop_three, scanExponent_eq hscale]
    simp only [List.length_append]
    congr 1
    omega
  · simp only [List.length_append]
    omega

-- What is scanned as a whole is a magnitude.
private theorem isScaled_scan {p : UInt8 → Bool} {letter : UInt8} {text : Bytes}
    (hne : ¬ ((scanDigits p text).1 = [] ∧ (scanDigits p text).2.1 = []))
    (h : (scanDigits p text).2.2 + (scanExponent letter (text.drop (scanDigits p text).2.2)).2 =
      text.length) :
    IsScaled p letter text (scanDigits p text).1 (scanDigits p text).2.1
      (scanExponent letter (text.drop (scanDigits p text).2.2)).1 := by
  obtain ⟨point, rest, htext, hlength, hwhole, hfraction, hpoint⟩ := scanDigits_split p text
  have hdrop := drop_three (scanDigits p text).1 point (scanDigits p text).2.1 rest
  rw [← htext, ← hlength] at hdrop
  rw [hdrop] at h ⊢
  refine ⟨point, rest, htext, ⟨hwhole, hfraction, hpoint, hne⟩, isScale_scanExponent ?_⟩
  have hall := congrArg List.length htext
  simp only [List.length_append] at hall
  omega

/-! ### Magnitudes -/

/-- A letter is its lower case or stands 32 below it. -/
theorem eq_of_lower {b c : UInt8} (h : lower b = c) : b = c ∨ b = c - 32 := by
  unfold lower at h
  split at h
  · exact .inr (by rw [← h, UInt8.add_sub_cancel])
  · exact .inl h

private theorem isDigit_other {b : UInt8} (h : lower b = 101) : isDigit b = false ∧ b ≠ 46 := by
  rcases eq_of_lower h with rfl | rfl <;> decide

private theorem isHexadecimal_other {b : UInt8} (h : lower b = 112) :
    isHexadecimal b = false ∧ b ≠ 46 := by
  rcases eq_of_lower h with rfl | rfl <;> decide

/-- A decimal magnitude is scanned as a whole, and nothing else is. -/
theorem scanDecimal_eq_some {text : Bytes} {x : ℚ} :
    scanDecimal text = some (x, text.length) ↔ ∃ whole fraction k,
      IsScaled isDigit 101 text whole fraction k ∧
        x = numeral (whole ++ fraction) * 10 ^ (k - fraction.length) := by
  constructor
  · intro h
    simp only [scanDecimal] at h
    split at h
    · cases h
    · next hne =>
      obtain ⟨hx, hlength⟩ := Prod.mk.inj (Option.some.inj h)
      exact ⟨_, _, _, isScaled_scan hne hlength, hx.symm⟩
  · rintro ⟨whole, fraction, k, h, rfl⟩
    obtain ⟨n, hdigits, hexponent, hle, hne⟩ := scan_eq (by decide) (fun _ ↦ isDigit_other) h
    simp only [scanDecimal, hdigits, hexponent, hne, if_false, Nat.add_sub_cancel' hle]

/-- A hexadecimal magnitude is scanned as a whole, and nothing else is. -/
theorem scanHexadecimal_eq_some {text : Bytes} {x : ℚ} :
    scanHexadecimal text = some (x, text.length) ↔ ∃ mark digits whole fraction k,
      text = 48 :: mark :: digits ∧ lower mark = 120 ∧
        IsScaled isHexadecimal 112 digits whole fraction k ∧
        x = hexNumeral (whole ++ fraction) * 2 ^ (k - 4 * fraction.length) := by
  constructor
  · intro h
    unfold scanHexadecimal at h
    split at h
    · next zero mark rest =>
      split at h
      · next hmark =>
        obtain ⟨rfl, hmark⟩ := hmark
        simp only at h
        split at h
        · cases h
        · next hne =>
          obtain ⟨hx, hlength⟩ := Prod.mk.inj (Option.some.inj h)
          refine ⟨mark, rest, _, _, _, rfl, hmark, isScaled_scan hne ?_, hx.symm⟩
          change (scanDigits (fun b ↦ (hexValue? b).isSome) rest).2.2 +
            (scanExponent 112 (rest.drop (scanDigits (fun b ↦ (hexValue? b).isSome) rest).2.2)).2 =
              rest.length
          simp only [List.length_cons] at hlength
          omega
      · cases h
    · cases h
  · rintro ⟨mark, digits, whole, fraction, k, rfl, hmark, h, rfl⟩
    obtain ⟨n, hdigits, hexponent, hle, hne⟩ := scan_eq (by decide) (fun _ ↦ isHexadecimal_other) h
    have hscan : scanDigits (fun b ↦ (hexValue? b).isSome) digits = (whole, fraction, n) := hdigits
    have hlength : 2 + n + (digits.length - n) = (48 :: mark :: digits).length := by
      simp only [List.length_cons]
      omega
    simp only [scanHexadecimal, hmark, and_self, if_true, hscan, hexponent, hne, if_false, hlength]
    rfl

private theorem scanHexadecimal_decimal {text whole fraction : Bytes} {k : ℤ}
    (h : IsScaled isDigit 101 text whole fraction k) : scanHexadecimal text = none := by
  obtain ⟨point, scale, rfl, hmantissa, hscale⟩ := h
  have hdigit : ∀ {digits : Bytes}, (∀ b ∈ digits, isDigit b = true) →
      ∀ b ∈ digits, lower b ≠ 120 := fun hdigits b hb ↦ lower_ne_of_isDigit (hdigits b hb)
  have hpoint : ∀ b ∈ point, lower b ≠ 120 := by
    rcases hmantissa.is_point with rfl | ⟨rfl, -⟩ <;> decide
  have hexponent : ∀ b ∈ scale, lower b ≠ 120 := by
    cases hscale with
    | absent => simp
    | @present mark negative sign digits hmark hsign hne hdigits =>
      have hsigns : ∀ b ∈ sign, lower b ≠ 120 := by
        cases negative with
        | true =>
          obtain rfl : sign = [45] := hsign
          decide
        | false => rcases (hsign : sign = [] ∨ sign = [43]) with rfl | rfl <;> decide
      rw [List.forall_mem_cons, List.forall_mem_append]
      exact ⟨by rw [hmark]; decide, hsigns, hdigit hdigits⟩
  have hall : ∀ b ∈ whole ++ (point ++ (fraction ++ scale)), lower b ≠ 120 := by
    simp only [List.forall_mem_append]
    exact ⟨hdigit hmantissa.all_whole, hpoint, hdigit hmantissa.all_fraction, hexponent⟩
  generalize whole ++ (point ++ (fraction ++ scale)) = text at hall
  rcases text with _ | ⟨zero, _ | ⟨mark, rest⟩⟩
  · rfl
  · rfl
  · rw [scanHexadecimal, if_neg fun h ↦ hall mark (by simp) h.2]

private theorem isMagnitude_head {body : Bytes} {m : ℚ} (h : IsMagnitude body m) :
    ∀ b ∈ body.head?, b ≠ 45 ∧ b ≠ 43 ∧ isSpaceC b = false := by
  cases h with
  | hexadecimal => simp [isSpaceC]
  | @decimal _ whole fraction k h =>
    obtain ⟨point, scale, rfl, hmantissa, hscale⟩ := h
    intro b hb
    apply numeral_byte_ne
    cases whole with
    | cons c whole =>
      obtain rfl : c = b := by simpa using hb
      exact .inl (hmantissa.all_whole c List.mem_cons_self)
    | nil =>
      rcases hmantissa.is_point with rfl | ⟨rfl, rfl⟩
      · obtain rfl : 46 = b := by simpa using hb
        exact .inr rfl
      · exact absurd ⟨rfl, rfl⟩ hmantissa.nonempty

/-- A numeral is converted as a whole. -/
theorem strtod_eq {text : Bytes} {negative : Bool} {x : ℚ} (h : Spells text negative x) :
    ∃ m, strtod text = convertMagnitude negative m text.length ∧
      x = if negative then -m else m := by
  obtain ⟨blanks, sign, body, m, rfl, hblanks, hsign, hbody, rfl⟩ := h
  have hhead := isMagnitude_head hbody
  have hdrop : (blanks ++ (sign ++ body)).drop (blanks.length + sign.length) = body := by
    rw [← List.append_assoc, ← List.length_append, List.drop_left]
  have hlength : blanks.length + sign.length + body.length = (blanks ++ (sign ++ body)).length := by
    simp only [List.length_append, Nat.add_assoc]
  refine ⟨m, ?_, rfl⟩
  simp only [strtod, takeWhile_blanks hblanks hsign fun b hb ↦ (hhead b hb).2.2, List.drop_left,
    scanSign_append hsign fun b hb ↦ ⟨(hhead b hb).1, (hhead b hb).2.1⟩, hdrop]
  cases hbody with
  | decimal h =>
    rw [scanHexadecimal_decimal h, scanDecimal_eq_some.mpr ⟨_, _, _, h, rfl⟩]
    exact congrArg (convertMagnitude negative _) hlength
  | hexadecimal hmark h =>
    rw [scanHexadecimal_eq_some.mpr ⟨_, _, _, _, _, rfl, hmark, h, rfl⟩]
    exact congrArg (convertMagnitude negative _) hlength

private theorem scanWord_not_finite {negative : Bool} {text : Bytes} {word : Number binary64 × ℕ}
    (h : scanWord negative text = some word) : word.1.isFinite = false := by
  unfold scanWord at h
  split at h
  · rw [← Option.some.inj h]
    rfl
  split at h
  · rw [← Option.some.inj h]
    rfl
  split at h
  · rw [← Option.some.inj h]
    rfl
  · cases h

/-- Only a numeral is converted to a finite datum as a whole. -/
theorem spells_of_strtod {text : Bytes} (hne : text ≠ [])
    (hlength : (strtod text).consumed = text.length)
    (hfinite : (strtod text).value.isFinite = true) :
    ∃ negative x, Spells text negative x := by
  have hblanks : ∀ b ∈ text.takeWhile isSpaceC, isSpaceC b = true :=
    fun _ hb ↦ List.mem_takeWhile_imp hb
  have hsplit : text.takeWhile isSpaceC ++ text.drop (text.takeWhile isSpaceC).length = text :=
    List.prefix_iff_eq_append.mp (List.takeWhile_prefix _)
  simp only [strtod] at hlength hfinite
  generalize text.takeWhile isSpaceC = blanks at hblanks hsplit hlength hfinite
  have hsign := isSign_scanSign (text.drop blanks.length)
  generalize scanSign (text.drop blanks.length) = sign at hsign hlength hfinite
  have htext : text = blanks ++ ((text.drop blanks.length).take sign.2 ++
      text.drop (blanks.length + sign.2)) := by
    rw [← List.drop_drop, List.take_append_drop, hsplit]
  have hall := congrArg List.length htext
  simp only [List.length_append] at hall
  generalize hbody : text.drop (blanks.length + sign.2) = body at htext hall hlength hfinite
  have hspells : ∀ m, IsMagnitude body m → ∃ negative x, Spells text negative x :=
    fun m hm ↦ ⟨sign.1, _, blanks, _, body, m, htext, hblanks, hsign, hm, rfl⟩
  have hwhole : ∀ n, blanks.length + sign.2 + n = text.length → n = body.length := by
    intro n hn
    rw [← hbody, List.length_drop]
    omega
  cases hhex : scanHexadecimal body with
  | some scanned =>
    rw [hhex] at hlength
    obtain ⟨m, n⟩ := scanned
    obtain rfl := hwhole n hlength
    obtain ⟨mark, digits, whole, fraction, k, rfl, hmark, h, -⟩ := scanHexadecimal_eq_some.mp hhex
    exact hspells _ (.hexadecimal hmark h)
  | none =>
    rw [hhex] at hlength hfinite
    cases hdecimal : scanDecimal body with
    | some scanned =>
      rw [hdecimal] at hlength
      obtain ⟨m, n⟩ := scanned
      obtain rfl := hwhole n hlength
      obtain ⟨whole, fraction, k, h, -⟩ := scanDecimal_eq_some.mp hdecimal
      exact hspells _ (.decimal h)
    | none =>
      rw [hdecimal] at hlength hfinite
      cases hword : scanWord sign.1 body with
      | some scanned =>
        rw [hword] at hfinite
        rw [scanWord_not_finite hword] at hfinite
        cases hfinite
      | none =>
        rw [hword] at hlength
        exact absurd (List.length_eq_zero_iff.mp hlength.symm) hne

/-- A numeral has a magnitude, which is not empty. -/
theorem Spells.ne_nil {text : Bytes} {negative : Bool} {x : ℚ} (h : Spells text negative x) :
    text ≠ [] := by
  obtain ⟨blanks, sign, body, m, rfl, -, -, hbody, -⟩ := h
  suffices hne : body ≠ [] by simp [hne]
  cases hbody with
  | hexadecimal => simp
  | decimal h =>
    obtain ⟨point, scale, rfl, hmantissa, -⟩ := h
    intro hnil
    simp only [List.append_eq_nil_iff] at hnil
    exact hmantissa.nonempty ⟨hnil.1, hnil.2.2.1⟩

private theorem finiteToken_iff {token : Bytes} {y : Number binary64} :
    finiteToken? token = some y ↔ (strtod token).rangeError = false ∧
      (strtod token).consumed = token.length ∧ (strtod token).value.isFinite = true ∧
        (strtod token).value = y := by
  rw [finiteToken?]
  simp only [Bool.or_eq_true, bne_iff_ne, Bool.not_eq_true']
  split
  · next h =>
    constructor
    · intro hnone
      cases hnone
    · rintro ⟨hrange, hlength, hfinite, -⟩
      rw [hrange, hfinite] at h
      rcases h with (h | h) | h
      · cases h
      · exact absurd hlength h
      · cases h
  · next h =>
    simp only [not_or, Bool.not_eq_true, not_not, Bool.not_eq_false] at h
    rw [Option.some.injEq]
    exact ⟨fun hy ↦ ⟨h.1.1, h.1.2, h.2, hy⟩, fun hy ↦ hy.2.2.2⟩

/-- What a numeral is taken for. -/
theorem Spells.finiteToken {token : Bytes} {negative : Bool} {x : ℚ} {y : Number binary64}
    (h : Spells token negative x) :
    finiteToken? token = some y ↔ InRange negative x ∧ y = .round binary64 negative x := by
  obtain ⟨m, hstrtod, rfl⟩ := strtod_eq h
  have hrange : (convertMagnitude negative m token.length).rangeError = false ↔
      InRange negative (if negative then -m else m) := by
    simp only [convertMagnitude, InRange, Bool.or_eq_false_iff, Bool.not_eq_false',
      Bool.and_eq_false_imp, decide_eq_true_eq, decide_eq_false_iff_not, not_not]
  rw [finiteToken_iff, hstrtod, hrange, convertMagnitude_value]
  constructor
  · rintro ⟨hin, -, -, hy⟩
    exact ⟨hin, hy.symm⟩
  · rintro ⟨hin, hy⟩
    exact ⟨hin, rfl, hin.1, hy.symm⟩

/-- What a token is taken for: a numeral in range for its rounding, the empty token for zero. -/
theorem finiteToken_eq_some {token : Bytes} {y : Number binary64} :
    finiteToken? token = some y ↔ token = [] ∧ y = .zero ∨
      ∃ negative x, Spells token negative x ∧ InRange negative x ∧
        y = .round binary64 negative x := by
  by_cases hne : token = []
  · subst hne
    have hempty : finiteToken? [] = some .zero := by decide +kernel
    rw [hempty, Option.some.injEq]
    constructor
    · exact fun h ↦ .inl ⟨rfl, h.symm⟩
    · rintro (⟨-, rfl⟩ | ⟨negative, x, hspells, -⟩)
      · rfl
      · exact absurd rfl hspells.ne_nil
  · constructor
    · intro h
      obtain ⟨-, hlength, hfinite, -⟩ := finiteToken_iff.mp h
      obtain ⟨negative, x, hspells⟩ := spells_of_strtod hne hlength hfinite
      exact .inr ⟨negative, x, hspells, hspells.finiteToken.mp h⟩
    · rintro (⟨hnil, -⟩ | ⟨negative, x, hspells, h⟩)
      · exact absurd hnil hne
      · exact hspells.finiteToken.mpr h

end Ieee
