import MarketData.Base.Rounding
import MarketData.Readers.Numbers

/-!
# Integers in unsigned fields

An unsigned field is read as a `double` and converted. The check before the conversion compares
with the greatest 64-bit integer as a `double`, which is `2 ^ 64`: an integer that rounds to
`2 ^ 64` passes, and its conversion is undefined. An integer that is no `double` comes back as
the nearest one.
-/

namespace MarketData

open ByteText Cpp Json Ieee

/-- An integer token: digits of a whole number behind an optional minus. -/
def IsInteger (t : Bytes) (z : ℤ) : Prop :=
  ∃ whole, IsWhole whole ∧ (t = whole ∧ z = numeral whole ∨ t = 45 :: whole ∧ z = -numeral whole)

/-- The integer is returned, or the field is rejected. -/
def ExactOrRejected (z : ℤ) (outcome : Checked UInt64) : Prop :=
  (∃ n, outcome = .ok n ∧ (n.toNat : ℤ) = z) ∨ ∃ what, outcome = .error (.exception what)

/-- The integers that are handled exactly: those below zero, the doubles below `2 ^ 64` and those
that round to a number above `2 ^ 64`. -/
def HandledExactly (z : ℤ) : Prop :=
  z < 0 ∨ (z < 2 ^ 64 ∧ nearest z = z) ∨ 2 ^ 64 + 2048 < z

/-- What becomes of an integer in an unsigned field. -/
structure UnsignedOutcome (z : ℤ) (outcome : Checked UInt64) : Prop where
  exact_iff : ExactOrRejected z outcome ↔ HandledExactly z
  undefined_iff : outcome = .error .undefined ↔ 2 ^ 64 - 1024 ≤ z ∧ z ≤ 2 ^ 64 + 2048

/-! ### Tokens -/

/-- An integer token denotes its integer. -/
theorem IsInteger.denotes {t : Bytes} {z : ℤ} (h : IsInteger t z) : Denotes t z := by
  obtain ⟨whole, hw, h⟩ := h
  have hm : magnitude whole [] [] = numeral whole := by simp [magnitude, exponentValue]
  rcases h with ⟨rfl, rfl⟩ | ⟨rfl, rfl⟩
  · exact ⟨[], t, [], [], by simp, .inl rfl, hw, .inl rfl, .inl rfl, by simp [hm]⟩
  · exact ⟨[45], whole, [], [], by simp, .inr rfl, hw, .inl rfl, .inl rfl, by simp [hm]⟩

/-- An integer token has a digit. -/
theorem IsInteger.ne_nil {t : Bytes} {z : ℤ} (h : IsInteger t z) : t ≠ [] := by
  obtain ⟨whole, hw, ⟨rfl, -⟩ | ⟨rfl, -⟩⟩ := h
  · rcases hw with rfl | ⟨b, rest, rfl, -⟩
    · exact List.cons_ne_nil _ _
    · exact List.cons_ne_nil _ _
  · exact List.cons_ne_nil _ _

private theorem inRange_integer {negative : Bool} {z : ℤ} (h : |z| ≤ 2 ^ 65) :
    InRange negative (z : ℚ) := by
  have habs : |(z : ℚ)| ≤ 2 ^ 65 := by exact_mod_cast h
  have hf : (Number.round binary64 negative (z : ℚ)).isFinite = true :=
    Number.isFinite_round_of_le (k := 65) (by decide) habs
  refine ⟨hf, fun hsmall ↦ ?_⟩
  by_cases hz : z = 0
  · rw [hz, Int.cast_zero, Number.toRat_round_zero]
  · have hone : (1 : ℚ) ≤ |(z : ℚ)| := by exact_mod_cast Int.one_le_abs hz
    have hleast : binary64.leastNormal ≤ 1 :=
      leastNormal_le_six_decimals.trans (by norm_num)
    exact absurd hsmall (not_lt.mpr (Number.leastNormal_le_abs_toRat_round hf (hleast.trans hone)))

private theorem finiteToken_integer {t : Bytes} {z : ℤ} (h : IsInteger t z) :
    (∃ y, finiteToken? t = some y ∧ y.isFinite = true ∧ y.toRat = nearest z ∧
      (Number.round binary64 false (z : ℚ)).isFinite = true) ∨
      finiteToken? t = none ∧ 2 ^ 65 < |z| := by
  obtain ⟨negative, hspells⟩ := h.denotes.spells
  cases hy : finiteToken? t with
  | some y =>
    obtain ⟨hrange, hround⟩ := hspells.finiteToken.mp hy
    have hf : (Number.round binary64 false (z : ℚ)).isFinite = true := by
      rw [Number.isFinite_round]
      exact (Number.isFinite_round _ _).mp hrange.1
    exact .inl ⟨y, rfl, by rw [hround]; exact hrange.1, toRat_finiteToken h.denotes hy, hf⟩
  | none =>
    refine .inr ⟨rfl, ?_⟩
    by_contra hle
    rw [hspells.finiteToken.mpr ⟨inRange_integer (not_lt.mp hle), rfl⟩] at hy
    cases hy

/-! ### Rounding near `2 ^ 64` -/

private theorem nearest_mono {m n : ℕ} (h : m ≤ n)
    (hn : (Number.round binary64 false (n : ℚ)).isFinite = true) :
    nearest m ≤ nearest n :=
  Number.toRat_round_mono h hn

private theorem isFinite_of_le {n : ℕ} (h : n ≤ 2 ^ 65) :
    (Number.round binary64 false (n : ℚ)).isFinite = true := by
  apply Number.isFinite_round_of_le (k := 65) (by decide)
  rw [Nat.abs_cast]
  exact_mod_cast h

private theorem nearest_cases {n : ℕ} (hn : (Number.round binary64 false (n : ℚ)).isFinite = true) :
    ∃ k : ℕ, nearest n = k ∧ (k < 2 ^ 64 ↔ n < 2 ^ 64 - 1024) ∧
      (2 ^ 64 < k ↔ 2 ^ 64 + 2048 < n) := by
  obtain ⟨k, hk⟩ := Number.exists_toRat_round (by decide) hn
  have hk : nearest n = k := hk
  refine ⟨k, hk, ?_, ?_⟩
  · constructor
    · intro hlt
      by_contra hle
      have hmono := nearest_mono (not_lt.mp hle) hn
      have htop : nearest ((2 ^ 64 - 1024 : ℕ) : ℚ) = (2 ^ 64 : ℕ) := by decide +kernel
      rw [htop, hk] at hmono
      have : 2 ^ 64 ≤ k := by exact_mod_cast hmono
      omega
    · intro hlt
      have hmono := nearest_mono (Nat.le_pred_of_lt hlt) (isFinite_of_le (by decide))
      have hbelow : nearest ((2 ^ 64 - 1024 - 1 : ℕ) : ℚ) = (2 ^ 64 - 2048 : ℕ) := by
        decide +kernel
      rw [Nat.pred_eq_sub_one, hbelow, hk] at hmono
      have : k ≤ 2 ^ 64 - 2048 := by exact_mod_cast hmono
      omega
  · constructor
    · intro hlt
      by_contra hle
      have hmono := nearest_mono (not_lt.mp hle) (isFinite_of_le (by decide))
      have htop : nearest ((2 ^ 64 + 2048 : ℕ) : ℚ) = (2 ^ 64 : ℕ) := by decide +kernel
      rw [htop, hk] at hmono
      have : k ≤ 2 ^ 64 := by exact_mod_cast hmono
      omega
    · intro hlt
      have hmono := nearest_mono (Nat.succ_le_of_lt hlt) hn
      have habove : nearest ((2 ^ 64 + 2048 + 1 : ℕ) : ℚ) = (2 ^ 64 + 4096 : ℕ) := by
        decide +kernel
      rw [Nat.succ_eq_add_one, habove, hk] at hmono
      have : 2 ^ 64 + 4096 ≤ k := by exact_mod_cast hmono
      omega

/-! ### Unsigned fields -/

private theorem UnsignedOutcome.rejected {z : ℤ} (what : Bytes) (h : z < 0 ∨ 2 ^ 64 + 2048 < z) :
    UnsignedOutcome z (.error (.exception what)) where
  exact_iff := iff_of_true (.inr ⟨what, rfl⟩) (h.imp_right .inr)
  undefined_iff := iff_of_false nofun (by omega)

private theorem nearest_neg {n : ℕ} (h : 0 < n)
    (hf : (Number.round binary64 false (n : ℚ)).isFinite = true) : nearest (-n) < 0 := by
  have hone : nearest ((1 : ℕ) : ℚ) = 1 := by decide +kernel
  have hmono := nearest_mono h hf
  rw [Nat.succ_eq_add_one, hone] at hmono
  have hneg : nearest (-n) = -nearest n := Number.toRat_round_neg false false n
  rw [hneg]
  exact neg_neg_of_pos (lt_of_lt_of_le one_pos hmono)

private theorem UnsignedOutcome.of_nat {n : ℕ} {y : Double} (field : Bytes)
    (hy : y.isFinite = true) (hvalue : y.toRat = nearest n)
    (hf : (Number.round binary64 false (n : ℚ)).isFinite = true) :
    UnsignedOutcome n (unsignedOf field y) := by
  obtain ⟨k, hk, hbelow, habove⟩ := nearest_cases hf
  rw [unsignedOf_of_nat field hy (hvalue.trans hk)]
  by_cases hlarge : 2 ^ 64 < k
  · rw [if_pos hlarge]
    have := habove.mp hlarge
    exact .rejected _ (.inr (by omega))
  have hle : ¬ (2 ^ 64 + 2048 < (n : ℤ)) := by
    have := mt habove.mpr hlarge
    omega
  rw [if_neg hlarge]
  by_cases hsmall : k < 2 ^ 64
  · have hn := hbelow.mp hsmall
    have hnat : (UInt64.ofNat k).toNat = k := by rw [UInt64.toNat_ofNat', Nat.mod_eq_of_lt hsmall]
    have hexact : nearest ((n : ℤ) : ℚ) = ((n : ℤ) : ℚ) ↔ k = n := by
      rw [Int.cast_natCast, hk, Nat.cast_inj]
    rw [if_pos hsmall]
    refine ⟨?_, iff_of_false nofun (by omega)⟩
    rw [HandledExactly, hexact]
    constructor
    · rintro (⟨m, hm, hz⟩ | ⟨what, hwhat⟩)
      · rw [← Except.ok.inj hm, hnat] at hz
        exact .inr (.inl ⟨by omega, by omega⟩)
      · cases hwhat
    · rintro (hz | ⟨-, hz⟩ | hz)
      · omega
      · exact .inl ⟨_, rfl, by rw [hnat, hz]⟩
      · omega
  · -- what rounds to `2 ^ 64` passes the check, but its conversion is undefined
    have hn := mt hbelow.mpr hsmall
    rw [if_neg hsmall]
    refine ⟨iff_of_false ?_ ?_, iff_of_true rfl (by omega)⟩
    · rintro (⟨m, hm, -⟩ | ⟨what, hwhat⟩)
      · cases hm
      · cases hwhat
    · rintro (hz | ⟨hz, hexact⟩ | hz)
      · omega
      · rw [Int.cast_natCast, hk, Nat.cast_inj] at hexact
        omega
      · omega

private theorem UnsignedOutcome.of_token {t : Bytes} {z : ℤ} {number : Checked Double}
    (field : Bytes) (ht : IsInteger t z) (hd : Defined number)
    (hnumber : ∀ y, number = .ok y ↔ finiteToken? t = some y) :
    UnsignedOutcome z (number >>= unsignedOf field) := by
  rcases finiteToken_integer ht with ⟨y, hy, hyf, hvalue, hf⟩ | ⟨hnone, hlarge⟩
  · rw [(hnumber y).mpr hy, ok_bind]
    rcases lt_or_ge z 0 with hneg | hpos
    · obtain ⟨n, rfl⟩ := Int.exists_eq_neg_ofNat hneg.le
      have hn : 0 < n := by omega
      rw [Int.cast_neg, Int.cast_natCast] at hvalue hf
      have hfn : (Number.round binary64 false (n : ℚ)).isFinite = true := by
        rw [Number.isFinite_round] at hf ⊢
        rwa [abs_neg] at hf
      rw [unsignedOf_of_neg field hyf (by rw [hvalue]; exact nearest_neg hn hfn)]
      exact .rejected _ (.inl hneg)
    · obtain ⟨n, rfl⟩ := Int.eq_ofNat_of_zero_le hpos
      rw [Int.cast_natCast] at hvalue hf
      exact .of_nat field hyf hvalue hf
  · obtain ⟨what, hthrow⟩ := hd.throws fun y hy ↦ by
      rw [(hnumber y).mp hy] at hnone
      cases hnone
    rw [hthrow, error_bind]
    apply UnsignedOutcome.rejected
    rcases abs_cases z with ⟨habs, -⟩ | ⟨-, hneg⟩
    · omega
    · exact .inl hneg

/-- Both readers return the integer of a token in an unsigned field, or reject it, exactly when the
integer is handled exactly; they convert out of range exactly when it rounds to `2 ^ 64`. -/
theorem unsigned_fields_exact_iff {t : Bytes} {z : ℤ} (ht : IsInteger t z) :
    (∀ document key position, Exporter.findValue document key = some position →
      scalarToken document position = t →
        UnsignedOutcome z (Exporter.unsignedValue document key)) ∧
      ∀ text position field, scalarToken text position = t →
        UnsignedOutcome z (Comparator.exactUnsigned text position field) := by
  constructor
  · intro document key position hfound htoken
    rw [Exporter.unsignedValue, Exporter.numberValue, Exporter.requiredValue, hfound]
    refine .of_token key ht (Exporter.defined_numberAt document position) fun y ↦ ?_
    rw [← htoken]
    exact Exporter.numberAt_eq_ok (Exporter.findValue_le hfound)
  · intro text position field htoken
    refine .of_token field ht (Comparator.defined_numberAt text position) fun y ↦ ?_
    rw [Comparator.numberAt_eq_ok, htoken]
    exact and_iff_right ht.ne_nil

/-- A small integer in a document. -/
theorem unsigned_fields_exact_small :
    UnsignedOutcome 5 (Exporter.unsignedValue (ascii "\x7b\"n\": 5\x7d") (ascii "n")) ∧
      UnsignedOutcome 5 (Comparator.exactUnsigned (ascii "\x7b\"n\": 5\x7d") 5 (ascii "n")) :=
  have h := unsigned_fields_exact_iff (t := ascii "5") (z := 5)
    ⟨ascii "5", .inr ⟨53, [], rfl, by decide, by decide⟩, .inl ⟨rfl, by decide⟩⟩
  ⟨h.1 _ _ 6 (by decide +kernel) (by decide +kernel), h.2 _ 5 _ (by decide +kernel)⟩

/-- An integer beyond `2 ^ 53` comes back as another one, and the conversion of the greatest 64-bit
integer is undefined. -/
theorem integers_inexact :
    (IsInteger (ascii "9007199254740993") 9007199254740993 ∧
      Exporter.unsignedValue (ascii "\x7b\"n\":9007199254740993\x7d") (ascii "n") =
        .ok 9007199254740992 ∧
      Comparator.exactUnsigned (ascii "\x7b\"n\":9007199254740993\x7d") 5 (ascii "n") =
        .ok 9007199254740992 ∧
      ¬ ExactOrRejected 9007199254740993 (.ok 9007199254740992)) ∧
    IsInteger (ascii "18446744073709551615") 18446744073709551615 ∧
      Exporter.unsignedValue (ascii "\x7b\"n\":18446744073709551615\x7d") (ascii "n") =
        .error .undefined ∧
      Comparator.exactUnsigned (ascii "\x7b\"n\":18446744073709551615\x7d") 5 (ascii "n") =
        .error .undefined ∧
      ¬ ExactOrRejected 18446744073709551615 (.error .undefined) := by
  refine ⟨⟨⟨_, .inr ⟨57, _, rfl, by decide, by decide⟩, .inl ⟨rfl, by decide⟩⟩, by decide +kernel,
    by decide +kernel, ?_⟩, ⟨_, .inr ⟨49, _, rfl, by decide, by decide⟩, .inl ⟨rfl, by decide⟩⟩,
    by decide +kernel, by decide +kernel, ?_⟩
  · rintro (⟨n, hn, hz⟩ | ⟨what, hwhat⟩)
    · rw [← Except.ok.inj hn] at hz
      exact absurd hz (by decide)
    · cases hwhat
  · rintro (⟨n, hn, -⟩ | ⟨what, hwhat⟩)
    · cases hn
    · cases hwhat

end MarketData
