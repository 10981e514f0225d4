import MarketData.Comparator.Gate
import MarketData.Comparator.Defined
import MarketData.Exporter.Defined
import MarketData.Exporter.Metrics
import MarketData.Json.Numbers

/-!
# The numbers that the two readers return

Both readers give a scalar token to `strtod` and ask that it is taken as a whole. `strtod`
takes more than the numbers of JSON: blanks, a plus sign, leading zeros, a point without
digits on one side and hexadecimal magnitudes. It also takes all of an empty token, for
zero, and only the comparator makes sure that a token is not empty.
-/

namespace MarketData

open ByteText Cpp Json Ieee

/-- The scalar token at a position: behind the whitespace, up to the next delimiter. -/
def scalarToken (text : Bytes) (position : Nat) : Bytes :=
  (text.drop (skipWhile isSpace text position)).takeWhile (fun b ↦ !isDelimiter b)

/-- A numeral of a number in range that JSON does not have. -/
def ForeignNumeral (token : Bytes) : Prop :=
  ¬ IsNumber token ∧ ∃ negative x, Spells token negative x ∧ InRange negative x

/-- A foreign numeral that rounds to a 64-bit integer. -/
def ForeignUnsigned (token : Bytes) : Prop :=
  ¬ IsNumber token ∧ ∃ (negative : Bool) (x : ℚ) (n : UInt64),
    Spells token negative x ∧ InRange negative x ∧ nearest x = n.toNat

/-- A token from which the exporter makes a number up. -/
def Invented (token : Bytes) : Prop := token = [] ∨ ForeignNumeral token

/-! ### One field -/

private theorem take_token {text : Bytes} (start : Nat) :
    (text.drop start).take (skipWhile (fun b ↦ !isDelimiter b) text start - start) =
      (text.drop start).takeWhile (fun b ↦ !isDelimiter b) := by
  rw [skipWhile, Nat.add_sub_cancel_left]
  exact (List.prefix_iff_eq_take.mp (List.takeWhile_prefix _)).symm

private theorem finite_or_error {token : Option Double} {e : Failure} {x : Double} :
    (match token with
      | some value => (pure value : Checked Double)
      | none => .error e) = .ok x ↔ token = some x := by
  cases token with
  | none => exact iff_of_false nofun nofun
  | some value => simp [pure, Except.pure]

/-- The exporter reads the token at a position. -/
theorem Exporter.numberAt_eq_ok {document : Bytes} {position : Nat} {x : Double}
    (h : position ≤ document.length) :
    Exporter.numberAt document position = .ok x ↔
      finiteToken? (scalarToken document position) = some x := by
  have hstart : Exporter.skipSpace document position ≤ document.length := skipWhile_le h
  have htoken : substr document (Exporter.skipSpace document position)
      (Exporter.scalarEnd document (Exporter.skipSpace document position) -
        Exporter.skipSpace document position) = .ok (scalarToken document position) := by
    rw [substr, substr?, if_neg (Nat.not_lt.mpr hstart), Exporter.scalarEnd, take_token]
    rfl
  rw [Exporter.numberAt]
  simp only [htoken, ok_bind]
  exact finite_or_error

private theorem findValueLoop_le {document needle rest : Bytes} {cursor searchFrom p : Nat}
    (h : Exporter.findValueLoop document needle rest cursor searchFrom = some p) :
    p ≤ document.length := by
  induction rest generalizing cursor searchFrom with
  | nil => cases h
  | cons c rest ih =>
    simp only [Exporter.findValueLoop] at h
    split at h
    · split at h
      · exact ih h
      split at h
      · next hcolon =>
        obtain ⟨hlt, -⟩ := List.getElem?_eq_some_iff.mp hcolon
        rw [← Option.some.inj h]
        exact skipWhile_le hlt
      · exact ih h
    · exact ih h

/-- A value is found inside the document. -/
theorem Exporter.findValue_le {document key : Bytes} {p : Nat}
    (h : Exporter.findValue document key = some p) : p ≤ document.length :=
  findValueLoop_le h

private theorem finiteToken_quote {b : UInt8} (h : b = quote ∨ b = openBrace ∨ b = openBracket)
    (rest : Bytes) : finiteToken? (b :: rest) = none := by
  rcases h with rfl | rfl | rfl <;> exact finiteToken_other (by decide) rest

/-- The comparator reads the token at a position if it is not empty. -/
theorem Comparator.numberAt_eq_ok {text : Bytes} {position : Nat} {x : Double} :
    Comparator.numberAt text position = .ok x ↔
      scalarToken text position ≠ [] ∧ finiteToken? (scalarToken text position) = some x := by
  have hskip : Comparator.skipSpace text (Comparator.skipSpace text position) =
      Comparator.skipSpace text position := skipWhile_skipWhile _ _ _
  have htoken : scalarToken text position =
      (text.drop (Comparator.skipSpace text position)).takeWhile (fun b ↦ !isDelimiter b) := rfl
  rw [htoken]
  simp only [Comparator.numberAt]
  generalize Comparator.skipSpace text position = start at hskip
  rw [bind_eq_ok]
  refine (exists_congr fun _ ↦ and_congr_right fun _ ↦ finite_or_error).trans ?_
  cases hat : text.drop start with
  | nil =>
    have hnone : text[start]? = none := by rw [← List.head?_drop, hat, List.head?_nil]
    refine iff_of_false ?_ fun h ↦ h.1 rfl
    rintro ⟨last, hlast, -⟩
    rw [Comparator.skipValue] at hlast
    simp only [hskip, hnone] at hlast
    cases hlast
  | cons c rest =>
    have hsome : text[start]? = some c := by rw [← List.head?_drop, hat, List.head?_cons]
    by_cases hopens : c = quote ∨ c = openBrace ∨ c = openBracket
    · -- a string or a container starts no numeral, wherever it ends
      have hdelimiter : isDelimiter c = false := by
        rcases hopens with rfl | rfl | rfl <;> decide
      refine iff_of_false ?_ ?_
      · rintro ⟨last, hlast, hx⟩
        have hlt := Comparator.lt_skipValue hlast
        obtain ⟨k, hk⟩ : ∃ k, last - start = k + 1 := ⟨last - start - 1, by omega⟩
        rw [hk, List.take_succ_cons, finiteToken_quote hopens] at hx
        cases hx
      · rw [List.takeWhile_cons_of_pos (by simp [hdelimiter]), finiteToken_quote hopens]
        rintro ⟨-, hnone⟩
        cases hnone
    · rw [not_or] at hopens
      have hlast : ∀ last, Comparator.skipValue text start = .ok last ↔
          skipWhile (fun b ↦ !isDelimiter b) text start = last ∧ last ≠ start := by
        intro last
        rw [Comparator.skipValue]
        simp only [hskip, hsome, hopens, if_false]
        split
        · next h =>
          constructor
          · intro hthrow
            cases hthrow
          · rintro ⟨hend, hne⟩
            exact absurd (hend.symm.trans h) hne
        · next h =>
          rw [Except.ok.injEq]
          exact ⟨fun h' ↦ ⟨h', h' ▸ h⟩, fun h' ↦ h'.1⟩
      have hempty : (c :: rest).takeWhile (fun b ↦ !isDelimiter b) ≠ [] ↔
          skipWhile (fun b ↦ !isDelimiter b) text start ≠ start := by
        rw [skipWhile, hat, ← List.length_pos_iff]
        omega
      have htake := @take_token text start
      rw [hat] at htake
      rw [hempty]
      constructor
      · rintro ⟨last, h, hx⟩
        obtain ⟨rfl, hne⟩ := (hlast last).mp h
        exact ⟨hne, htake ▸ hx⟩
      · rintro ⟨hne, hx⟩
        exact ⟨_, (hlast _).mpr ⟨rfl, hne⟩, htake.symm ▸ hx⟩

/-! ### The numbers of a snapshot -/

namespace Exporter

/-- The token of a field. -/
def tokenOf (document key : Bytes) : Option Bytes :=
  (findValue document key).map (scalarToken document)

/-- The numbers of a distribution. -/
def distributionNumbers : List Bytes :=
  [ascii "samples", ascii "mean", ascii "min", ascii "p50", ascii "p90", ascii "p95", ascii "p99",
    ascii "max", ascii "stddev"]

/-- The numbers of a document outside its objects. -/
def rootNumbers : List Bytes :=
  [ascii "schema_version", ascii "samples", ascii "input_size", ascii "batch_size",
    ascii "throughput_ips", ascii "throughput_samples_per_second"]

/-- The tokens that `parse_snapshot` reads as numbers. -/
inductive SnapshotToken (document : Bytes) : Bytes → Prop where
  | root {key t : Bytes} (hkey : key ∈ rootNumbers) (ht : tokenOf document key = some t) :
      SnapshotToken document t
  | endToEnd {latency object key t : Bytes}
      (hlatency : objectValue document (ascii "latency_us") = .ok latency)
      (hobject : objectValue latency (ascii "end_to_end") = .ok object)
      (hkey : key ∈ distributionNumbers) (ht : tokenOf object key = some t) :
      SnapshotToken document t
  | deviceCompute {latency object key t : Bytes} {position : Nat}
      (hlatency : objectValue document (ascii "latency_us") = .ok latency)
      (hfound : findValue latency (ascii "device_compute") = some position)
      (hnull : isNull latency position = .ok false)
      (hobject : objectAt latency position = .ok object)
      (hkey : key ∈ distributionNumbers) (ht : tokenOf object key = some t) :
      SnapshotToken document t
  | validation {object t : Bytes} {position : Nat}
      (hfound : findValue document (ascii "validation") = some position)
      (hnull : isNull document position = .ok false)
      (hobject : objectAt document position = .ok object)
      (ht : tokenOf object (ascii "checked_elements") = some t) : SnapshotToken document t
  | slo {object key : Bytes} {position : Nat}
      (hobject : objectValue document (ascii "slo") = .ok object)
      (hkey : key ∈ [ascii "target_us", ascii "observed_p99_us"])
      (hfound : findValue object key = some position)
      (hnull : isNull object position = .ok false) :
      SnapshotToken document (scalarToken object position)

private theorem requiredValue_eq_ok {document key : Bytes} {p : Nat} :
    requiredValue document key = .ok p ↔ findValue document key = some p := by
  unfold requiredValue
  cases findValue document key <;> simp

/-- A number is read from the token of its field. -/
theorem numberValue_eq_ok {document key : Bytes} {x : Double} :
    numberValue document key = .ok x ↔
      ∃ t, tokenOf document key = some t ∧ finiteToken? t = some x := by
  rw [numberValue, bind_eq_ok]
  constructor
  · rintro ⟨p, hp, hx⟩
    have hfound := requiredValue_eq_ok.mp hp
    exact ⟨_, by rw [tokenOf, hfound, Option.map_some],
      (numberAt_eq_ok (findValue_le hfound)).mp hx⟩
  · rintro ⟨t, ht, hx⟩
    obtain ⟨p, hfound, rfl⟩ := Option.map_eq_some_iff.mp ht
    exact ⟨p, requiredValue_eq_ok.mpr hfound, (numberAt_eq_ok (findValue_le hfound)).mpr hx⟩

private theorem token_of_number {document key t : Bytes} {x : Double}
    (h : numberValue document key = .ok x) (ht : tokenOf document key = some t) :
    ∃ x, finiteToken? t = some x := by
  obtain ⟨t', ht', hx⟩ := numberValue_eq_ok.mp h
  obtain rfl := Option.some.inj (ht.symm.trans ht')
  exact ⟨x, hx⟩

private theorem token_of_unsigned {document key t : Bytes} {n : UInt64}
    (h : unsignedValue document key = .ok n) (ht : tokenOf document key = some t) :
    ∃ x, finiteToken? t = some x := by
  obtain ⟨x, hx, -⟩ := bind_eq_ok.mp h
  exact token_of_number hx ht

private theorem token_of_distribution {object key t : Bytes} {d : Distribution}
    (h : parseDistribution object = .ok d) (hkey : key ∈ distributionNumbers)
    (ht : tokenOf object key = some t) : ∃ x, finiteToken? t = some x := by
  obtain ⟨_, hsamples, h⟩ := bind_eq_ok.mp h
  obtain ⟨_, hmean, h⟩ := bind_eq_ok.mp h
  obtain ⟨_, hmin, h⟩ := bind_eq_ok.mp h
  obtain ⟨_, hp50, h⟩ := bind_eq_ok.mp h
  obtain ⟨_, hp90, h⟩ := bind_eq_ok.mp h
  obtain ⟨_, hp95, h⟩ := bind_eq_ok.mp h
  obtain ⟨_, hp99, h⟩ := bind_eq_ok.mp h
  obtain ⟨_, hmax, h⟩ := bind_eq_ok.mp h
  obtain ⟨_, hstddev, -⟩ := bind_eq_ok.mp h
  simp only [distributionNumbers, List.mem_cons, List.not_mem_nil, or_false] at hkey
  rcases hkey with rfl | rfl | rfl | rfl | rfl | rfl | rfl | rfl | rfl
  · exact token_of_unsigned hsamples ht
  · exact token_of_number hmean ht
  · exact token_of_number hmin ht
  · exact token_of_number hp50 ht
  · exact token_of_number hp90 ht
  · exact token_of_number hp95 ht
  · exact token_of_number hp99 ht
  · exact token_of_number hmax ht
  · exact token_of_number hstddev ht

private theorem token_of_optional {object key : Bytes} {position : Nat} {x : Option Double}
    (h : optionalNumberValue object key = .ok x) (hfound : findValue object key = some position)
    (hnull : isNull object position = .ok false) :
    ∃ x, finiteToken? (scalarToken object position) = some x := by
  rw [optionalNumberValue, hfound] at h
  simp only [hnull, ok_bind, Bool.false_eq_true, if_false] at h
  obtain ⟨y, hy, -⟩ := bind_eq_ok.mp h
  exact ⟨y, (numberAt_eq_ok (findValue_le hfound)).mp hy⟩

private theorem token_of_device {latency object key t : Bytes} {position : Nat}
    {d : Option Distribution} (h : parseDeviceCompute latency = .ok d)
    (hfound : findValue latency (ascii "device_compute") = some position)
    (hnull : isNull latency position = .ok false) (hobject : objectAt latency position = .ok object)
    (hkey : key ∈ distributionNumbers) (ht : tokenOf object key = some t) :
    ∃ x, finiteToken? t = some x := by
  rw [parseDeviceCompute, requiredValue_eq_ok.mpr hfound, ok_bind, hnull, ok_bind, if_neg nofun,
    hobject, ok_bind] at h
  obtain ⟨d, hd, -⟩ := bind_eq_ok.mp h
  exact token_of_distribution hd hkey ht

private theorem token_of_validation {document object t : Bytes} {position : Nat}
    {v : Option Bool × Option UInt64} (h : parseValidation document = .ok v)
    (hfound : findValue document (ascii "validation") = some position)
    (hnull : isNull document position = .ok false)
    (hobject : objectAt document position = .ok object)
    (ht : tokenOf object (ascii "checked_elements") = some t) : ∃ x, finiteToken? t = some x := by
  rw [parseValidation, requiredValue_eq_ok.mpr hfound, ok_bind, hnull, ok_bind, if_neg nofun,
    hobject, ok_bind] at h
  obtain ⟨passed, -, h⟩ := bind_eq_ok.mp h
  obtain ⟨p, hp, -⟩ := Option.map_eq_some_iff.mp ht
  simp only [hp] at h
  obtain ⟨n, hn, -⟩ := bind_eq_ok.mp h
  exact token_of_unsigned hn ht

/-- Every token that an accepted document is read for has a value. -/
theorem finiteToken_of_snapshot {document t : Bytes} {s : Snapshot}
    (h : parseSnapshot document = .ok s) (ht : SnapshotToken document t) :
    ∃ x, finiteToken? t = some x := by
  obtain ⟨_, hschema, h⟩ := bind_eq_ok.mp h
  obtain ⟨_, -, h⟩ := bind_eq_ok.mp h
  obtain ⟨_, -, h⟩ := bind_eq_ok.mp h
  obtain ⟨_, -, h⟩ := bind_eq_ok.mp h
  obtain ⟨latency, hlatency, h⟩ := bind_eq_ok.mp h
  obtain ⟨object, hobject, h⟩ := bind_eq_ok.mp h
  obtain ⟨_, hdevice, h⟩ := bind_eq_ok.mp h
  obtain ⟨_, hvalidation, h⟩ := bind_eq_ok.mp h
  obtain ⟨slo, hslo, h⟩ := bind_eq_ok.mp h
  obtain ⟨_, -, h⟩ := bind_eq_ok.mp h
  -- the six strings, then the fields of the snapshot in their order
  obtain ⟨_, -, h⟩ := bind_eq_ok.mp h
  obtain ⟨_, -, h⟩ := bind_eq_ok.mp h
  obtain ⟨_, -, h⟩ := bind_eq_ok.mp h
  obtain ⟨_, -, h⟩ := bind_eq_ok.mp h
  obtain ⟨_, -, h⟩ := bind_eq_ok.mp h
  obtain ⟨_, -, h⟩ := bind_eq_ok.mp h
  obtain ⟨_, hsamples, h⟩ := bind_eq_ok.mp h
  obtain ⟨_, hinputSize, h⟩ := bind_eq_ok.mp h
  obtain ⟨_, hbatchSize, h⟩ := bind_eq_ok.mp h
  obtain ⟨_, -, h⟩ := bind_eq_ok.mp h
  obtain ⟨_, -, h⟩ := bind_eq_ok.mp h
  obtain ⟨_, hips, h⟩ := bind_eq_ok.mp h
  obtain ⟨_, hsps, h⟩ := bind_eq_ok.mp h
  obtain ⟨_, hendToEnd, h⟩ := bind_eq_ok.mp h
  obtain ⟨_, -, h⟩ := bind_eq_ok.mp h
  obtain ⟨_, htarget, h⟩ := bind_eq_ok.mp h
  obtain ⟨_, hobserved, -⟩ := bind_eq_ok.mp h
  cases ht with
  | root hkey ht =>
    simp only [rootNumbers, List.mem_cons, List.not_mem_nil, or_false] at hkey
    rcases hkey with rfl | rfl | rfl | rfl | rfl | rfl
    · exact token_of_unsigned hschema ht
    · exact token_of_unsigned hsamples ht
    · exact token_of_unsigned hinputSize ht
    · exact token_of_unsigned hbatchSize ht
    · exact token_of_number hips ht
    · exact token_of_number hsps ht
  | endToEnd hlatency' hobject' hkey ht =>
    obtain rfl := Except.ok.inj (hlatency.symm.trans hlatency')
    obtain rfl := Except.ok.inj (hobject.symm.trans hobject')
    exact token_of_distribution hendToEnd hkey ht
  | deviceCompute hlatency' hfound hnull hobject hkey ht =>
    obtain rfl := Except.ok.inj (hlatency.symm.trans hlatency')
    exact token_of_device hdevice hfound hnull hobject hkey ht
  | validation hfound hnull hobject ht =>
    exact token_of_validation hvalidation hfound hnull hobject ht
  | slo hslo' hkey hfound hnull =>
    obtain rfl := Except.ok.inj (hslo.symm.trans hslo')
    simp only [List.mem_cons, List.not_mem_nil, or_false] at hkey
    rcases hkey with rfl | rfl
    · exact token_of_optional htarget hfound hnull
    · exact token_of_optional hobserved hfound hnull

end Exporter

/-! ### Numbers that the token does not hold -/

private theorem not_isNumber_nil : ¬ IsNumber [] := by
  rintro ⟨sign, whole, fraction, exponent, h, -, hw, -⟩
  simp only [List.nil_eq, List.append_eq_nil_iff] at h
  rcases hw with rfl | ⟨b, rest, rfl, -⟩
  · exact absurd h.1.1.2 (by simp)
  · exact absurd h.1.1.2 (by simp)

private theorem not_foreign_nil : ¬ ForeignNumeral [] := by
  rintro ⟨-, negative, x, hspells, -⟩
  exact hspells.ne_nil rfl

private theorem isNumber_iff_of_value {t : Bytes} {y : Double} (h : finiteToken? t = some y) :
    IsNumber t ↔ ¬ Invented t := by
  constructor
  · rintro hn (rfl | ⟨hforeign, -⟩)
    · exact not_isNumber_nil hn
    · exact hforeign hn
  · intro hinvented
    rcases finiteToken_eq_some.mp h with ⟨hnil, -⟩ | ⟨negative, x, hspells, hrange, -⟩
    · exact absurd (.inl hnil) hinvented
    · by_contra hn
      exact hinvented (.inr ⟨hn, negative, x, hspells, hrange⟩)

private theorem exists_value_of_invented {t : Bytes} (h : Invented t) :
    ∃ y, finiteToken? t = some y := by
  rcases h with rfl | ⟨-, negative, x, hspells, hrange⟩
  · exact ⟨.zero, finiteToken_eq_some.mpr (.inl ⟨rfl, rfl⟩)⟩
  · exact ⟨_, finiteToken_eq_some.mpr (.inr ⟨negative, x, hspells, hrange, rfl⟩)⟩

private theorem value_number_iff {t : Bytes} :
    (∀ y, finiteToken? t = some y → IsNumber t) ↔ ¬ Invented t := by
  constructor
  · intro h hinvented
    obtain ⟨y, hy⟩ := exists_value_of_invented hinvented
    exact (isNumber_iff_of_value hy).mp (h y hy) hinvented
  · exact fun h y hy ↦ (isNumber_iff_of_value hy).mpr h

private theorem exists_unsignedOf {y : Double} (field : Bytes) (hf : y.isFinite = true)
    {n : UInt64} (hn : y.toRat = n.toNat) : unsignedOf field y = .ok n := by
  rw [unsignedOf_of_nat field hf hn, if_neg n.toNat_lt.not_gt, if_pos n.toNat_lt,
    UInt64.ofNat_toNat]

private theorem unsignedValue_eq_ok {document key : Bytes} {n : UInt64} :
    Exporter.unsignedValue document key = .ok n ↔ ∃ t, Exporter.tokenOf document key = some t ∧
      ∃ y, finiteToken? t = some y ∧ unsignedOf key y = .ok n := by
  rw [Exporter.unsignedValue, bind_eq_ok]
  constructor
  · rintro ⟨y, hy, hn⟩
    obtain ⟨t, ht, hy⟩ := Exporter.numberValue_eq_ok.mp hy
    exact ⟨t, ht, y, hy, hn⟩
  · rintro ⟨t, ht, y, hy, hn⟩
    exact ⟨y, Exporter.numberValue_eq_ok.mpr ⟨t, ht, hy⟩, hn⟩

private theorem numberValue_number_iff (document key : Bytes) :
    (∀ x, Exporter.numberValue document key = .ok x →
      ∃ t, Exporter.tokenOf document key = some t ∧ IsNumber t) ↔
        ∀ t, Exporter.tokenOf document key = some t → ¬ Invented t := by
  constructor
  · intro h t ht
    rw [← value_number_iff]
    intro y hy
    obtain ⟨t', ht', hn⟩ := h y (Exporter.numberValue_eq_ok.mpr ⟨t, ht, hy⟩)
    obtain rfl := Option.some.inj (ht.symm.trans ht')
    exact hn
  · intro h x hx
    obtain ⟨t, ht, hy⟩ := Exporter.numberValue_eq_ok.mp hx
    exact ⟨t, ht, value_number_iff.mpr (h t ht) x hy⟩

private theorem unsignedValue_number_iff (document key : Bytes) :
    (∀ n, Exporter.unsignedValue document key = .ok n →
      ∃ t, Exporter.tokenOf document key = some t ∧ IsNumber t) ↔
        ∀ t, Exporter.tokenOf document key = some t → ¬ (t = [] ∨ ForeignUnsigned t) := by
  constructor
  · intro h t ht hinvented
    obtain ⟨y, n, hy, hf, hn⟩ : ∃ (y : Double) (n : UInt64), finiteToken? t = some y ∧
        y.isFinite = true ∧ y.toRat = n.toNat := by
      rcases hinvented with rfl | ⟨hforeign, negative, x, n, hspells, hrange, hn⟩
      · exact ⟨.zero, 0, finiteToken_eq_some.mpr (.inl ⟨rfl, rfl⟩), Number.isFinite_zero,
          by rw [Number.toRat_zero]; rfl⟩
      · obtain ⟨y, hy⟩ := exists_value_of_invented (.inr ⟨hforeign, negative, x, hspells, hrange⟩)
        obtain ⟨-, hround⟩ := hspells.finiteToken.mp hy
        refine ⟨y, n, hy, by rw [hround]; exact hrange.1, ?_⟩
        rw [hround, Number.toRat_round_sign negative false]
        exact hn
    obtain ⟨t', ht', hnumber⟩ := h n (unsignedValue_eq_ok.mpr
      ⟨t, ht, y, hy, exists_unsignedOf key hf hn⟩)
    obtain rfl := Option.some.inj (ht.symm.trans ht')
    rcases hinvented with rfl | ⟨hforeign, -⟩
    · exact not_isNumber_nil hnumber
    · exact hforeign hnumber
  · intro h n hn
    obtain ⟨t, ht, y, hy, hn⟩ := unsignedValue_eq_ok.mp hn
    refine ⟨t, ht, ?_⟩
    by_contra hnumber
    rcases finiteToken_eq_some.mp hy with ⟨hnil, -⟩ | ⟨negative, x, hspells, hrange, hround⟩
    · exact h t ht (.inl hnil)
    · refine h t ht (.inr ⟨hnumber, negative, x, n, hspells, hrange, ?_⟩)
      rw [unsignedOf_eq_ok hn, hround]
      exact Number.toRat_round_sign false negative x

private theorem comparator_number_iff (text : Bytes) (position : Nat) :
    (∀ x, Comparator.numberAt text position = .ok x → IsNumber (scalarToken text position)) ↔
      ¬ ForeignNumeral (scalarToken text position) := by
  simp only [Comparator.numberAt_eq_ok]
  generalize scalarToken text position = t
  by_cases hnil : t = []
  · subst hnil
    exact iff_of_true (fun _ h ↦ absurd rfl h.1) not_foreign_nil
  · have hinvented : Invented t ↔ ForeignNumeral t := or_iff_right hnil
    rw [← hinvented, ← value_number_iff]
    exact forall_congr' fun y ↦ by rw [and_iff_right hnil]

private theorem parseNonnegative_numeral_iff (text option : Bytes) :
    (∀ x, Comparator.parseNonnegative text option = .ok x → ∃ negative y, Spells text negative y) ↔
      text ≠ [] := by
  constructor
  · rintro h rfl
    have hempty : Comparator.parseNonnegative [] option = .ok .zero := by
      have hzero : (Number.zero : Double).lt .zero = false := by decide +kernel
      rw [Comparator.parseNonnegative, finiteToken_eq_some.mpr (.inl ⟨rfl, rfl⟩)]
      simp only [hzero, Bool.false_eq_true, if_false]
    obtain ⟨negative, y, hspells⟩ := h .zero hempty
    exact hspells.ne_nil rfl
  · intro hne x hx
    rw [Comparator.parseNonnegative] at hx
    split at hx
    · next value hvalue =>
      rcases finiteToken_eq_some.mp hvalue with ⟨hnil, -⟩ | ⟨negative, y, hspells, -⟩
      · exact absurd hnil hne
      · exact ⟨negative, y, hspells⟩
    · cases hx

/-- A number that a reader returns is in the token of its field unless the token is empty, where
the exporter makes up a zero, or a numeral that JSON does not have; an option is a numeral unless it
is empty. -/
theorem numbers_not_invented_iff (document : Bytes) :
    (∀ position ≤ document.length,
      ((∀ x, Exporter.numberAt document position = .ok x →
        IsNumber (scalarToken document position)) ↔ ¬ Invented (scalarToken document position))) ∧
    (∀ key, (∀ x, Exporter.numberValue document key = .ok x →
      ∃ t, Exporter.tokenOf document key = some t ∧ IsNumber t) ↔
        ∀ t, Exporter.tokenOf document key = some t → ¬ Invented t) ∧
    (∀ key, (∀ n, Exporter.unsignedValue document key = .ok n →
      ∃ t, Exporter.tokenOf document key = some t ∧ IsNumber t) ↔
        ∀ t, Exporter.tokenOf document key = some t → ¬ (t = [] ∨ ForeignUnsigned t)) ∧
    (∀ s, Exporter.parseSnapshot document = .ok s →
      ((∀ t, Exporter.SnapshotToken document t → IsNumber t) ↔
        ∀ t, Exporter.SnapshotToken document t → ¬ Invented t)) ∧
    (∀ position, (∀ x, Comparator.numberAt document position = .ok x →
      IsNumber (scalarToken document position)) ↔
        ¬ ForeignNumeral (scalarToken document position)) ∧
    ∀ option, (∀ x, Comparator.parseNonnegative document option = .ok x →
      ∃ negative y, Spells document negative y) ↔ document ≠ [] := by
  refine ⟨fun position hposition ↦ ?_, numberValue_number_iff document,
    unsignedValue_number_iff document, fun s hs ↦ ?_, comparator_number_iff document,
    parseNonnegative_numeral_iff document⟩
  · simp only [Exporter.numberAt_eq_ok hposition]
    exact value_number_iff
  · refine forall_congr' fun t ↦ forall_congr' fun ht ↦ ?_
    obtain ⟨y, hy⟩ := Exporter.finiteToken_of_snapshot hs ht
    exact isNumber_iff_of_value hy

/-- In the document of the short run the schema version is read, and its token is a number exactly
when it is not made up; so it is with all that the exporter reads. -/
theorem numbers_not_invented_sample :
    Exporter.numberAt (formatMetricsJson {} {} sampleStats) 22 = .ok (doubleOf 2) ∧
      ((∀ x, Exporter.numberAt (formatMetricsJson {} {} sampleStats) 22 = .ok x →
        IsNumber (scalarToken (formatMetricsJson {} {} sampleStats) 22)) ↔
          ¬ Invented (scalarToken (formatMetricsJson {} {} sampleStats) 22)) ∧
      ((∀ t, Exporter.SnapshotToken (formatMetricsJson {} {} sampleStats) t → IsNumber t) ↔
        ∀ t, Exporter.SnapshotToken (formatMetricsJson {} {} sampleStats) t → ¬ Invented t) := by
  have h := numbers_not_invented_iff (formatMetricsJson {} {} sampleStats)
  have hposition : 22 ≤ (formatMetricsJson {} {} sampleStats).length := by decide +kernel
  exact ⟨by decide +kernel, h.1 22 hposition, h.2.2.2.1 _ Exporter.parseSnapshot_sample⟩

/-- The exporter reads a missing number as zero, both readers take a hexadecimal numeral, and an
empty option is zero. -/
theorem numbers_invented :
    (Exporter.numberValue (ascii "\x7b\"mean\":,\"max\":1\x7d") (ascii "mean") = .ok .zero ∧
      Exporter.tokenOf (ascii "\x7b\"mean\":,\"max\":1\x7d") (ascii "mean") = some [] ∧
      ¬ IsNumber []) ∧
    (Exporter.numberValue (ascii "\x7b\"mean\":0x10\x7d") (ascii "mean") = .ok (doubleOf 16) ∧
      Comparator.numberAt (ascii "\x7b\"mean\":0x10\x7d") 8 = .ok (doubleOf 16) ∧
      Exporter.tokenOf (ascii "\x7b\"mean\":0x10\x7d") (ascii "mean") = some (ascii "0x10") ∧
      ¬ IsNumber (ascii "0x10")) ∧
    Comparator.parseNonnegative [] (ascii "--absolute-tolerance-us") = .ok .zero := by
  refine ⟨⟨by decide +kernel, by decide +kernel, not_isNumber_nil⟩, ⟨by decide +kernel,
    by decide +kernel, by decide +kernel, fun h ↦ ?_⟩, by decide +kernel⟩
  exact absurd (h.bytes 120 (by decide)) (by decide)

end MarketData
