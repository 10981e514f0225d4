import MarketData.Exporter.Metrics
import MarketData.Json.Permutation

/-!
# Object structure and the exporter's member lookup

The lookup takes the first value under a name at any depth. It is the lookup of a direct
member exactly where such a member comes before every nested one. As long as that holds
for the names that `parse_snapshot` looks up, the order of the members does not matter. For a key
that is no plain name the search is one for bytes: it finds them wherever they stand.
-/

namespace MarketData.Exporter

open ByteText Cpp Json

/-! ### One lookup -/

/-- The lookup of a name in an object text returns where the value of a direct member of that
name stands, and nothing when there is no such member. -/
def FindsMember (d : Document) (key : Bytes) : Prop :=
  match findValue d.text key with
  | some offset => ∃ name value,
      (offset, name, value) ∈ d.root.direct d.before.val.length ∧ name.value = key
  | none => ∀ name ∈ d.root.names, name.value ≠ key

/-- The first member at any depth whose name is spelled like the key is a direct one; without
any, no direct member has that name in another spelling. -/
def FirstIsMember (v : Value) (key : Bytes) : Prop :=
  v.firstIsDirect (fun l ↦ l.text == key) = true ∧
    (v.directNamed (fun l ↦ l.text == key) = none → ∀ name ∈ v.names, name.value ≠ key)

/-- The names are compared in the order of the text. -/
instance (v : Value) (key : Bytes) : Decidable (FirstIsMember v key) :=
  inferInstanceAs (Decidable (_ ∧ _))

private theorem value_of_spelled {key : Bytes} (hk : IsPlainName key) {l : Literal}
    (h : (l.text == key) = true) : l.value = key := by
  have ht : l.text = key := beq_iff_eq.mp h
  rw [Literal.value_eq_text (fun b hb ↦ (hk.1 b (ht ▸ hb)).2), ht]

/-- The lookup respects the structure of an object exactly when the first member of that name
is a direct one. -/
theorem findsMember_iff (d : Document) {key : Bytes} (ho : d.root.isObject = true)
    (hk : IsPlainName key) : FindsMember d key ↔ FirstIsMember d.root key := by
  rw [FindsMember, findValue_document d hk]
  cases hdirect : d.root.firstIsDirect (fun l ↦ l.text == key) with
  | true =>
    have hfind := d.root.find?_direct (fun l ↦ l.text == key) d.before.val.length
    rw [d.root.firstAt_direct _ hdirect]
    cases hf : (d.root.direct d.before.val.length).find? (fun m ↦ m.2.1.text == key) with
    | some m =>
      rw [hf] at hfind
      have hname : m.2.1.value = key := value_of_spelled hk (List.find?_some
        (p := fun m : Nat × Literal × Value ↦ m.2.1.text == key) hf)
      refine iff_of_true ⟨m.2.1, m.2.2, List.mem_of_find?_eq_some hf, hname⟩ ⟨hdirect, ?_⟩
      intro hnone
      rw [hnone] at hfind
      cases hfind
    | none =>
      rw [hf] at hfind
      simp only [Option.map_none, FirstIsMember, hdirect, true_and]
      exact ⟨fun h _ ↦ h, fun h ↦ h hfind.symm⟩
  | false =>
    obtain ⟨o, w, hf, hne⟩ := d.root.firstAt_nested d.before.val.length ho hdirect
    rw [hf]
    refine iff_of_false ?_ (fun h ↦ ?_)
    · rintro ⟨name, value, hm, -⟩
      exact hne _ hm rfl
    · rw [FirstIsMember, hdirect] at h
      cases h.1

/-! ### The lookups of a snapshot -/

/-- The names looked up at the root. -/
def rootKeys : List Bytes :=
  [ascii "schema_version", ascii "build", ascii "environment", ascii "latency_us",
    ascii "validation", ascii "slo", ascii "model", ascii "backend", ascii "samples",
    ascii "input_size", ascii "batch_size", ascii "fallback_used", ascii "cuda_graph",
    ascii "throughput_ips", ascii "throughput_samples_per_second"]

/-- The names looked up in the build. -/
def buildKeys : List Bytes := [ascii "version", ascii "revision"]

/-- The names looked up in the environment. -/
def environmentKeys : List Bytes := [ascii "backend_version", ascii "device"]

/-- The names looked up in the latencies. -/
def latencyKeys : List Bytes := [ascii "end_to_end", ascii "device_compute"]

/-- The names looked up in a distribution. -/
def distributionKeys : List Bytes :=
  [ascii "samples", ascii "mean", ascii "min", ascii "p50", ascii "p90", ascii "p95", ascii "p99",
    ascii "max", ascii "stddev"]

/-- The names looked up in the validation. -/
def validationKeys : List Bytes := [ascii "passed", ascii "checked_elements"]

/-- The names looked up in the SLO. -/
def sloKeys : List Bytes :=
  [ascii "passed", ascii "scope", ascii "target_us", ascii "observed_p99_us"]

/-- The objects that `parse_snapshot` reads, by the names that lead to them, with the names it
looks up there. -/
def schema : List (List Bytes × List Bytes) :=
  [([], rootKeys), ([ascii "build"], buildKeys), ([ascii "environment"], environmentKeys),
    ([ascii "latency_us"], latencyKeys),
    ([ascii "latency_us", ascii "end_to_end"], distributionKeys),
    ([ascii "latency_us", ascii "device_compute"], distributionKeys),
    ([ascii "validation"], validationKeys), ([ascii "slo"], sloKeys)]

/-- The value that a chain of lookups reaches. -/
def reach (v : Value) (path : List Bytes) : Option Value := path.foldlM under v

/-- In every object that `parse_snapshot` reads, a name it looks up there is the name of one member
at most and meets a direct member first. -/
def Settled (v : Value) : Prop :=
  ∀ entry ∈ schema, ∀ w ∈ reach v entry.1, ∀ key ∈ entry.2,
    w.NamedOnce (fun l ↦ l.text == key) ∧ FirstIsMember w key

/-- The lookups of the schema are checked one by one. -/
instance (v : Value) : Decidable (Settled v) := inferInstanceAs (Decidable (∀ _ ∈ _, _))

/-! ### Readers of permuted values -/

section Readers

variable {v w : Value}

private theorem isObject_permuted (h : v.Permuted w) : w.isObject = v.isObject := by
  cases v with
  | array items =>
    obtain ⟨others, rfl, -⟩ := h
    rfl
  | object members =>
    obtain ⟨others, rfl, -⟩ := h
    rfl
  | scalar t => rw [show w = .scalar t from h]
  | string l => rw [show w = .string l from h]
  | emptyArray s => rw [show w = .emptyArray s from h]
  | emptyObject s => rw [show w = .emptyObject s from h]

private theorem eq_or_container (h : v.Permuted w) :
    v = w ∨ ∃ b text text', (b = openBrace ∨ b = openBracket) ∧ v.text = b :: text ∧
      w.text = b :: text' ∧ (∀ l, v ≠ .string l) ∧ ∀ l, w ≠ .string l := by
  cases v with
  | array items =>
    obtain ⟨others, rfl, -⟩ := h
    exact .inr ⟨openBracket, _, _, .inr rfl, rfl, rfl, nofun, nofun⟩
  | object members =>
    obtain ⟨others, rfl, -⟩ := h
    exact .inr ⟨openBrace, _, _, .inl rfl, rfl, rfl, nofun, nofun⟩
  | scalar t => exact .inl (Eq.symm h)
  | string l => exact .inl (Eq.symm h)
  | emptyArray s => exact .inl (Eq.symm h)
  | emptyObject s => exact .inl (Eq.symm h)

private theorem not_word {b : UInt8} (hb : b = openBrace ∨ b = openBracket) (text : Bytes) :
    (ascii "null").isPrefixOf (b :: text) = false ∧ (ascii "true").isPrefixOf (b :: text) = false ∧
      (ascii "false").isPrefixOf (b :: text) = false := by
  rcases hb with rfl | rfl <;> exact ⟨rfl, rfl, rfl⟩

private theorem nullOf_permuted (h : v.Permuted w) : nullOf v = nullOf w := by
  rcases eq_or_container h with rfl | ⟨b, text, text', hb, hv, hw, -, -⟩
  · rfl
  · rw [nullOf, nullOf, hv, hw, (not_word hb text).1, (not_word hb text').1]

private theorem boolOf_permuted (h : v.Permuted w) : boolOf v = boolOf w := by
  rcases eq_or_container h with rfl | ⟨b, text, text', hb, hv, hw, -, -⟩
  · rfl
  · simp only [boolOf, hv, hw, (not_word hb text).2, (not_word hb text').2]

private theorem stringOf_permuted (h : v.Permuted w) : stringOf v = stringOf w := by
  rcases eq_or_container h with rfl | ⟨b, text, text', -, -, -, hv, hw⟩
  · rfl
  · rw [stringOf_other hv, stringOf_other hw]

private theorem finiteToken_container {b : UInt8} (hb : b = openBrace ∨ b = openBracket)
    (text : Bytes) : Ieee.finiteToken? (b :: text) = none := by
  rcases hb with rfl | rfl <;> exact Ieee.finiteToken_other (by decide) text

private theorem numberOf_permuted (h : v.Permuted w) : numberOf v = numberOf w := by
  have hother : ∀ {b : UInt8} {text : Bytes} {u : Value}, b = openBrace ∨ b = openBracket →
      u.text = b :: text →
        numberOf u = .error (.exception (ascii "expected a finite JSON number")) := by
    intro b text u hb hu
    have hd : isDelimiter b = false := by rcases hb with rfl | rfl <;> decide
    rw [numberOf, hu, List.takeWhile_cons_of_pos (by simpa using hd), finiteToken_container hb]
  rcases eq_or_container h with rfl | ⟨b, text, text', hb, hv, hw, -, -⟩
  · rfl
  · rw [hother hb hv, hother hb hw]

end Readers

/-! ### Fields of alike objects -/

-- Two objects hold permuted values under every one of the names.
private def Alike (keys : List Bytes) (v w : Value) : Prop :=
  ∀ key ∈ keys, Option.Rel Value.Permuted (under v key) (under w key)

private theorem under_of_firstIsMember {v : Value} {key : Bytes} (h : FirstIsMember v key) :
    under v key = v.directNamed (fun l ↦ l.text == key) := Value.firstNamed_direct h.1

private theorem alike_of_permuted {keys : List Bytes} {v w : Value} (h : v.Permuted w)
    (hv : ∀ key ∈ keys, v.NamedOnce (fun l ↦ l.text == key) ∧ FirstIsMember v key)
    (hw : ∀ key ∈ keys, FirstIsMember w key) : Alike keys v w := by
  intro key hkey
  rw [under_of_firstIsMember (hv key hkey).2, under_of_firstIsMember (hw key hkey)]
  exact h.directNamed (hv key hkey).1

section Fields

variable {keys : List Bytes} {v w : Value} {key : Bytes}

private theorem under_alike (h : Alike keys v w) (hk : key ∈ keys) :
    (under v key = none ∧ under w key = none) ∨
      ∃ x y, under v key = some x ∧ under w key = some y ∧ x.Permuted y := by
  have hrel := h key hk
  cases hv : under v key with
  | none =>
    cases hw : under w key with
    | none => exact .inl ⟨rfl, rfl⟩
    | some y =>
      rw [hv, hw] at hrel
      cases hrel
  | some x =>
    cases hw : under w key with
    | none =>
      rw [hv, hw] at hrel
      cases hrel
    | some y =>
      rw [hv, hw] at hrel
      cases hrel with
      | some hxy => exact .inr ⟨x, y, rfl, rfl, hxy⟩

private theorem required_alike {α : Type} {f g : Value → Checked α} (h : Alike keys v w)
    (hk : key ∈ keys)
    (hfg : ∀ x y, under v key = some x → under w key = some y → x.Permuted y → f x = g y) :
    (required v key >>= f) = required w key >>= g := by
  rcases under_alike h hk with ⟨hv, hw⟩ | ⟨x, y, hv, hw, hxy⟩
  · rw [required, required, hv, hw]
    rfl
  · rw [required, required, hv, hw, ok_bind, ok_bind]
    exact hfg x y hv hw hxy

private theorem stringIn_alike (h : Alike keys v w) (hk : key ∈ keys) :
    stringIn v key = stringIn w key :=
  required_alike h hk (fun _ _ _ _ ↦ stringOf_permuted)

private theorem numberIn_alike (h : Alike keys v w) (hk : key ∈ keys) :
    numberIn v key = numberIn w key :=
  required_alike h hk (fun _ _ _ _ ↦ numberOf_permuted)

private theorem boolIn_alike (h : Alike keys v w) (hk : key ∈ keys) :
    boolIn v key = boolIn w key :=
  required_alike h hk (fun _ _ _ _ ↦ boolOf_permuted)

private theorem unsignedIn_alike (h : Alike keys v w) (hk : key ∈ keys) :
    unsignedIn v key = unsignedIn w key := by
  rw [unsignedIn, unsignedIn, numberIn_alike h hk]

private theorem objectIn_alike {α : Type} {f g : Value → Checked α} (h : Alike keys v w)
    (hk : key ∈ keys)
    (hfg : ∀ x y, under v key = some x → under w key = some y → x.Permuted y → f x = g y) :
    (objectIn v key >>= f) = objectIn w key >>= g := by
  rw [objectIn, objectIn, bind_assoc, bind_assoc]
  apply required_alike h hk
  intro x y hx hy hxy
  rw [objectOf, objectOf, isObject_permuted hxy]
  split
  · exact hfg x y hx hy hxy
  · rfl

private theorem optionalIn_alike {α : Type} {read : Value → Checked α} (h : Alike keys v w)
    (hk : key ∈ keys) (hread : ∀ x y, x.Permuted y → read x = read y) :
    optionalIn v key read = optionalIn w key read := by
  rcases under_alike h hk with ⟨hv, hw⟩ | ⟨x, y, hv, hw, hxy⟩
  · rw [optionalIn, optionalIn, hv, hw]
  · simp only [optionalIn, hv, hw, nullOf_permuted hxy, hread x y hxy]

private theorem distributionOf_alike (h : Alike distributionKeys v w) :
    distributionOf v = distributionOf w := by
  simp (disch := decide) only [distributionOf, unsignedIn_alike h, numberIn_alike h]

end Fields

/-! ### Permuted snapshots -/

section Snapshot

variable {v w : Value}

private theorem reach_single {x : Value} {key : Bytes} (hx : under v key = some x) :
    reach v [key] = some x := by
  rw [reach, List.foldlM_cons, hx]
  rfl

private theorem reach_pair {x y : Value} {outer inner : Bytes} (hx : under v outer = some x)
    (hy : under x inner = some y) : reach v [outer, inner] = some y := by
  rw [reach, List.foldlM_cons, hx]
  exact reach_single hy

private theorem Settled.alike (hv : Settled v) (hw : Settled w) (path keys : List Bytes)
    (hp : (path, keys) ∈ schema) {x y : Value} (hx : reach v path = some x)
    (hy : reach w path = some y) (h : x.Permuted y) : Alike keys x y :=
  alike_of_permuted h (hv _ hp x hx) (fun key hk ↦ (hw _ hp y hy key hk).2)

private theorem deviceComputeOf_alike (hv : Settled v) (hw : Settled w) {x y : Value}
    (hx : under v (ascii "latency_us") = some x) (hy : under w (ascii "latency_us") = some y)
    (h : x.Permuted y) : deviceComputeOf x = deviceComputeOf y := by
  have hlatency := hv.alike hw _ latencyKeys (by decide) (reach_single hx) (reach_single hy) h
  apply required_alike hlatency (by decide)
  intro a b ha hb hab
  have hdistribution := hv.alike hw _ distributionKeys (by decide) (reach_pair hx ha)
    (reach_pair hy hb) hab
  rw [nullOf_permuted hab, objectOf, objectOf, isObject_permuted hab]
  split
  · rfl
  · split
    · simp only [ok_bind, distributionOf_alike hdistribution]
    · rfl

private theorem validationOf_alike (hv : Settled v) (hw : Settled w) (h : v.Permuted w) :
    validationOf v = validationOf w := by
  have hroot := hv.alike hw [] rootKeys (by decide) rfl rfl h
  apply required_alike hroot (by decide)
  intro x y hx hy hxy
  have hvalidation := hv.alike hw _ validationKeys (by decide) (reach_single hx) (reach_single hy)
    hxy
  rw [nullOf_permuted hxy, objectOf, objectOf, isObject_permuted hxy]
  split
  · rfl
  · split
    · simp only [ok_bind, boolIn_alike hvalidation (by decide : ascii "passed" ∈ validationKeys),
        unsignedIn_alike hvalidation (by decide : ascii "checked_elements" ∈ validationKeys)]
      apply bind_congr_ok
      intro passed _
      rcases under_alike hvalidation (by decide : ascii "checked_elements" ∈ validationKeys) with
        ⟨hx', hy'⟩ | ⟨a, b, hx', hy', -⟩ <;> rw [hx', hy']
    · rfl

/-- Settled documents that differ in the order of members only have the same snapshot. -/
theorem snapshotOf_permuted (h : v.Permuted w) (hv : Settled v) (hw : Settled w) :
    snapshotOf v = snapshotOf w := by
  have hroot := hv.alike hw [] rootKeys (by decide) rfl rfl h
  rw [snapshotOf, snapshotOf, unsignedIn_alike hroot (by decide)]
  apply bind_congr_ok
  intro _ _
  apply bind_congr_ok
  intro _ _
  apply objectIn_alike hroot (by decide)
  intro build build' hb hb' hbuild
  apply objectIn_alike hroot (by decide)
  intro environment environment' he he' henvironment
  apply objectIn_alike hroot (by decide)
  intro latency latency' hl hl' hlatency
  have hlatencyAlike := hv.alike hw _ latencyKeys (by decide) (reach_single hl) (reach_single hl')
    hlatency
  apply objectIn_alike hlatencyAlike (by decide)
  intro endToEnd endToEnd' hd hd' hendToEnd
  rw [deviceComputeOf_alike hv hw hl hl' hlatency]
  apply bind_congr_ok
  intro _ _
  rw [validationOf_alike hv hw h]
  apply bind_congr_ok
  intro _ _
  apply objectIn_alike hroot (by decide)
  intro slo slo' hs hs' hslo
  have hbuildAlike := hv.alike hw _ buildKeys (by decide) (reach_single hb)
    (reach_single hb') hbuild
  have henvironmentAlike := hv.alike hw _ environmentKeys (by decide) (reach_single he)
    (reach_single he') henvironment
  have hdistribution := hv.alike hw _ distributionKeys (by decide) (reach_pair hl hd)
    (reach_pair hl' hd') hendToEnd
  have hsloAlike := hv.alike hw _ sloKeys (by decide) (reach_single hs) (reach_single hs') hslo
  have hbool := optionalIn_alike hsloAlike (by decide : ascii "passed" ∈ sloKeys)
    (fun _ _ ↦ boolOf_permuted)
  have hversion := optionalIn_alike henvironmentAlike
    (by decide : ascii "backend_version" ∈ environmentKeys) (fun _ _ ↦ stringOf_permuted)
  have htarget := optionalIn_alike hsloAlike (by decide : ascii "target_us" ∈ sloKeys)
    (fun _ _ ↦ numberOf_permuted)
  have hobserved := optionalIn_alike hsloAlike (by decide : ascii "observed_p99_us" ∈ sloKeys)
    (fun _ _ ↦ numberOf_permuted)
  simp (disch := decide) only [hbool, stringIn_alike hbuildAlike, stringIn_alike hroot, hversion,
    stringIn_alike henvironmentAlike, unsignedIn_alike hroot, boolIn_alike hroot,
    numberIn_alike hroot, distributionOf_alike hdistribution, stringIn_alike hsloAlike, htarget,
    hobserved]

end Snapshot

/-! ### The lookup and the order of members -/

/-- A lookup by a plain name respects the structure of an object exactly when the first member
of that name, at any depth, is a direct one. Documents that differ in the order of members only
have the same snapshot when this holds of every lookup in both and no name that is looked up is
that of two members. -/
theorem lookup_structure (d : Document) :
    (∀ key, d.root.isObject = true → IsPlainName key →
      (FindsMember d key ↔ FirstIsMember d.root key)) ∧
    ∀ w, d.root.Permuted w → Settled d.root → Settled w →
      parseSnapshot { d with root := w }.text = parseSnapshot d.text := by
  refine ⟨fun _ ho hk ↦ findsMember_iff d ho hk, ?_⟩
  intro w h hd hw
  rw [parseSnapshot_eq (presents_document { d with root := w }),
    parseSnapshot_eq (presents_document d)]
  exact (snapshotOf_permuted h hd hw).symm

/-- The first two members of an object, if it has two, in the other order. -/
def firstSwapped : Value → Value
  | .object (.cons name value after (.cons name' value' after' rest)) =>
    .object (.cons name' value' after' (.cons name value after rest))
  | v => v

private theorem permuted_firstSwapped (v : Value) : v.Permuted (firstSwapped v) := by
  unfold firstSwapped
  split
  · exact ⟨_, rfl, .of_perm (List.Perm.swap ..)⟩
  · exact Value.Permuted.refl v

/-- In the document of the short run the sample count is found, and with its first two members in
the other order the exporter reads the same snapshot. -/
theorem lookup_structure_count :
    FindsMember (metricsDocument (lineBreak 0) {} {} sampleStats) (ascii "samples") ∧
      parseSnapshot (Document.text { metricsDocument (lineBreak 0) {} {} sampleStats with
        root := firstSwapped (metricsNode {} {} sampleStats) }) = .ok sampleSnapshot := by
  have h := lookup_structure (metricsDocument (lineBreak 0) {} {} sampleStats)
  constructor
  · have hobject : (metricsDocument (lineBreak 0) {} {} sampleStats).root.isObject = true := rfl
    have hiff := h.1 (ascii "samples") hobject (by decide)
    rw [hiff]
    decide +kernel
  · have hsame := h.2 _ (permuted_firstSwapped _) (by decide +kernel) (by decide +kernel)
    rw [← formatMetricsJson_document, parseSnapshot_sample] at hsame
    exact hsame

/-- An object with a nested sample count in front of its own. -/
def nestedFirst : Document where
  before := noSpace
  root := .object (block 2 (lineBreak 0) ⟨"latency_us", isKey_latencyUs⟩
    (.object (block 4 (lineBreak 2) ⟨"samples", isKey_samples⟩ (unsignedNode 9) []))
    [(⟨"samples", isKey_samples⟩, unsignedNode 4)])
  after := lineBreak 0

/-- The lookup of the sample count of the object finds the nested one. -/
theorem findsMember_nestedFirst :
    nestedFirst.root.Strict ∧ nestedFirst.root.isObject = true ∧
      numberValue nestedFirst.text (ascii "samples") = .ok (doubleOf 9) ∧
      ¬ FindsMember nestedFirst (ascii "samples") := by
  have hdigit : ∀ b : UInt8, b ≠ 48 → isDigit b = true → IsNumber [b] := by
    intro b hb hd
    exact ⟨[], [b], [], [], rfl, .inl rfl, .inr ⟨b, [], rfl, hb, by simpa using hd⟩, .inl rfl,
      .inl rfl⟩
  refine ⟨?_, rfl, by decide +kernel, ?_⟩
  · simp only [nestedFirst, Value.Strict, strict_block_cons, strict_block_nil]
    exact ⟨.inr (.inr (.inr (hdigit 57 (by decide) (by decide)))),
      .inr (.inr (.inr (hdigit 52 (by decide) (by decide))))⟩
  · rw [findsMember_iff _ rfl (by decide)]
    decide

/-! ### Keys of any bytes -/

/-- The bytes of the key stand between quotes at a position. -/
def Occurs (document key : Bytes) (position : Nat) : Prop :=
  (quote :: (key ++ [quote])).isPrefixOf (document.drop position) = true

/-- Where the colon behind an occurrence would stand. -/
def behindKey (document key : Bytes) (position : Nat) : Nat :=
  skipSpace document (position + (quote :: (key ++ [quote])).length)

/-- An occurrence that the search takes for a name: its quote is not escaped and a colon follows. -/
def Counts (document key : Bytes) (position : Nat) : Prop :=
  Occurs document key position ∧ slashCount document position % 2 = 0 ∧
    document[behindKey document key position]? = some colon

/-- The occurrence starts inside an earlier one. -/
def Overlaps (document key : Bytes) (position : Nat) : Prop :=
  ∃ earlier < position, Occurs document key earlier ∧
    position < earlier + (quote :: (key ++ [quote])).length

/-- An answer of the search from a position on: what is behind an occurrence that counts, or nothing
where every such occurrence overlaps an earlier one. -/
def Answers (document key : Bytes) (cursor : Nat) : Option Nat → Prop
  | some offset => ∃ position, cursor ≤ position ∧ Counts document key position ∧
      offset = skipSpace document (behindKey document key position + 1)
  | none => ∀ position, cursor ≤ position → Counts document key position →
      Overlaps document key position

private theorem Answers.of_succ {document key : Bytes} {cursor : Nat} {found : Option Nat}
    (h : Answers document key (cursor + 1) found)
    (hcursor : Counts document key cursor → Overlaps document key cursor) :
    Answers document key cursor found := by
  cases found with
  | some offset =>
    obtain ⟨position, hle, hcounts⟩ := h
    exact ⟨position, Nat.le_of_succ_le hle, hcounts⟩
  | none =>
    intro position hle hcounts
    rcases Nat.eq_or_lt_of_le hle with rfl | hlt
    · exact hcursor hcounts
    · exact h position hlt hcounts

private theorem answers_findValueLoop {document key rest : Bytes} {cursor searchFrom : Nat}
    (hrest : document.drop cursor = rest)
    (hskipped : ∀ position, cursor ≤ position → position < searchFrom →
      Overlaps document key position) :
    Answers document key cursor
      (findValueLoop document (quote :: (key ++ [quote])) rest cursor searchFrom) := by
  induction rest generalizing cursor searchFrom with
  | nil =>
    intro position hle hcounts
    have hlength : document.length ≤ cursor := List.drop_eq_nil_iff.mp hrest
    have hoccurs := hcounts.1
    rw [Occurs, List.drop_eq_nil_iff.mpr (hlength.trans hle)] at hoccurs
    cases hoccurs
  | cons c rest ih =>
    have hnext : document.drop (cursor + 1) = rest := by
      rw [← List.tail_drop, hrest, List.tail_cons]
    rw [findValueLoop]
    by_cases h : searchFrom ≤ cursor ∧ (quote :: (key ++ [quote])).isPrefixOf (c :: rest) = true
    · have hoccurs : Occurs document key cursor := by
        rw [Occurs, hrest]
        exact h.2
      -- An occurrence that does not count is passed over as a whole.
      have hpassed : Answers document key (cursor + 1)
          (findValueLoop document (quote :: (key ++ [quote])) rest (cursor + 1)
            (cursor + (quote :: (key ++ [quote])).length)) :=
        ih hnext (fun position hle hlt ↦ ⟨cursor, hle, hoccurs, hlt⟩)
      simp only [if_pos h]
      by_cases hodd : slashCount document cursor % 2 ≠ 0
      · rw [if_pos hodd]
        exact hpassed.of_succ fun hcounts ↦ absurd hcounts.2.1 hodd
      · rw [if_neg hodd]
        by_cases hcolon : document[behindKey document key cursor]? = some colon
        · rw [← behindKey, if_pos hcolon]
          exact ⟨cursor, Nat.le_refl _, ⟨hoccurs, not_not.mp hodd, hcolon⟩, rfl⟩
        · rw [← behindKey, if_neg hcolon]
          exact hpassed.of_succ fun hcounts ↦ absurd hcounts.2.2 hcolon
    · rw [if_neg h]
      refine (ih hnext fun position hle hlt ↦ hskipped position (by omega) hlt).of_succ ?_
      intro hcounts
      have hoccurs := hcounts.1
      rw [Occurs, hrest] at hoccurs
      exact hskipped cursor (Nat.le_refl _) (by by_contra hge; exact h ⟨by omega, hoccurs⟩)

/-- Whatever the bytes of the key, plain or not, the search answers by the occurrences of the quoted
key in the text, wherever they stand. -/
theorem answers_findValue (document key : Bytes) :
    Answers document key 0 (findValue document key) :=
  answers_findValueLoop rfl fun _ _ hlt ↦ absurd hlt (Nat.not_lt_zero _)

-- This key is no name: its quotes are those of two members.
example : findValue (ascii "\x7b\"a\":1,\"b\":2\x7d") (ascii "a\":1,\"b") = some 11 := by decide

end MarketData.Exporter
