import MarketData.Comparator.Acceptance
import MarketData.Comparator.Context
import MarketData.Readers.Numbers

/-!
# Malformed documents that the comparator accepts

The reader checks what it has to look at: the delimiters of the root object, the members in
front of those it looks up, and the start of the values it reads. A document is accepted
exactly when these are in place, whether or not the rest of it is JSON. When a size rounds to
`2 ^ 64`, the reader neither returns nor throws.
-/

namespace MarketData.Comparator

open ByteText Cpp Json Ieee

/-- A numeral in range that rounds to the number, up to the next delimiter. -/
def NumeralAhead (field : Bytes) (x : ℚ) : Prop :=
  ∃ negative y, Spells (field.takeWhile (fun b ↦ !isDelimiter b)) negative y ∧
    InRange negative y ∧ nearest y = x

/-- A string literal. -/
def StringAhead (field : Bytes) : Prop := ∃ (l : Literal) (after : Bytes), field = l.quoted ++ after

/-- A member is a numeral that rounds to the number. -/
def HasNumeral (root key : Bytes) (x : ℚ) : Prop :=
  ∃ field, Reaches key root field ∧ NumeralAhead field x

/-- A member is a numeral that rounds to a 64-bit integer. -/
def HasSize (root key : Bytes) : Prop :=
  ∃ field, Reaches key root field ∧ ∃ n : UInt64, NumeralAhead field n.toNat

/-- What is read in front of the sizes is in its place. -/
structure Opens (root scope metric : Bytes) : Prop where
  statistic : ∃ latency distribution x, Reaches (ascii "latency_us") root latency ∧
    Reaches (scopeKey scope) latency distribution ∧ HasNumeral distribution metric x
  backend : ∃ field, Reaches (ascii "backend") root field ∧ StringAhead field
  device : ∃ environment field, Reaches (ascii "environment") root environment ∧
    Reaches (ascii "device") environment field ∧ StringAhead field

/-- What the comparator takes for a metrics document. -/
def Passable (document scope metric : Bytes) : Prop :=
  ∃ root, IsRoot document root ∧ Opens root scope metric ∧ HasSize root (ascii "input_size") ∧
    HasSize root (ascii "batch_size") ∧ ∃ field, Reaches (ascii "cuda_graph") root field ∧
      (ascii "true" <+: field ∨ ascii "false" <+: field)

/-- A size is reached that rounds to `2 ^ 64`. -/
def Overflows (document scope metric : Bytes) : Prop :=
  ∃ root, IsRoot document root ∧ Opens root scope metric ∧
    (HasNumeral root (ascii "input_size") (2 ^ 64) ∨
      HasSize root (ascii "input_size") ∧ HasNumeral root (ascii "batch_size") (2 ^ 64))

/-! ### Numerals -/

section

variable {text key : Bytes} {q position : Nat} {span : Span}

private theorem numberAt_iff (hs : ∀ b ∈ (text.drop q).head?, isSpace b = false) {x : ℚ} :
    (∃ v, numberAt text q = .ok v ∧ v.isFinite = true ∧ v.toRat = x) ↔
      NumeralAhead (text.drop q) x := by
  have htoken : scalarToken text q = (text.drop q).takeWhile (fun b ↦ !isDelimiter b) := by
    rw [scalarToken, skipWhile_stop hs]
  simp only [numberAt_eq_ok, htoken, finiteToken_eq_some]
  constructor
  · rintro ⟨v, ⟨hne, hv⟩, -, hx⟩
    rcases hv with ⟨hnil, -⟩ | ⟨negative, y, hspells, hrange, hround⟩
    · exact absurd hnil hne
    · refine ⟨negative, y, hspells, hrange, ?_⟩
      rw [← hx, hround]
      exact (Number.toRat_round_sign negative false y).symm
  · rintro ⟨negative, y, hspells, hrange, hx⟩
    refine ⟨_, ⟨hspells.ne_nil, .inr ⟨negative, y, hspells, hrange, rfl⟩⟩, hrange.1, ?_⟩
    rw [← hx]
    exact Number.toRat_round_sign negative false y

private theorem isFinite_of_numberAt {v : Double} (h : numberAt text q = .ok v) :
    v.isFinite = true := by
  obtain ⟨-, hv⟩ := numberAt_eq_ok.mp h
  exact isFinite_of_finiteToken hv

private theorem exactUnsigned_eq_ok (hs : ∀ b ∈ (text.drop q).head?, isSpace b = false)
    {field : Bytes} :
    (∃ n, exactUnsigned text q field = .ok n) ↔
      ∃ n : UInt64, NumeralAhead (text.drop q) n.toNat := by
  constructor
  · rintro ⟨n, h⟩
    obtain ⟨v, hv, hn⟩ := bind_eq_ok.mp h
    exact ⟨n, (numberAt_iff hs).mp ⟨v, hv, isFinite_of_numberAt hv, (unsignedOf_eq_ok hn).symm⟩⟩
  · rintro ⟨n, h⟩
    obtain ⟨v, hv, hf, hn⟩ := (numberAt_iff hs).mpr h
    refine ⟨n, bind_eq_ok.mpr ⟨v, hv, ?_⟩⟩
    rw [unsignedOf_of_nat field hf hn, if_neg n.toNat_lt.not_gt, if_pos n.toNat_lt,
      UInt64.ofNat_toNat]

private theorem exactUnsigned_eq_undefined (hs : ∀ b ∈ (text.drop q).head?, isSpace b = false)
    {field : Bytes} :
    exactUnsigned text q field = .error .undefined ↔ NumeralAhead (text.drop q) (2 ^ 64) := by
  rw [← numberAt_iff hs, exactUnsigned, (defined_numberAt text q).bind_eq_undefined]
  refine exists_congr fun v ↦ and_congr_right fun hv ↦ ?_
  rw [unsignedOf_eq_undefined _ (isFinite_of_numberAt hv), and_iff_right (isFinite_of_numberAt hv)]

private theorem exists_required_iff {P : Nat → Prop} {Q : Bytes → Prop}
    (hspan : objectAt text position = .ok span)
    (hread : ∀ q, text.drop q ≠ [] → (∀ b ∈ (text.drop q).head?, isSpace b = false) →
      (P q ↔ Q (text.drop q))) :
    (∃ q, required text span key = .ok q ∧ P q) ↔
      ∃ field, Reaches key (text.drop span.opening) field ∧ Q field := by
  constructor
  · rintro ⟨q, hq, hp⟩
    have hreach := (required_eq_ok hspan).mp hq
    exact ⟨_, hreach, (hread q hreach.head.1 hreach.head.2).mp hp⟩
  · rintro ⟨field, hreach, hfield⟩
    obtain ⟨q, hq, rfl⟩ := exists_required hspan hreach
    exact ⟨q, hq, (hread q hreach.head.1 hreach.head.2).mpr hfield⟩

private theorem reaches_of_required {key₀ object : Bytes}
    (h₀ : Reaches key₀ object (text.drop position)) (hspan : objectAt text position = .ok span)
    (hq : required text span key = .ok q) : Reaches key (text.drop position) (text.drop q) := by
  have hreach := (required_eq_ok hspan).mp hq
  rwa [opening_of_objectAt h₀.head.2 hspan] at hreach

private theorem exists_member {field : Bytes} (h : Reaches key (text.drop position) field) :
    ∃ span q, objectAt text position = .ok span ∧ required text span key = .ok q ∧
      text.drop q = field := by
  obtain ⟨span, hspan, hopening⟩ := exists_objectAt h
  obtain ⟨q, hq, hfield⟩ := exists_required hspan (by rwa [hopening])
  exact ⟨span, q, hspan, hq, hfield⟩

end

/-! ### Documents -/

section

variable {document scope metric : Bytes}

-- The end of `parse_metrics`, from the sizes on.
private def readSizes (document : Bytes) (root : Span) (latencyUs : Double)
    (backend device : Bytes) : Checked RunMetrics := do
  return {
    latencyUs, backend, device
    inputSize := ← exactUnsigned document (← required document root (ascii "input_size"))
      (ascii "input_size")
    batchSize := ← exactUnsigned document (← required document root (ascii "batch_size"))
      (ascii "batch_size")
    cudaGraph := ← boolAt document (← required document root (ascii "cuda_graph")) }

-- What holds of no exception holds of `parse_metrics` when the document opens and it holds of what
-- is read from the sizes on.
private theorem parseMetrics_iff {r : Checked RunMetrics → Prop}
    (hr : ∀ what, ¬ r (.error (.exception what))) {s : Bytes → Prop}
    (hs : ∀ {span position latencyUs backend device}, objectAt document position = .ok span →
      (r (readSizes document span latencyUs backend device) ↔ s (document.drop span.opening))) :
    r (parseMetrics document scope metric) ↔
      ∃ root, IsRoot document root ∧ Opens root scope metric ∧ s root := by
  have hsizes : ∀ {span latencyUs backend device},
      r (readSizes document span latencyUs backend device) ↔ _ :=
    fun {_ _ _ _} ↦ Defined.bind_iff hr (defined_required _ _ _)
  simp only [parseMetrics, Defined.bind_iff hr, defined_rootObject, defined_required,
    defined_objectAt, defined_isNull, defined_throwUnless, defined_numberAt, defined_stringAt]
  constructor
  · rintro ⟨root, hroot, latency, hlatency, latencySpan, hlatencySpan, scopeValue, hscope, _, -,
      _, -, distribution, hdistribution, environment, henvironment, environmentSpan,
      henvironmentSpan, statistic, hstatistic, latencyUs, hnumber, backend, hbackend, _,
      hbackendText, device, hdevice, _, hdeviceText, hrest⟩
    obtain ⟨hisRoot, position, hspan⟩ := exists_root_of_rootObject hroot
    have hreach := (required_eq_ok hspan).mp hlatency
    have hreachScope := reaches_of_required hreach hlatencySpan hscope
    have hreachStatistic := reaches_of_required hreachScope hdistribution hstatistic
    have hreachBackend := (required_eq_ok hspan).mp hbackend
    have hreachEnvironment := (required_eq_ok hspan).mp henvironment
    have hreachDevice := reaches_of_required hreachEnvironment henvironmentSpan hdevice
    refine ⟨_, hisRoot, ⟨?_, ?_, ?_⟩, (hs hspan).mp (hsizes.mpr hrest)⟩
    · exact ⟨_, _, _, hreach, hreachScope, _, hreachStatistic, (numberAt_iff
        hreachStatistic.head.2).mp ⟨latencyUs, hnumber, isFinite_of_numberAt hnumber, rfl⟩⟩
    · exact ⟨_, hreachBackend, (exists_stringAt hreachBackend.head.2).mp ⟨_, hbackendText⟩⟩
    · exact ⟨_, _, hreachEnvironment, hreachDevice,
        (exists_stringAt hreachDevice.head.2).mp ⟨_, hdeviceText⟩⟩
  · rintro ⟨root, hisRoot, ⟨⟨latency, distribution, x, hlatency, hdistribution, statistic,
      hstatistic, hnumeral⟩, ⟨backend, hbackend, hbackendText⟩,
      ⟨environment, device, henvironment, hdevice, hdeviceText⟩⟩, hrest⟩
    obtain ⟨span, hroot, rfl⟩ := exists_rootObject hisRoot
    obtain ⟨-, position, hspan⟩ := exists_root_of_rootObject hroot
    obtain ⟨p, hp, rfl⟩ := exists_required hspan hlatency
    obtain ⟨latencySpan, q, hlatencySpan, hq, rfl⟩ := exists_member hdistribution
    obtain ⟨distributionSpan, u, hdistributionSpan, hu, rfl⟩ := exists_member hstatistic
    obtain ⟨e, he, rfl⟩ := exists_required hspan henvironment
    obtain ⟨environmentSpan, d, henvironmentSpan, hd, rfl⟩ := exists_member hdevice
    obtain ⟨b, hb, rfl⟩ := exists_required hspan hbackend
    obtain ⟨latencyUs, hnumber, -⟩ := (numberAt_iff hstatistic.head.2).mpr hnumeral
    obtain ⟨backendText, hbackendText⟩ := (exists_stringAt hbackend.head.2).mpr hbackendText
    obtain ⟨deviceText, hdeviceText⟩ := (exists_stringAt hdevice.head.2).mpr hdeviceText
    obtain ⟨rest, hopens⟩ := hstatistic.starts
    exact ⟨span, hroot, p, hp, latencySpan, hlatencySpan, q, hq, false, isNull_object hopens, (),
      throwUnless_eq_ok.mpr rfl, distributionSpan, hdistributionSpan, e, he, environmentSpan,
      henvironmentSpan, u, hu, latencyUs, hnumber, b, hb, backendText, hbackendText, d, hd,
      deviceText, hdeviceText, hsizes.mp ((hs hspan).mpr hrest)⟩

variable {span : Span} {position : Nat} {latencyUs : Double} {backend device : Bytes}

private theorem hasSize_iff (hspan : objectAt document position = .ok span) (key : Bytes) :
    (∃ q, required document span key = .ok q ∧ ∃ n, exactUnsigned document q key = .ok n) ↔
      HasSize (document.drop span.opening) key :=
  exists_required_iff hspan fun _ _ hs ↦ exactUnsigned_eq_ok hs

private theorem hasNumeral_iff (hspan : objectAt document position = .ok span) (key : Bytes) :
    (∃ q, required document span key = .ok q ∧
      exactUnsigned document q key = .error .undefined) ↔
      HasNumeral (document.drop span.opening) key (2 ^ 64) :=
  exists_required_iff hspan fun _ _ hs ↦ exactUnsigned_eq_undefined hs

private theorem readSizes_eq_ok (hspan : objectAt document position = .ok span) :
    (∃ m, readSizes document span latencyUs backend device = .ok m) ↔
      HasSize (document.drop span.opening) (ascii "input_size") ∧
        HasSize (document.drop span.opening) (ascii "batch_size") ∧
        ∃ field, Reaches (ascii "cuda_graph") (document.drop span.opening) field ∧
          (ascii "true" <+: field ∨ ascii "false" <+: field) := by
  have hgraph : (∃ q, required document span (ascii "cuda_graph") = .ok q ∧
      ∃ flag, boolAt document q = .ok flag) ↔
      ∃ field, Reaches (ascii "cuda_graph") (document.drop span.opening) field ∧
        (ascii "true" <+: field ∨ ascii "false" <+: field) :=
    exists_required_iff hspan fun _ hne hs ↦ exists_boolAt hne hs
  rw [← hasSize_iff hspan, ← hasSize_iff hspan, ← hgraph]
  simp only [readSizes, bind_eq_ok]
  constructor
  · rintro ⟨m, p, hp, n, hn, q, hq, k, hk, u, hu, flag, hflag, -⟩
    exact ⟨⟨p, hp, n, hn⟩, ⟨q, hq, k, hk⟩, u, hu, flag, hflag⟩
  · rintro ⟨⟨p, hp, n, hn⟩, ⟨q, hq, k, hk⟩, u, hu, flag, hflag⟩
    exact ⟨_, p, hp, n, hn, q, hq, k, hk, u, hu, flag, hflag, rfl⟩

private theorem readSizes_eq_undefined (hspan : objectAt document position = .ok span) :
    readSizes document span latencyUs backend device = .error .undefined ↔
      HasNumeral (document.drop span.opening) (ascii "input_size") (2 ^ 64) ∨
        HasSize (document.drop span.opening) (ascii "input_size") ∧
          HasNumeral (document.drop span.opening) (ascii "batch_size") (2 ^ 64) := by
  rw [← hasNumeral_iff hspan, ← hasNumeral_iff hspan, ← hasSize_iff hspan, readSizes,
    (defined_required _ _ _).bind_eq_undefined]
  constructor
  · rintro ⟨p, hp, h⟩
    rcases bind_eq_error h with hinput | ⟨n, hn, h⟩
    · exact .inl ⟨p, hp, hinput⟩
    obtain ⟨q, hq, h⟩ := (defined_required _ _ _).bind_eq_undefined.mp h
    rcases bind_eq_error h with hbatch | ⟨k, -, h⟩
    · exact .inr ⟨⟨p, hp, n, hn⟩, q, hq, hbatch⟩
    obtain ⟨u, -, h⟩ := (defined_required _ _ _).bind_eq_undefined.mp h
    obtain ⟨flag, -, h⟩ := (defined_boolAt _ _).bind_eq_undefined.mp h
    cases h
  · rintro (⟨p, hp, hinput⟩ | ⟨⟨p, hp, n, hn⟩, q, hq, hbatch⟩)
    · exact ⟨p, hp, by rw [hinput, error_bind]⟩
    · refine ⟨p, hp, ?_⟩
      rw [hn, ok_bind, hq, ok_bind, hbatch, error_bind]

/-- The documents that are accepted. -/
theorem parseMetrics_eq_ok :
    (∃ m, parseMetrics document scope metric = .ok m) ↔ Passable document scope metric := by
  refine parseMetrics_iff (r := fun x ↦ ∃ m, x = .ok m) ?_ readSizes_eq_ok
  rintro what ⟨m, h⟩
  cases h

/-- The documents on which the conversion of a size is undefined. -/
theorem parseMetrics_eq_undefined :
    parseMetrics document scope metric = .error .undefined ↔ Overflows document scope metric := by
  refine parseMetrics_iff (r := (· = .error .undefined)) ?_ readSizes_eq_undefined
  intro what h
  cases h

end

/-! ### Rejection -/

/-- The fields of a document have the types that they are read as. -/
structure Typed (root : Value) (scope metric : Bytes) : Prop where
  statistic : ∃ latency distribution t, member root (ascii "latency_us") = some latency ∧
    member latency (scopeKey scope) = some distribution ∧
    member distribution metric = some (.scalar t) ∧ IsNumber t.val
  backend : ∃ l, member root (ascii "backend") = some (.string l)
  device : ∃ l, deviceMember root = some (.string l)
  inputSize : ∃ t, member root (ascii "input_size") = some (.scalar t) ∧ IsNumber t.val
  batchSize : ∃ t, member root (ascii "batch_size") = some (.scalar t) ∧ IsNumber t.val
  cudaGraph : ∃ t flag, member root (ascii "cuda_graph") = some (.scalar t) ∧
    t.val = booleanText flag

/-- The document is read: as the baseline, or as the candidate behind an accepted baseline. -/
def IsRead (files : Bytes → FileContents) (a : Arguments) (document : Bytes) : Prop :=
  files a.baselinePath = .text document ∨ files a.candidatePath = .text document ∧
    ∃ baseline m, files a.baselinePath = .text baseline ∧
      parseMetrics baseline a.scope a.metric = .ok m

/-- The reader throws, and the tool exits with 2 wherever it reads the document. -/
structure Rejected (document scope metric : Bytes) : Prop where
  throws : ∃ what, parseMetrics document scope metric = .error (.exception what)
  exits : ∀ files selfTest arguments a, parseArguments {} arguments = .ok (.compare a) →
    a.scope = scope → a.metric = metric → IsRead files a document →
      exitCode files selfTest arguments = .ok 2

/-- A document is accepted only if it is a JSON text of an object with fields of the types they
are read as, and rejected otherwise. -/
structure RejectsMalformed (document scope metric : Bytes) : Prop where
  accepted : ∀ m, parseMetrics document scope metric = .ok m →
    ∃ d : Document, d.text = document ∧ d.root.Strict ∧ d.root.isObject = true ∧
      Typed d.root scope metric
  rejected : (∀ m, parseMetrics document scope metric ≠ .ok m) → Rejected document scope metric

private theorem typed_of_parseMetrics {d : Document} {scope metric : Bytes} {m : RunMetrics}
    (hs : d.root.Strict) (h : parseMetrics d.text scope metric = .ok m) :
    Typed d.root scope metric := by
  have hread := readsContext hs h
  obtain ⟨latency, distribution, t, x, hlatency, hscope, ht, hx, -⟩ := readsStatistic hs h
  obtain ⟨b, hb, -⟩ := hread.backend
  obtain ⟨v, hv, -⟩ := hread.device
  obtain ⟨i, y, hi, hy, -⟩ := hread.inputSize
  obtain ⟨j, z, hj, hz, -⟩ := hread.batchSize
  obtain ⟨g, hg, hflag⟩ := hread.cudaGraph
  exact ⟨⟨latency, distribution, t, hlatency, hscope, ht, hx.isNumber⟩, ⟨b, hb⟩, ⟨v, hv⟩,
    ⟨i, hi, hy.isNumber⟩, ⟨j, hj, hz.isNumber⟩, ⟨g, _, hg, hflag⟩⟩

private theorem handled_bind {α : Type} {x : Checked α} {f : α → Checked Nat} (hx : Defined x)
    (hf : ∀ a, x = .ok a → handled (f a) = .ok 2) : handled (x >>= f) = .ok 2 := by
  by_cases h : ∃ a, x = .ok a
  · obtain ⟨a, rfl⟩ := h
    exact hf a rfl
  · obtain ⟨what, rfl⟩ := hx.throws fun a ha ↦ h ⟨a, ha⟩
    rfl

private theorem handled_compareRuns {files : Bytes → FileContents} {a : Arguments}
    {document what : Bytes} (r t : Double)
    (hthrow : parseMetrics document a.scope a.metric = .error (.exception what))
    (hread : IsRead files a document) : handled (compareRuns files a r t) = .ok 2 := by
  refine handled_bind (defined_throwUnless _ _) fun _ _ ↦ ?_
  refine handled_bind (defined_throwUnless _ _) fun _ _ ↦ ?_
  refine handled_bind (defined_throwUnless _ _) fun _ _ ↦ ?_
  rcases hread with hbaseline | ⟨hcandidate, baseline, m, hbaseline, hm⟩
  · rw [readFile_eq_ok.mpr hbaseline, ok_bind, hthrow, error_bind]
    rfl
  · rw [readFile_eq_ok.mpr hbaseline, ok_bind, hm, ok_bind, readFile_eq_ok.mpr hcandidate, ok_bind,
      hthrow, error_bind]
    rfl

private theorem rejected_of_throws {document scope metric what : Bytes}
    (h : parseMetrics document scope metric = .error (.exception what)) :
    Rejected document scope metric := by
  refine ⟨⟨what, h⟩, ?_⟩
  rintro files selfTest arguments a hparse rfl rfl hread
  rw [exitCode, hparse, ok_bind]
  exact handled_compareRuns _ _ h hread

private theorem not_undefined {document scope metric : Bytes}
    (h : RejectsMalformed document scope metric) :
    parseMetrics document scope metric ≠ .error .undefined := by
  intro hundefined
  have hreturns : ∀ m, parseMetrics document scope metric ≠ .ok m := by
    intro m hm
    rw [hundefined] at hm
    cases hm
  obtain ⟨what, hthrow⟩ := (h.rejected hreturns).throws
  rw [hundefined] at hthrow
  cases hthrow

/-- Malformed documents are rejected exactly when what the reader takes for a metrics document is
JSON and no size rounds to `2 ^ 64`. -/
theorem malformed_rejected_iff (document scope metric : Bytes) :
    RejectsMalformed document scope metric ↔
      (Passable document scope metric → IsObjectText document) ∧
        ¬ Overflows document scope metric := by
  rw [← parseMetrics_eq_ok, ← parseMetrics_eq_undefined]
  constructor
  · intro h
    refine ⟨?_, not_undefined h⟩
    rintro ⟨m, hm⟩
    obtain ⟨d, ht, hs, ho, -⟩ := h.accepted m hm
    exact ⟨d, ht, hs, ho⟩
  · rintro ⟨hjson, hdefined⟩
    constructor
    · intro m hm
      obtain ⟨d, rfl, hs, ho⟩ := hjson ⟨m, hm⟩
      exact ⟨d, rfl, hs, ho, typed_of_parseMetrics hs hm⟩
    · intro hreturns
      obtain ⟨what, hthrow⟩ := Defined.throws hdefined hreturns
      exact rejected_of_throws hthrow

/-- A document with the given input size and graph member. -/
def flagDocument (inputSize flag : Token) : Document where
  before := noSpace
  root := .object (block 2 (lineBreak 0) (key "backend" isKey_backend) (stringNode (ascii "mock")) [
    (key "environment" isKey_environment,
      .object (block 4 (lineBreak 2) (key "device" isKey_device) (stringNode (ascii "cpu")) [])),
    (key "input_size" isKey_inputSize, .scalar inputSize),
    (key "batch_size" isKey_batchSize, unsignedNode 1),
    (key "cuda_graph" isKey_cudaGraph, .scalar flag),
    (key "latency_us" isKey_latencyUs,
      .object (block 4 (lineBreak 2) (key "end_to_end" isKey_endToEnd)
        (.object (block 6 (lineBreak 4) (key "p99" isKey_p99) (unsignedNode 3) [])) []))])
  after := lineBreak 0

private theorem not_strict_falsely : ¬ Token.Strict ⟨ascii "falsely", by decide⟩ := by
  rintro (h | h | h | h)
  · exact absurd h (by decide)
  · exact absurd h (by decide)
  · exact absurd h (by decide)
  · exact absurd (h.bytes 102 (by decide)) (by decide)

/-- A word that only starts like a boolean is accepted, and on a size of `2 ^ 64` the reader neither
returns nor throws. -/
theorem malformed_accepted :
    (∃ m, parseMetrics (flagDocument ⟨ascii "8", by decide⟩ ⟨ascii "falsely", by decide⟩).text
      (ascii "e2e") (ascii "p99") = .ok m) ∧
    ¬ RejectsMalformed (flagDocument ⟨ascii "8", by decide⟩ ⟨ascii "falsely", by decide⟩).text
      (ascii "e2e") (ascii "p99") ∧
    parseMetrics (flagDocument ⟨ascii "18446744073709551616", by decide⟩
      ⟨ascii "false", by decide⟩).text (ascii "e2e") (ascii "p99") = .error .undefined ∧
    ¬ RejectsMalformed (flagDocument ⟨ascii "18446744073709551616", by decide⟩
      ⟨ascii "false", by decide⟩).text (ascii "e2e") (ascii "p99") := by
  have haccepted : parseMetrics (flagDocument ⟨ascii "8", by decide⟩
      ⟨ascii "falsely", by decide⟩).text (ascii "e2e") (ascii "p99") =
      .ok ⟨doubleOf 3, ascii "mock", ascii "cpu", 8, 1, false⟩ := by decide +kernel
  have hundefined : parseMetrics (flagDocument ⟨ascii "18446744073709551616", by decide⟩
      ⟨ascii "false", by decide⟩).text (ascii "e2e") (ascii "p99") = .error .undefined := by
    decide +kernel
  refine ⟨⟨_, haccepted⟩, ?_, hundefined, fun h ↦ not_undefined h hundefined⟩
  intro h
  obtain ⟨d, ht, hs, -⟩ := h.accepted _ haccepted
  obtain rfl := Document.text_injective ht
  simp only [flagDocument, Value.Strict, strict_block_cons] at hs
  exact not_strict_falsely hs.2.2.2.2.1

end MarketData.Comparator
