import MarketData.Base.Defined
import MarketData.Exporter.Server

/-!
# Where the exporter is defined

Every reader of the exporter returns or throws, up to the conversion of an unsigned field. A
connection is therefore handled unless an unsigned field of the metrics file reads as `2 ^ 64`.
-/

namespace MarketData.Exporter

open ByteText Cpp Ieee

/-! ### Readers of one value -/

private theorem defined_requiredValue (document key : Bytes) :
    Defined (requiredValue document key) := by
  unfold requiredValue
  split
  · exact defined_ok _
  · exact defined_exception _

private theorem defined_isNull (document : Bytes) (position : Nat) :
    Defined (isNull document position) :=
  (defined_substr _ _ _).bind fun _ _ ↦ defined_ok _

private theorem defined_stringEndLoop (rest : Bytes) (cursor : Nat) (escaped : Bool) :
    Defined (stringEndLoop rest cursor escaped) := by
  induction rest generalizing cursor escaped with
  | nil => exact defined_exception _
  | cons c rest ih =>
    rw [stringEndLoop]
    split
    · exact defined_ok _
    · exact ih _ _

private theorem defined_stringEnd (document : Bytes) (position : Nat) :
    Defined (stringEnd document position) := by
  unfold stringEnd
  split
  · exact defined_exception _
  split
  · exact defined_stringEndLoop _ _ _
  · exact defined_exception _

private theorem defined_stringAtLoop (rest value : Bytes) : Defined (stringAtLoop rest value) := by
  fun_induction stringAtLoop rest value with
  | case1 => exact defined_ok _
  | case2 c rest value hb ih => exact ih
  | case3 => exact defined_exception _
  | case4 c value hb letter rest b hs ih => exact ih
  | case5 c value hb x y z w rest hs ih => exact ih
  | case6 => exact defined_exception _
  | case7 => exact defined_exception _

private theorem defined_stringAt (document : Bytes) (position : Nat) :
    Defined (stringAt document position) :=
  (defined_stringEnd _ _).bind fun _ _ ↦ defined_stringAtLoop _ _

private theorem defined_matchingContainerLoop (document rest : Bytes) (cursor skip depth : Nat) :
    Defined (matchingContainerLoop document rest cursor skip depth) := by
  induction rest generalizing cursor skip depth with
  | nil => exact defined_exception _
  | cons c rest ih =>
    cases skip with
    | succ skip => exact ih _ _ _
    | zero =>
      rw [matchingContainerLoop]
      split
      · exact (defined_stringEnd document cursor).bind fun _ _ ↦ ih _ _ _
      split
      · exact ih _ _ _
      split
      · split
        · exact defined_ok _
        · exact ih _ _ _
      · exact ih _ _ _

private theorem defined_objectAt (document : Bytes) (position : Nat) :
    Defined (objectAt document position) := by
  refine Defined.bind ?_ fun _ _ ↦ defined_substr _ _ _
  unfold matchingContainer
  split
  · exact defined_exception _
  split
  · exact defined_matchingContainerLoop _ _ _ _ _
  · exact defined_exception _

/-- `number_at` returns or throws on every text. -/
theorem defined_numberAt (document : Bytes) (position : Nat) :
    Defined (numberAt document position) := by
  refine (defined_substr _ _ _).bind fun token _ ↦ ?_
  split
  · exact defined_ok _
  · exact defined_exception _

private theorem defined_boolAt (document : Bytes) (position : Nat) :
    Defined (boolAt document position) := by
  refine (defined_substr _ _ _).bind fun _ _ ↦ ?_
  split
  · exact defined_ok _
  refine (defined_substr _ _ _).bind fun _ _ ↦ ?_
  split
  · exact defined_ok _
  · exact defined_exception _

/-! ### Fields -/

private theorem defined_objectValue (document key : Bytes) : Defined (objectValue document key) :=
  (defined_requiredValue _ _).bind fun _ _ ↦ defined_objectAt _ _

private theorem defined_stringValue (document key : Bytes) : Defined (stringValue document key) :=
  (defined_requiredValue _ _).bind fun _ _ ↦ defined_stringAt _ _

private theorem defined_numberValue (document key : Bytes) : Defined (numberValue document key) :=
  (defined_requiredValue _ _).bind fun _ _ ↦ defined_numberAt _ _

private theorem defined_boolValue (document key : Bytes) : Defined (boolValue document key) :=
  (defined_requiredValue _ _).bind fun _ _ ↦ defined_boolAt _ _

private theorem defined_optionalStringValue (document key : Bytes) :
    Defined (optionalStringValue document key) := by
  unfold optionalStringValue
  split
  · exact defined_ok _
  refine (defined_isNull _ _).bind fun _ _ ↦ ?_
  split
  · exact defined_ok _
  · exact (defined_stringAt _ _).bind fun _ _ ↦ defined_ok _

private theorem defined_optionalNumberValue (document key : Bytes) :
    Defined (optionalNumberValue document key) := by
  unfold optionalNumberValue
  split
  · exact defined_ok _
  refine (defined_isNull _ _).bind fun _ _ ↦ ?_
  split
  · exact defined_ok _
  · exact (defined_numberAt _ _).bind fun _ _ ↦ defined_ok _

private theorem defined_parseSloPassed (slo : Bytes) : Defined (parseSloPassed slo) := by
  unfold parseSloPassed
  split
  · exact defined_ok _
  refine (defined_isNull _ _).bind fun _ _ ↦ ?_
  split
  · exact defined_ok _
  · exact (defined_boolAt _ _).bind fun _ _ ↦ defined_ok _

/-! ### Unsigned fields -/

/-- The unsigned fields of a document: the object that holds one, and its key. -/
inductive UnsignedField (document : Bytes) : Bytes → Bytes → Prop where
  | root {key : Bytes} (hkey : key ∈ [ascii "schema_version", ascii "samples", ascii "input_size",
      ascii "batch_size"]) : UnsignedField document document key
  | endToEnd {latency object : Bytes}
      (hlatency : objectValue document (ascii "latency_us") = .ok latency)
      (hobject : objectValue latency (ascii "end_to_end") = .ok object) :
      UnsignedField document object (ascii "samples")
  | deviceCompute {latency object : Bytes} {position : Nat}
      (hlatency : objectValue document (ascii "latency_us") = .ok latency)
      (hfound : requiredValue latency (ascii "device_compute") = .ok position)
      (hobject : objectAt latency position = .ok object) :
      UnsignedField document object (ascii "samples")
  | validation {object : Bytes} {position : Nat}
      (hfound : requiredValue document (ascii "validation") = .ok position)
      (hobject : objectAt document position = .ok object) :
      UnsignedField document object (ascii "checked_elements")

/-- An unsigned field of the document is read as `2 ^ 64`. -/
def ReadsTwoPow64 (document : Bytes) : Prop :=
  ∃ object key x, UnsignedField document object key ∧ numberValue object key = .ok x ∧
    x.toRat = 2 ^ 64

variable {document : Bytes}

private theorem isFinite_of_numberValue {object key : Bytes} {x : Double}
    (h : numberValue object key = .ok x) : x.isFinite = true := by
  obtain ⟨position, -, h⟩ := bind_eq_ok.mp h
  obtain ⟨token, -, h⟩ := bind_eq_ok.mp h
  split at h
  · next hx =>
    obtain rfl := Except.ok.inj h
    exact isFinite_of_finiteToken hx
  · cases h

private theorem UnsignedField.defined {object key : Bytes}
    (h : UnsignedField document object key) :
    DefinedUnless (ReadsTwoPow64 document) (unsignedValue object key) := by
  refine (defined_numberValue object key).unless.bind fun x hx hundefined ↦ ?_
  exact ⟨object, key, x, h, hx,
    (unsignedOf_eq_undefined key (isFinite_of_numberValue hx)).mp hundefined⟩

private theorem parseDistribution_defined {object : Bytes}
    (h : UnsignedField document object (ascii "samples")) :
    DefinedUnless (ReadsTwoPow64 document) (parseDistribution object) := by
  refine h.defined.bind fun _ _ ↦ Defined.unless ?_
  refine (defined_numberValue _ _).bind fun _ _ ↦ ?_
  refine (defined_numberValue _ _).bind fun _ _ ↦ ?_
  refine (defined_numberValue _ _).bind fun _ _ ↦ ?_
  refine (defined_numberValue _ _).bind fun _ _ ↦ ?_
  refine (defined_numberValue _ _).bind fun _ _ ↦ ?_
  refine (defined_numberValue _ _).bind fun _ _ ↦ ?_
  refine (defined_numberValue _ _).bind fun _ _ ↦ ?_
  exact (defined_numberValue _ _).bind fun _ _ ↦ defined_ok _

private theorem parseDeviceCompute_defined {latency : Bytes}
    (hlatency : objectValue document (ascii "latency_us") = .ok latency) :
    DefinedUnless (ReadsTwoPow64 document) (parseDeviceCompute latency) := by
  refine (defined_requiredValue _ _).unless.bind fun position hfound ↦ ?_
  refine (defined_isNull _ _).unless.bind fun _ _ ↦ ?_
  split
  · exact (defined_ok _).unless
  refine (defined_objectAt _ _).unless.bind fun object hobject ↦ ?_
  exact (parseDistribution_defined (.deviceCompute hlatency hfound hobject)).bind
    fun _ _ ↦ (defined_ok _).unless

private theorem parseValidation_defined :
    DefinedUnless (ReadsTwoPow64 document) (parseValidation document) := by
  refine (defined_requiredValue _ _).unless.bind fun position hfound ↦ ?_
  refine (defined_isNull _ _).unless.bind fun _ _ ↦ ?_
  split
  · exact (defined_ok _).unless
  refine (defined_objectAt _ _).unless.bind fun object hobject ↦ ?_
  refine (defined_boolValue _ _).unless.bind fun _ _ ↦ ?_
  split
  · exact (defined_ok _).unless
  · exact (UnsignedField.validation hfound hobject).defined.bind fun _ _ ↦ (defined_ok _).unless

/-- `parse_snapshot` returns or throws unless an unsigned field is read as `2 ^ 64`. -/
theorem parseSnapshot_defined (document : Bytes) :
    DefinedUnless (ReadsTwoPow64 document) (parseSnapshot document) := by
  refine (UnsignedField.root (by decide)).defined.bind fun _ _ ↦ ?_
  refine (defined_throwUnless _ _).unless.bind fun _ _ ↦ ?_
  refine (defined_objectValue _ _).unless.bind fun _ _ ↦ ?_
  refine (defined_objectValue _ _).unless.bind fun _ _ ↦ ?_
  refine (defined_objectValue _ _).unless.bind fun latency hlatency ↦ ?_
  refine (defined_objectValue _ _).unless.bind fun endToEnd hendToEnd ↦ ?_
  refine (parseDeviceCompute_defined hlatency).bind fun _ _ ↦ ?_
  refine parseValidation_defined.bind fun _ _ ↦ ?_
  refine (defined_objectValue _ _).unless.bind fun _ _ ↦ ?_
  refine (defined_parseSloPassed _).unless.bind fun _ _ ↦ ?_
  -- the six strings, then the fields of the snapshot in their order
  refine (defined_stringValue _ _).unless.bind fun _ _ ↦ ?_
  refine (defined_stringValue _ _).unless.bind fun _ _ ↦ ?_
  refine (defined_stringValue _ _).unless.bind fun _ _ ↦ ?_
  refine (defined_stringValue _ _).unless.bind fun _ _ ↦ ?_
  refine (defined_optionalStringValue _ _).unless.bind fun _ _ ↦ ?_
  refine (defined_stringValue _ _).unless.bind fun _ _ ↦ ?_
  refine (UnsignedField.root (by decide)).defined.bind fun _ _ ↦ ?_
  refine (UnsignedField.root (by decide)).defined.bind fun _ _ ↦ ?_
  refine (UnsignedField.root (by decide)).defined.bind fun _ _ ↦ ?_
  refine (defined_boolValue _ _).unless.bind fun _ _ ↦ ?_
  refine (defined_boolValue _ _).unless.bind fun _ _ ↦ ?_
  refine (defined_numberValue _ _).unless.bind fun _ _ ↦ ?_
  refine (defined_numberValue _ _).unless.bind fun _ _ ↦ ?_
  refine (parseDistribution_defined (.endToEnd hlatency hendToEnd)).bind fun _ _ ↦ ?_
  refine (defined_stringValue _ _).unless.bind fun _ _ ↦ ?_
  refine (defined_optionalNumberValue _ _).unless.bind fun _ _ ↦ ?_
  exact (defined_optionalNumberValue _ _).unless.bind fun _ _ ↦ (defined_ok _).unless

/-! ### Connections -/

/-- The metrics file is read, and an unsigned field of it as `2 ^ 64`. -/
def Surroundings.Overflow (surroundings : Surroundings) : Prop :=
  ∃ document, surroundings.contents = .ok document ∧ ReadsTwoPow64 document

private theorem contents_defined {surroundings : Surroundings}
    (hread : Defined surroundings.contents) :
    DefinedUnless surroundings.Overflow (surroundings.contents >>= parseSnapshot) :=
  hread.unless.bind fun document hdocument hundefined ↦
    ⟨document, hdocument, parseSnapshot_defined document hundefined⟩

private theorem snapshotIsReady_ok {surroundings : Surroundings}
    (hread : Defined surroundings.contents) :
    (∃ error, snapshotIsReady surroundings = .ok error) ∨ surroundings.Overflow := by
  unfold snapshotIsReady
  split
  · exact .inl ⟨_, rfl⟩
  · exact .inl ⟨_, rfl⟩
  · next hundefined => exact .inr (contents_defined hread hundefined)

private theorem loadForScrape_ok {surroundings : Surroundings} {state : ExporterState}
    (hread : Defined surroundings.contents) (htime : Defined surroundings.modified) :
    (∃ scraped, loadForScrape surroundings state = .ok scraped) ∨ surroundings.Overflow := by
  unfold loadForScrape
  split
  · exact .inl ⟨_, rfl⟩
  · next hundefined => exact .inr (contents_defined hread hundefined)
  split
  · exact .inl ⟨_, rfl⟩
  · next hundefined => exact absurd hundefined htime
  · exact .inl ⟨_, rfl⟩

private theorem answer_ok {path : Bytes} {surroundings : Surroundings} {state : ExporterState}
    (hread : Defined surroundings.contents) (htime : Defined surroundings.modified) :
    (∃ answered, answer path surroundings state = .ok answered) ∨ surroundings.Overflow := by
  unfold answer
  split
  · exact .inl ⟨_, rfl⟩
  split
  · rcases snapshotIsReady_ok hread with ⟨error, hready⟩ | hoverflow
    · rw [hready, ok_bind]
      cases error with
      | none => exact .inl ⟨_, rfl⟩
      | some what => exact .inl ⟨_, rfl⟩
    · exact .inr hoverflow
  split
  · rcases loadForScrape_ok hread htime with ⟨scraped, hscrape⟩ | hoverflow
    · rw [hscrape, ok_bind]
      exact .inl ⟨_, rfl⟩
    · exact .inr hoverflow
  · exact .inl ⟨_, rfl⟩

/-- A connection is handled unless the metrics file overflows a field. The file is read and its
time told, or either throws. -/
theorem handleConnection_ok {c : Connection} {state : ExporterState}
    (hread : Defined c.surroundings.contents) (htime : Defined c.surroundings.modified) :
    (∃ handled, handleConnection c state = .ok handled) ∨ c.surroundings.Overflow := by
  unfold handleConnection
  split
  · exact .inl ⟨_, rfl⟩
  split
  · exact .inl ⟨_, rfl⟩
  split
  · exact .inl ⟨_, rfl⟩
  · rcases answer_ok hread htime with ⟨answered, hanswer⟩ | hoverflow
    · rw [hanswer, ok_bind]
      exact .inl ⟨_, rfl⟩
    · exact .inr hoverflow

end MarketData.Exporter
