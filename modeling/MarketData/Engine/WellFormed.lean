import MarketData.Engine.Document
import MarketData.Json.Unique

/-!
# When a metrics document is JSON

The writer streams every floating point number as it is, and a stream prints an infinity
or a NaN as a word that is no JSON value. Everything else in a document is well formed
for every build, all options and all statistics.
-/

namespace MarketData

open ByteText Cpp Json

/-- The floating point numbers that a document prints. -/
def printed (options : RunOptions) (stats : InferenceStats) : List Double :=
  stats.endToEnd.numbers ++ (stats.deviceCompute.toList.flatMap LatencyDistribution.numbers ++
    stats.throughputInferencesPerSecond :: stats.throughputSamplesPerSecond ::
    (stats.validation.toList.flatMap (fun v ↦ [options.validationTolerance, v.maxAbsError]) ++
      if Ieee.Number.zero.lt options.targetLatencyUs then [options.targetLatencyUs] else []))

/-! ### Tokens -/

private theorem isWhole_decimal (n : Nat) : IsWhole (decimal n) := by
  rcases decimal_head n with h | ⟨b, rest, h, hb⟩
  · exact .inl h
  · exact .inr ⟨b, rest, h, hb, fun c hc ↦ isDigit_of_mem_decimal hc⟩

private theorem isNumber_decimal (n : Nat) : IsNumber (decimal n) :=
  ⟨[], decimal n, [], [], by simp, .inl rfl, isWhole_decimal n, .inl rfl, .inl rfl⟩

private theorem isNumber_fixed (s : Bool) (whole fraction : Nat) :
    IsNumber (Ieee.signText s ++ (decimal whole ++ 46 :: paddedDecimal 6 fraction)) := by
  have hsign : Ieee.signText s = [] ∨ Ieee.signText s = [45] := by cases s <;> simp [Ieee.signText]
  have hne : paddedDecimal 6 fraction ≠ [] := by simp [paddedDecimal, decimal_ne_nil]
  refine ⟨Ieee.signText s, decimal whole, 46 :: paddedDecimal 6 fraction, [], ?_, hsign,
    isWhole_decimal _, .inr ⟨_, rfl, hne, fun c hc ↦ isDigit_of_mem_paddedDecimal hc⟩, .inl rfl⟩
  simp only [List.append_nil, List.append_assoc]

private theorem exists_digit_of_isNumber {t : Bytes} (h : IsNumber t) :
    ∃ b ∈ t, isDigit b = true := by
  obtain ⟨sign, whole, fraction, exponent, rfl, -, hw, -, -⟩ := h
  rcases hw with rfl | ⟨b, rest, rfl, -, hd⟩
  · exact ⟨48, by simp, by decide⟩
  · exact ⟨b, by simp, hd b (by simp)⟩

private theorem not_strict_of_no_digit {t : Token} (hd : ∀ b ∈ t.val, isDigit b = false)
    (hn : t.val ≠ ascii "null" ∧ t.val ≠ ascii "true" ∧ t.val ≠ ascii "false") : ¬ t.Strict := by
  rintro (h | h | h | h)
  · exact hn.1 h
  · exact hn.2.1 h
  · exact hn.2.2 h
  · obtain ⟨b, hb, hbd⟩ := exists_digit_of_isNumber h
    rw [hd b hb] at hbd
    cases hbd

/-- A printed floating point number is a JSON number exactly when it is finite. -/
theorem strict_doubleNode (x : Double) : (doubleNode x).Strict ↔ x.isFinite = true := by
  rw [doubleNode, Value.Strict]
  cases x with
  | nan =>
    refine iff_of_false (not_strict_of_no_digit ?_ ?_) (by decide)
    · decide
    · decide
  | infinite s =>
    refine iff_of_false (not_strict_of_no_digit ?_ ?_) (by cases s <;> decide)
    · cases s <;> decide
    · cases s <;> decide
  | finite s m => exact iff_of_true (.inr (.inr (.inr (isNumber_fixed s _ _)))) rfl

/-- A printed integer is a JSON number. -/
theorem strict_unsignedNode (n : UInt64) : (unsignedNode n).Strict :=
  .inr (.inr (.inr (isNumber_decimal _)))

private theorem strict_nullNode : nullNode.Strict := .inl rfl

/-- A printed boolean is a literal name. -/
theorem strict_boolNode (flag : Bool) : (boolNode flag).Strict := by
  cases flag
  · exact .inr (.inr (.inl rfl))
  · exact .inr (.inl rfl)

/-! ### Strings -/

private theorem strict_escapePiece (c : UInt8) : (escapePiece c).Strict := by
  unfold escapePiece
  repeat' split
  all_goals first
    | exact trivial
    | simpa [Piece.Strict] using ‹¬ c < 0x20›

/-- A string is strict, whatever bytes it holds. -/
theorem strict_stringNode (value : Bytes) : (stringNode value).Strict := by
  intro p hp
  obtain ⟨c, -, rfl⟩ := List.mem_map.mp hp
  exact strict_escapePiece c

private theorem strict_optionalStringNode (value : Bytes) : (optionalStringNode value).Strict := by
  unfold optionalStringNode
  split
  · exact strict_nullNode
  · exact strict_stringNode value

private theorem strict_deviceMemoryNode (bytes : UInt64) : (deviceMemoryNode bytes).Strict := by
  unfold deviceMemoryNode
  split
  · exact strict_nullNode
  · exact strict_unsignedNode bytes

/-! ### Objects -/

private theorem strict_buildNode (build : Build) : (buildNode build).Strict := by
  simp only [buildNode, Value.Strict, strict_block_cons, strict_block_nil]
  exact ⟨strict_stringNode _, strict_stringNode _⟩

private theorem strict_environmentNode (r : RuntimeMetadata) : (environmentNode r).Strict := by
  simp only [environmentNode, Value.Strict, strict_block_cons, strict_block_nil]
  exact ⟨strict_optionalStringNode _, strict_optionalStringNode _, strict_optionalStringNode _,
    strict_optionalStringNode _, strict_optionalStringNode _, strict_deviceMemoryNode _⟩

private theorem strict_distributionNode (d : LatencyDistribution) :
    (distributionNode d).Strict ↔ ∀ x ∈ d.numbers, x.isFinite = true := by
  simp only [distributionNode, Value.Strict, strict_block_cons, strict_block_nil,
    strict_doubleNode, strict_unsignedNode, true_and, LatencyDistribution.numbers,
    List.forall_mem_cons, List.not_mem_nil, false_imp_iff, implies_true, and_true]

private theorem strict_deviceComputeNode (d : Option LatencyDistribution) :
    (deviceComputeNode d).Strict ↔
      ∀ x ∈ d.toList.flatMap LatencyDistribution.numbers, x.isFinite = true := by
  cases d with
  | none => exact iff_of_true strict_nullNode (by simp)
  | some d => simpa [deviceComputeNode] using strict_distributionNode d

private theorem strict_latencyNode (stats : InferenceStats) :
    (latencyNode stats).Strict ↔ (∀ x ∈ stats.endToEnd.numbers, x.isFinite = true) ∧
      ∀ x ∈ stats.deviceCompute.toList.flatMap LatencyDistribution.numbers, x.isFinite = true := by
  simp only [latencyNode, Value.Strict, strict_block_cons, strict_block_nil,
    strict_distributionNode, strict_deviceComputeNode]

private theorem strict_validationNode (tolerance : Double) (validation : Option OutputValidation) :
    (validationNode tolerance validation).Strict ↔
      ∀ x ∈ validation.toList.flatMap (fun v ↦ [tolerance, v.maxAbsError]), x.isFinite = true := by
  cases validation with
  | none => exact iff_of_true strict_nullNode (by simp)
  | some v =>
    simp [validationNode, Value.Strict, strict_block_cons, strict_block_nil, strict_doubleNode,
      strict_unsignedNode, strict_boolNode, strict_stringNode]

private theorem strict_targetNode (target : Double) :
    (targetNode target).Strict ↔
      ∀ x ∈ (if Ieee.Number.zero.lt target then [target] else []), x.isFinite = true := by
  unfold targetNode
  split
  · simpa using strict_doubleNode target
  · exact iff_of_true strict_nullNode (by simp)

private theorem strict_sloPassedNode (target : Double) (selected : Option LatencyDistribution) :
    (sloPassedNode target selected).Strict := by
  unfold sloPassedNode
  split
  · exact strict_nullNode
  · cases selected with
    | none => exact strict_boolNode _
    | some d => exact strict_boolNode _

private theorem strict_observedNode {options : RunOptions} {stats : InferenceStats}
    (he : ∀ x ∈ stats.endToEnd.numbers, x.isFinite = true)
    (hd : ∀ x ∈ stats.deviceCompute.toList.flatMap LatencyDistribution.numbers,
      x.isFinite = true) :
    (observedNode (selectedDistribution options stats)).Strict := by
  unfold selectedDistribution
  cases options.targetScope with
  | endToEnd => exact (strict_doubleNode _).mpr (he _ (by simp [LatencyDistribution.numbers]))
  | deviceCompute =>
    cases hs : stats.deviceCompute with
    | none => exact strict_nullNode
    | some d =>
      refine (strict_doubleNode _).mpr (hd _ ?_)
      rw [hs]
      simp [LatencyDistribution.numbers]

/-- The tree of a document is strict exactly when the numbers it prints are finite. -/
theorem strict_metricsNode (build : Build) (options : RunOptions) (stats : InferenceStats) :
    (metricsNode build options stats).Strict ↔
      ∀ x ∈ printed options stats, x.isFinite = true := by
  simp only [metricsNode, Value.Strict, rootMembers, rootFields, List.cons_append, List.nil_append,
    strict_block_cons, strict_block_nil, strict_unsignedNode, strict_buildNode, strict_stringNode,
    strict_boolNode, strict_environmentNode, strict_latencyNode, strict_doubleNode,
    strict_validationNode, sloNode, strict_targetNode, strict_sloPassedNode, printed,
    List.forall_mem_append, List.forall_mem_cons, true_and, and_true]
  constructor
  · rintro ⟨⟨he, hd⟩, -, -, -, -, -, -, -, -, hi, hs, hv, ht, -⟩
    exact ⟨he, hd, hi, hs, hv, ht⟩
  · rintro ⟨he, hd, hi, hs, hv, ht⟩
    have hn : ∀ x ∈ stats.endToEnd.numbers, x.isFinite = true := he
    simp only [LatencyDistribution.numbers, List.forall_mem_cons] at hn
    obtain ⟨h1, h2, h3, h4, h5, h6, h7, h8, -⟩ := hn
    exact ⟨⟨he, hd⟩, h1, h2, h3, h4, h5, h6, h7, h8, hi, hs, hv, ht, strict_observedNode he hd⟩

/-- A document is a JSON object exactly when the numbers it prints are finite. -/
theorem isObjectText_formatMetricsJson (build : Build) (options : RunOptions)
    (stats : InferenceStats) :
    IsObjectText (formatMetricsJson build options stats) ↔
      ∀ x ∈ printed options stats, x.isFinite = true := by
  rw [formatMetricsJson_document, isObjectText_text]
  exact (and_iff_left rfl).trans (strict_metricsNode build options stats)

end MarketData
