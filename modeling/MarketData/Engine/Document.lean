import MarketData.Engine.Writer
import MarketData.Json.Layout
import MarketData.Json.Unique

/-!
# The metrics document as a tree

The writer concatenates text. Here is the tree that the text spells, for every build, all
options and all statistics. Every number slot holds a scalar token whatever number is
printed there, so the tree also covers documents that are no valid JSON.
-/

namespace MarketData

open ByteText Cpp Json

/-! ### Leaves -/

private theorem isScalarByte_digit {b : UInt8} (h : isDigit b = true) : isScalarByte b = true := by
  simp only [isScalarByte, isDelimiter, isSpace, Bool.not_eq_true', Bool.or_eq_false_iff,
    beq_eq_false_iff_ne]
  refine ⟨⟨⟨⟨⟨⟨?_, ?_⟩, ?_⟩, ⟨⟨?_, ?_⟩, ?_⟩, ?_⟩, ?_⟩, ?_⟩, ?_⟩ <;> rintro rfl <;>
    exact absurd h (by decide)

private theorem isScalarByte_printDouble (x : Double) :
    ∀ b ∈ printDouble x, isScalarByte b = true := by
  have hs : ∀ s, ∀ b ∈ Ieee.signText s, isScalarByte b = true := by decide
  cases x with
  | nan => decide
  | infinite s => cases s <;> decide
  | finite s m =>
    intro b hb
    simp only [printDouble, Ieee.formatFixed, Ieee.fixedMagnitude, List.mem_append,
      List.mem_cons] at hb
    rcases hb with hb | hb | rfl | hb
    · exact hs s b hb
    · exact isScalarByte_digit (isDigit_of_mem_decimal hb)
    · decide
    · exact isScalarByte_digit (isDigit_of_mem_paddedDecimal hb)

private theorem printDouble_ne_nil (x : Double) : printDouble x ≠ [] := by
  cases x with
  | nan => decide
  | infinite s => cases s <;> decide
  | finite s m => simp [printDouble, Ieee.formatFixed, Ieee.fixedMagnitude]

/-- The token `null`. -/
def nullNode : Value := .scalar ⟨ascii "null", by decide⟩

/-- The token of a flag. -/
def boolNode (flag : Bool) : Value := .scalar ⟨printBool flag, by cases flag <;> decide⟩

/-- The token of a floating point number. -/
def doubleNode (x : Double) : Value :=
  .scalar ⟨printDouble x, printDouble_ne_nil x, isScalarByte_printDouble x⟩

/-- The token of an unsigned integer. -/
def unsignedNode (n : UInt64) : Value :=
  .scalar ⟨printUnsigned n, decimal_ne_nil _,
    fun _ hb ↦ isScalarByte_digit (isDigit_of_mem_decimal hb)⟩

private theorem finiteToken_infinite : ∀ s,
    Ieee.finiteToken? (printDouble (.infinite s)) = none := by
  decide +kernel

private theorem finiteToken_nan : Ieee.finiteToken? (printDouble .nan) = none := by
  decide +kernel

/-- A printed floating point number converts back rounded, unless it is not finite. -/
theorem finiteToken_printDouble (x : Double) :
    Ieee.finiteToken? (printDouble x) =
      if x.isFinite = true then some (x.roundDecimals 6) else none := by
  by_cases h : x.isFinite = true
  · rw [if_pos h, printDouble,
      Ieee.finiteToken_formatFixed (by decide) Ieee.leastNormal_le_six_decimals h]
  · rw [if_neg h]
    cases x with
    | nan => rw [finiteToken_nan]
    | infinite s => rw [finiteToken_infinite]
    | finite s m => exact absurd rfl h

/-- A printed unsigned integer converts back to its `double`. -/
theorem finiteToken_printUnsigned (n : UInt64) :
    Ieee.finiteToken? (printUnsigned n) = some (doubleOf n) := Ieee.finiteToken_decimal n.toNat_lt

/-- A floating point number after writing and reading. -/
def readDouble (x : Double) : Checked Double :=
  if x.isFinite then .ok (x.roundDecimals 6)
  else .error (.exception (ascii "expected a finite JSON number"))

private theorem isHexDigit_hexDigitByte : ∀ d < 16, isHexDigit (hexDigitByte d) = true := by
  decide

/-- The piece that `escape_json` writes for one byte. -/
def escapePiece (c : UInt8) : Piece :=
  if hq : c = quote then .escape quote rfl
  else if hb : c = backslash then .escape backslash rfl
  else if c = 8 then .escape 98 rfl
  else if c = 12 then .escape 102 rfl
  else if c = 10 then .escape 110 rfl
  else if c = 13 then .escape 114 rfl
  else if c = 9 then .escape 116 rfl
  else if hc : c < 0x20 then
    .unicode 48 48 (hexDigitByte (c.toNat / 16)) (hexDigitByte (c.toNat % 16)) (by
      have hn : c.toNat < 32 := by simpa [UInt8.lt_iff_toNat_lt] using hc
      have h1 := isHexDigit_hexDigitByte (c.toNat / 16) (by omega)
      have h2 := isHexDigit_hexDigitByte (c.toNat % 16) (by omega)
      have h0 : isHexDigit 48 = true := by decide
      simp [h0, h1, h2])
  else .plain c ⟨hq, hb⟩

/-- The literal that `escape_json` writes. -/
def escapeLiteral (value : Bytes) : Literal := value.map escapePiece

private theorem text_escapePiece (c : UInt8) : (escapePiece c).text = escapeByte c := by
  unfold escapePiece escapeByte
  split
  · rfl
  · repeat' split
    all_goals rfl

/-- The escaped literal spells the output of `escape_json`. -/
theorem text_escapeLiteral (value : Bytes) : (escapeLiteral value).text = escapeJson value := by
  rw [Literal.text, escapeLiteral, escapeJson, List.flatMap_map]
  exact congrArg (fun f ↦ value.flatMap f) (funext text_escapePiece)

/-- The node of a string. -/
def stringNode (value : Bytes) : Value := .string (escapeLiteral value)

/-! ### Nodes -/

/-- A key of the document. -/
def key (name : String) (h : IsKey (ascii name) := by decide) : Key := ⟨name, h⟩

/-! Keys that documents of other writers have too. -/

/-- `samples` is a key. -/
theorem isKey_samples : IsKey (ascii "samples") := by decide

/-- `latency_us` is a key. -/
theorem isKey_latencyUs : IsKey (ascii "latency_us") := by decide

/-- `backend` is a key. -/
theorem isKey_backend : IsKey (ascii "backend") := by decide

/-- `environment` is a key. -/
theorem isKey_environment : IsKey (ascii "environment") := by decide

/-- `device` is a key. -/
theorem isKey_device : IsKey (ascii "device") := by decide

/-- `input_size` is a key. -/
theorem isKey_inputSize : IsKey (ascii "input_size") := by decide

/-- `batch_size` is a key. -/
theorem isKey_batchSize : IsKey (ascii "batch_size") := by decide

/-- `cuda_graph` is a key. -/
theorem isKey_cudaGraph : IsKey (ascii "cuda_graph") := by decide

/-- `end_to_end` is a key. -/
theorem isKey_endToEnd : IsKey (ascii "end_to_end") := by decide

/-- `p99` is a key. -/
theorem isKey_p99 : IsKey (ascii "p99") := by decide

/-- The node of a runtime string. -/
def optionalStringNode (value : Bytes) : Value := if value = [] then nullNode else stringNode value

/-- The node of the device memory. -/
def deviceMemoryNode (bytes : UInt64) : Value := if bytes = 0 then nullNode else unsignedNode bytes

/-- The node of a distribution. -/
def distributionNode (d : LatencyDistribution) : Value :=
  .object (block 6 (lineBreak 4) (key "samples") (unsignedNode d.samples) [
    (key "mean", doubleNode d.meanUs),
    (key "min", doubleNode d.minUs),
    (key "p50", doubleNode d.p50Us),
    (key "p90", doubleNode d.p90Us),
    (key "p95", doubleNode d.p95Us),
    (key "p99", doubleNode d.p99Us),
    (key "max", doubleNode d.maxUs),
    (key "stddev", doubleNode d.stddevUs)])

/-- The node of the device distribution. -/
def deviceComputeNode (distribution : Option LatencyDistribution) : Value :=
  match distribution with
  | some d => distributionNode d
  | none => nullNode

/-- The node of the build. -/
def buildNode (build : Build) : Value :=
  .object (block 4 (lineBreak 2) (key "version") (stringNode build.version) [
    (key "revision", stringNode build.revision)])

/-- The node of the runtime metadata. -/
def environmentNode (r : RuntimeMetadata) : Value :=
  .object (block 4 (lineBreak 2) (key "backend_version") (optionalStringNode r.backendVersion) [
    (key "device", optionalStringNode r.deviceName),
    (key "compute_capability", optionalStringNode r.computeCapability),
    (key "cuda_runtime", optionalStringNode r.cudaRuntimeVersion),
    (key "cuda_driver", optionalStringNode r.cudaDriverVersion),
    (key "device_memory_bytes", deviceMemoryNode r.deviceMemoryBytes)])

/-- The node of the latencies. -/
def latencyNode (stats : InferenceStats) : Value :=
  .object (block 4 (lineBreak 2) (key "end_to_end") (distributionNode stats.endToEnd) [
    (key "device_compute", deviceComputeNode stats.deviceCompute)])

/-- The node of the validation. -/
def validationNode (tolerance : Double) (validation : Option OutputValidation) : Value :=
  match validation with
  | some v =>
    .object (block 4 (lineBreak 2) (key "kind") (stringNode (ascii "identity")) [
      (key "tolerance", doubleNode tolerance),
      (key "compared_elements", unsignedNode v.comparedElements),
      (key "mismatches", unsignedNode v.mismatches),
      (key "max_abs_error", doubleNode v.maxAbsError),
      (key "passed", boolNode v.passed)])
  | none => nullNode

/-- The node of the target. -/
def targetNode (target : Double) : Value :=
  if Ieee.Number.zero.lt target then doubleNode target else nullNode

/-- The node of the observed percentile. -/
def observedNode (selected : Option LatencyDistribution) : Value :=
  match selected with
  | some selected => doubleNode selected.p99Us
  | none => nullNode

/-- The node of the SLO verdict. -/
def sloPassedNode (target : Double) (selected : Option LatencyDistribution) : Value :=
  if target.le .zero then nullNode
  else
    match selected with
    | some selected => boolNode (selected.p99Us.le target)
    | none => boolNode false

/-- The node of the SLO. -/
def sloNode (options : RunOptions) (stats : InferenceStats) : Value :=
  .object (block 4 (lineBreak 2) (key "scope") (stringNode (scopeName options.targetScope)) [
    (key "target_us", targetNode options.targetLatencyUs),
    (key "observed_p99_us", observedNode (selectedDistribution options stats)),
    (key "passed", sloPassedNode options.targetLatencyUs (selectedDistribution options stats))])

/-- The members of the root between the first and the last. -/
def rootFields (build : Build) (options : RunOptions) (stats : InferenceStats) :
    List (Key × Value) := [
    (key "build", buildNode build),
    (key "model", stringNode options.modelPath),
    (key "backend", stringNode stats.backend),
    (key "requested_backend", stringNode options.requestedBackend),
    (key "fallback_used", boolNode options.fallbackUsed),
    (key "cuda_graph", boolNode stats.cudaGraph),
    (key "environment", environmentNode stats.runtime),
    (key "samples", unsignedNode stats.endToEnd.samples),
    (key "input_size", unsignedNode options.inputSize),
    (key "batch_size", unsignedNode options.batchSize),
    (key "latency_us", latencyNode stats),
    (key "mean_us", doubleNode stats.endToEnd.meanUs),
    (key "min_us", doubleNode stats.endToEnd.minUs),
    (key "p50_us", doubleNode stats.endToEnd.p50Us),
    (key "p90_us", doubleNode stats.endToEnd.p90Us),
    (key "p95_us", doubleNode stats.endToEnd.p95Us),
    (key "p99_us", doubleNode stats.endToEnd.p99Us),
    (key "max_us", doubleNode stats.endToEnd.maxUs),
    (key "stddev_us", doubleNode stats.endToEnd.stddevUs),
    (key "throughput_ips", doubleNode stats.throughputInferencesPerSecond),
    (key "throughput_samples_per_second", doubleNode stats.throughputSamplesPerSecond),
    (key "validation", validationNode options.validationTolerance stats.validation)]

/-- The members of the root, with `close` before its closing brace. -/
def rootMembers (close : Space) (build : Build) (options : RunOptions) (stats : InferenceStats) :
    Members :=
  block 2 close (key "schema_version") (unsignedNode 2)
    (rootFields build options stats ++ [(key "slo", sloNode options stats)])

/-- The root of the metrics document. -/
def metricsNode (build : Build) (options : RunOptions) (stats : InferenceStats) : Value :=
  .object (rootMembers (lineBreak 0) build options stats)

/-- The whole document, with whitespace behind its root. -/
def metricsDocument (after : Space) (build : Build) (options : RunOptions)
    (stats : InferenceStats) : Document := ⟨noSpace, metricsNode build options stats, after⟩

/-! ### The text of the nodes -/

/-- The text of a string stands between quotes. -/
theorem text_stringNode (value : Bytes) :
    (stringNode value).text = ascii "\"" ++ (escapeJson value ++ ascii "\"") := by
  rw [stringNode, Value.text, Literal.quoted, text_escapeLiteral]
  rfl

private theorem text_optionalStringNode (value : Bytes) :
    (optionalStringNode value).text = writeOptionalString value := by
  unfold optionalStringNode writeOptionalString
  split
  · rfl
  · rw [text_stringNode]
    simp [stream]

set_option maxRecDepth 4000 in
private theorem text_distributionNode (d : LatencyDistribution) :
    (distributionNode d).text = writeDistribution d 4 := by
  simp only [distributionNode, Value.text, text_block_cons, text_block_nil, text_fieldName,
    List.append_assoc, List.cons_append, writeDistribution, stream,
    List.flatten_cons, List.flatten_nil, List.append_nil]
  rfl

private theorem text_deviceComputeNode (d : Option LatencyDistribution) :
    (deviceComputeNode d).text = writeDeviceCompute d := by
  cases d with
  | none => rfl
  | some d => exact text_distributionNode d

private theorem text_deviceMemoryNode (bytes : UInt64) :
    (deviceMemoryNode bytes).text = writeDeviceMemory bytes := by
  unfold deviceMemoryNode writeDeviceMemory
  split <;> rfl

private theorem text_validationNode (tolerance : Double) (validation : Option OutputValidation) :
    (validationNode tolerance validation).text = writeValidation tolerance validation := by
  cases validation with
  | none => rfl
  | some v =>
    simp only [validationNode, Value.text, text_block_cons, text_block_nil, text_fieldName,
      List.append_assoc, List.cons_append, text_stringNode]
    rfl

private theorem text_targetNode (target : Double) :
    (targetNode target).text = writeTarget target := by
  unfold targetNode writeTarget
  split <;> rfl

private theorem text_observedNode (selected : Option LatencyDistribution) :
    (observedNode selected).text = writeObserved selected := by
  cases selected <;> rfl

private theorem text_sloPassedNode (target : Double) (selected : Option LatencyDistribution) :
    (sloPassedNode target selected).text = writeSloPassed target selected := by
  unfold sloPassedNode writeSloPassed
  split
  · rfl
  · cases selected <;> rfl

private theorem text_buildNode (build : Build) :
    (buildNode build).text = stream [ascii "\x7b\n",
      ascii "    \"version\": \"", escapeJson build.version, ascii "\",\n",
      ascii "    \"revision\": \"", escapeJson build.revision, ascii "\"\n",
      ascii "  \x7d"] := by
  simp only [buildNode, Value.text, text_block_cons, text_block_nil, text_fieldName,
    List.append_assoc, List.cons_append, text_stringNode, stream, List.flatten_cons,
    List.flatten_nil, List.append_nil]
  rfl

set_option maxRecDepth 4000 in
private theorem text_environmentNode (r : RuntimeMetadata) :
    (environmentNode r).text = stream [ascii "\x7b\n",
      ascii "    \"backend_version\": ", writeOptionalString r.backendVersion,
      ascii ",\n    \"device\": ", writeOptionalString r.deviceName,
      ascii ",\n    \"compute_capability\": ", writeOptionalString r.computeCapability,
      ascii ",\n    \"cuda_runtime\": ", writeOptionalString r.cudaRuntimeVersion,
      ascii ",\n    \"cuda_driver\": ", writeOptionalString r.cudaDriverVersion,
      ascii ",\n    \"device_memory_bytes\": ", writeDeviceMemory r.deviceMemoryBytes,
      ascii "\n  \x7d"] := by
  simp only [environmentNode, Value.text, text_block_cons, text_block_nil, text_fieldName,
    List.append_assoc, List.cons_append, text_optionalStringNode, text_deviceMemoryNode, stream,
    List.flatten_cons, List.flatten_nil, List.append_nil]
  rfl

private theorem text_latencyNode (stats : InferenceStats) :
    (latencyNode stats).text = stream [ascii "\x7b\n",
      ascii "    \"end_to_end\": ", writeDistribution stats.endToEnd 4,
      ascii ",\n    \"device_compute\": ", writeDeviceCompute stats.deviceCompute,
      ascii "\n  \x7d"] := by
  simp only [latencyNode, Value.text, text_block_cons, text_block_nil, text_fieldName,
    List.append_assoc, List.cons_append, text_distributionNode, text_deviceComputeNode, stream,
    List.flatten_cons, List.flatten_nil, List.append_nil]
  rfl

private theorem escapeJson_scopeName (scope : LatencyScope) :
    escapeJson (scopeName scope) = scopeName scope := by
  cases scope <;> rfl

private theorem text_sloNode (options : RunOptions) (stats : InferenceStats) :
    (sloNode options stats).text = stream [ascii "\x7b\n",
      ascii "    \"scope\": \"", scopeName options.targetScope, ascii "\",\n",
      ascii "    \"target_us\": ", writeTarget options.targetLatencyUs,
      ascii ",\n    \"observed_p99_us\": ", writeObserved (selectedDistribution options stats),
      ascii ",\n    \"passed\": ",
        writeSloPassed options.targetLatencyUs (selectedDistribution options stats),
      ascii "\n  \x7d"] := by
  simp only [sloNode, Value.text, text_block_cons, text_block_nil, text_fieldName,
    List.append_assoc, List.cons_append, text_stringNode, escapeJson_scopeName, text_targetNode,
    text_observedNode, text_sloPassedNode, stream, List.flatten_cons, List.flatten_nil,
    List.append_nil]
  rfl

set_option maxRecDepth 10000 in
/-- The writer spells the tree, followed by a line break. -/
theorem formatMetricsJson_eq (build : Build) (options : RunOptions) (stats : InferenceStats) :
    formatMetricsJson build options stats =
      openBrace :: ((rootMembers noSpace build options stats).text ++ ascii "\n\x7d\n") := by
  simp only [rootMembers, rootFields, List.cons_append, List.nil_append, text_block_cons,
    text_block_nil, text_fieldName, List.append_assoc, text_stringNode, text_buildNode,
    text_environmentNode, text_latencyNode,
    text_validationNode, text_sloNode, formatMetricsJson, stream, List.flatten_cons,
    List.flatten_nil, List.append_nil]
  rfl

/-- The text of the document, up to what follows the last member of its root. -/
theorem text_metricsDocument (after : Space) (build : Build) (options : RunOptions)
    (stats : InferenceStats) :
    (metricsDocument after build options stats).text =
      openBrace :: ((rootMembers noSpace build options stats).text ++
        newline :: closeBrace :: after.val) := by
  rw [Document.text, metricsDocument, metricsNode, Value.text, rootMembers, text_block_close]
  simp [rootMembers, noSpace, lineBreak]

/-- The writer spells the document with a line break behind its root. -/
theorem formatMetricsJson_document (build : Build) (options : RunOptions)
    (stats : InferenceStats) :
    formatMetricsJson build options stats =
      (metricsDocument (lineBreak 0) build options stats).text := by
  rw [text_metricsDocument, formatMetricsJson_eq]
  rfl

/-- The document has the members that the writer writes between the first and the last. -/
theorem hasMember_formatMetricsJson {build : Build} {options : RunOptions} {stats : InferenceStats}
    {k : Key} {v : Value} {value : Bytes} (h : (k, v) ∈ rootFields build options stats) :
    HasMember (formatMetricsJson build options stats) (ascii k.name) value ↔ v.text = value := by
  rw [formatMetricsJson_document, hasMember_text]
  have hmember : (metricsNode build options stats).directNamed (fun l ↦ l.text == ascii k.name) =
      some v := directNamed_block_of_mem (by simp [rootFields, key])
    (List.mem_cons_of_mem _ (List.mem_append_left _ h))
  rw [metricsDocument, hmember, Option.map_some, Option.some_inj]

end MarketData
