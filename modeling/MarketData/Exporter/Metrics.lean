import MarketData.Engine.Document
import MarketData.Exporter.Values

/-!
# What the exporter reads from a metrics document

The snapshot of a document in terms of the options and statistics it was written for.
Every floating point number passes through six decimals, every unsigned integer through a
`double`, and a control character without an escape letter of its own becomes a question
mark. The reader fails when a number it needs is not finite or the device name is missing.
-/

namespace MarketData.Exporter

open ByteText Cpp Json

/-! ### Leaves -/

/-- A byte of a string after writing and reading. -/
def readByte (c : UInt8) : UInt8 :=
  if c < 32 ∧ c ≠ 8 ∧ c ≠ 9 ∧ c ≠ 10 ∧ c ≠ 12 ∧ c ≠ 13 then 63 else c

/-- A string after writing and reading. -/
def readString (value : Bytes) : Bytes := value.map readByte

private theorem numberOf_scalar (t : Token) :
    numberOf (.scalar t) =
      match Ieee.finiteToken? t.val with
      | some x => .ok x
      | none => .error (.exception (ascii "expected a finite JSON number")) := by
  have ht : t.val.takeWhile (fun b ↦ !isDelimiter b) = t.val :=
    List.takeWhile_eq_self_iff.mpr
      (fun b hb ↦ by simpa using isDelimiter_of_isScalarByte (t.property.2 b hb))
  have hn : numberOf (.scalar t) =
      match Ieee.finiteToken? (t.val.takeWhile (fun b ↦ !isDelimiter b)) with
      | some x => .ok x
      | none => .error (.exception (ascii "expected a finite JSON number")) := rfl
  rw [hn, ht]

/-- A printed floating point number reads back rounded, unless it is not finite. -/
theorem numberOf_doubleNode (x : Double) : numberOf (doubleNode x) = readDouble x := by
  rw [doubleNode, numberOf_scalar]
  simp only [finiteToken_printDouble, readDouble]
  by_cases h : x.isFinite = true <;> simp only [h, if_true, if_false, Bool.false_eq_true]

/-- A printed unsigned integer reads back as its `double`. -/
theorem numberOf_unsignedNode (n : UInt64) : numberOf (unsignedNode n) = .ok (doubleOf n) := by
  rw [unsignedNode, numberOf_scalar]
  simp only [finiteToken_printUnsigned]

/-- A printed flag reads back. -/
theorem boolOf_boolNode (flag : Bool) : boolOf (boolNode flag) = .ok flag := by
  cases flag <;> rfl

private theorem stringAtLoop_escapeByte (c : UInt8) (rest value : Bytes) :
    stringAtLoop (escapeByte c ++ rest) value = stringAtLoop rest (value ++ [readByte c]) := by
  unfold escapeByte
  split
  · next h => subst h; rfl
  split
  · next h => subst h; rfl
  split
  · next h => subst h; rfl
  split
  · next h => subst h; rfl
  split
  · next h => subst h; rfl
  split
  · next h => subst h; rfl
  split
  · next h => subst h; rfl
  split
  · next h8 h12 h10 h13 h9 h =>
    rw [readByte, if_pos ⟨h, h8, h9, h10, h12, h13⟩]
    rfl
  · next h34 h92 _ _ _ _ _ h =>
    rw [readByte, if_neg (fun hc ↦ h hc.1), List.singleton_append]
    conv_lhs => unfold stringAtLoop
    exact if_pos h92

/-- A printed string reads back byte by byte. -/
theorem stringOf_stringNode (value : Bytes) :
    stringOf (stringNode value) = .ok (readString value) := by
  have hloop : ∀ acc, stringAtLoop (escapeJson value) acc = .ok (acc ++ readString value) := by
    induction value with
    | nil => intro acc; simp [escapeJson, stringAtLoop, readString]
    | cons c value ih =>
      intro acc
      have hc : escapeJson (c :: value) = escapeByte c ++ escapeJson value := rfl
      rw [hc, stringAtLoop_escapeByte, ih]
      simp [readString]
  rw [stringNode, stringOf, text_escapeLiteral, hloop, List.nil_append]

private theorem nullOf_doubleNode (x : Double) : nullOf (doubleNode x) = false := by
  cases x with
  | nan => decide
  | infinite s => cases s <;> decide
  | finite s m =>
    change (ascii "null").isPrefixOf (Ieee.signText s ++ Ieee.fixedMagnitude 6 m.toRat) = false
    cases s with
    | true => rfl
    | false =>
      obtain ⟨b, rest, hb⟩ := List.exists_cons_of_ne_nil
        (decimal_ne_nil (Ieee.roundHalfEven (m.toRat * 10 ^ 6) / 10 ^ 6))
      have hd : isDigit b = true := isDigit_of_mem_decimal (by rw [hb]; simp)
      have hn : ((110 : UInt8) == b) = false := by
        apply beq_false_of_ne
        intro h
        subst h
        exact absurd hd (by decide)
      simp only [Ieee.signText, Ieee.fixedMagnitude, hb]
      change ((110 : UInt8) == b && _) = false
      rw [hn, Bool.false_and]

private theorem nullOf_boolNode (flag : Bool) : nullOf (boolNode flag) = false := by
  cases flag <;> rfl

/-! ### Nodes -/

/-- A distribution after writing and reading. -/
def readDistribution (d : LatencyDistribution) : Checked Distribution := do
  return {
    samples := ← unsignedOf (ascii "samples") (doubleOf d.samples)
    mean := ← readDouble d.meanUs
    minimum := ← readDouble d.minUs
    p50 := ← readDouble d.p50Us
    p90 := ← readDouble d.p90Us
    p95 := ← readDouble d.p95Us
    p99 := ← readDouble d.p99Us
    maximum := ← readDouble d.maxUs
    stddev := ← readDouble d.stddevUs }

@[simp] private theorem under_doubleNode (x : Double) (name : Bytes) :
    under (doubleNode x) name = none := rfl

@[simp] private theorem under_unsignedNode (n : UInt64) (name : Bytes) :
    under (unsignedNode n) name = none := rfl

@[simp] private theorem under_boolNode (flag : Bool) (name : Bytes) :
    under (boolNode flag) name = none := rfl

@[simp] private theorem under_stringNode (value name : Bytes) :
    under (stringNode value) name = none := rfl

@[simp] private theorem under_optionalStringNode (value name : Bytes) :
    under (optionalStringNode value) name = none := by
  unfold optionalStringNode
  split <;> rfl

@[simp] private theorem key_name (name : String) (h : IsKey (ascii name)) :
    (key name h).name = name := rfl

private theorem distributionOf_distributionNode (d : LatencyDistribution) :
    distributionOf (distributionNode d) = readDistribution d := by
  simp [distributionOf, distributionNode, unsignedIn, numberIn, required, under_block_cons,
    under_block_nil, key_name, under_doubleNode, under_unsignedNode, numberOf_doubleNode,
    numberOf_unsignedNode, readDistribution, -bind_pure_comp]

/-- An optional string after writing and reading. -/
def readOptionalString (value : Bytes) : Option Bytes :=
  if value = [] then none else some (readString value)

/-- The device name after writing and reading: a missing name was written as `null`. -/
def readDevice (name : Bytes) : Checked Bytes :=
  if name = [] then .error (.exception (ascii "expected a JSON string")) else .ok (readString name)

/-- The target after writing and reading. -/
def readTarget (target : Double) : Checked (Option Double) :=
  if Ieee.Number.zero.lt target then some <$> readDouble target else .ok none

/-- The observed percentile after writing and reading. -/
def readObserved (selected : Option LatencyDistribution) : Checked (Option Double) :=
  match selected with
  | some selected => some <$> readDouble selected.p99Us
  | none => .ok none

/-- The SLO verdict that is written. -/
def sloVerdict (target : Double) (selected : Option LatencyDistribution) : Option Bool :=
  if target.le .zero then none
  else
    match selected with
    | some selected => some (selected.p99Us.le target)
    | none => some false

/-- The device distribution after writing and reading. -/
def readDeviceCompute (distribution : Option LatencyDistribution) :
    Checked (Option Distribution) :=
  match distribution with
  | some d => some <$> readDistribution d
  | none => .ok none

/-- The snapshot of a document. The element count is looked up under a key that the writer
does not use. -/
def readSnapshot (build : Build) (options : RunOptions) (stats : InferenceStats) :
    Checked Snapshot := do
  let deviceCompute ← readDeviceCompute stats.deviceCompute
  return {
    version := readString build.version
    revision := readString build.revision
    model := readString options.modelPath
    backend := readString stats.backend
    backendVersion := (readOptionalString stats.runtime.backendVersion).getD (ascii "unknown")
    device := ← readDevice stats.runtime.deviceName
    samples := ← unsignedOf (ascii "samples") (doubleOf stats.endToEnd.samples)
    inputSize := ← unsignedOf (ascii "input_size") (doubleOf options.inputSize)
    batchSize := ← unsignedOf (ascii "batch_size") (doubleOf options.batchSize)
    fallbackUsed := options.fallbackUsed
    cudaGraph := stats.cudaGraph
    throughputIps := ← readDouble stats.throughputInferencesPerSecond
    throughputSamplesPerSecond := ← readDouble stats.throughputSamplesPerSecond
    endToEnd := ← readDistribution stats.endToEnd
    deviceCompute := deviceCompute
    validationPassed := stats.validation.map (fun v ↦ v.passed)
    validationElements := none
    sloScope := scopeName options.targetScope
    sloTargetUs := ← readTarget options.targetLatencyUs
    sloObservedP99Us := ← readObserved (selectedDistribution options stats)
    sloPassed := sloVerdict options.targetLatencyUs (selectedDistribution options stats) }

private theorem deviceComputeOf_latencyNode (stats : InferenceStats) :
    deviceComputeOf (latencyNode stats) = readDeviceCompute stats.deviceCompute := by
  have hu : under (latencyNode stats) (ascii "device_compute") =
      some (deviceComputeNode stats.deviceCompute) := by
    simp [latencyNode, distributionNode, under_block_cons, under_block_nil, key_name,
      under_doubleNode, under_unsignedNode]
  rw [deviceComputeOf, required, hu]
  cases stats.deviceCompute with
  | none => rfl
  | some d =>
    change (do return some (← distributionOf (← objectOf (distributionNode d)))) = _
    have ho : objectOf (distributionNode d) = .ok (distributionNode d) := rfl
    simp [ho, distributionOf_distributionNode, readDeviceCompute]

private theorem validationOf_eq {v : Value} {tolerance : Double}
    {validation : Option OutputValidation}
    (hu : under v (ascii "validation") = some (validationNode tolerance validation)) :
    validationOf v = .ok (validation.map (fun v ↦ v.passed), none) := by
  rw [validationOf, required, hu]
  cases validation with
  | none => rfl
  | some o =>
    have hp : under (validationNode tolerance (some o)) (ascii "passed") =
        some (boolNode o.passed) := by
      simp [validationNode, under_block_cons, under_block_nil, key_name, under_doubleNode,
        under_unsignedNode, under_stringNode]
    have hc : under (validationNode tolerance (some o)) (ascii "checked_elements") = none := by
      simp [validationNode, under_block_cons, under_block_nil, key_name, under_doubleNode,
        under_unsignedNode, under_stringNode, under_boolNode]
    have hn : nullOf (validationNode tolerance (some o)) = false := rfl
    have ho : objectOf (validationNode tolerance (some o)) =
      .ok (validationNode tolerance (some o)) := rfl
    simp [hn, ho, boolIn, required, hp, hc, boolOf_boolNode]

private theorem optionalIn_of {α : Type} {v w : Value} {name : Bytes} {read : Value → Checked α}
    (hu : under v name = some w) :
    optionalIn v name read = if nullOf w then .ok none else some <$> read w := by
  rw [optionalIn, hu]

private theorem optionalIn_target {v : Value} {name : Bytes} {target : Double}
    (hu : under v name = some (targetNode target)) :
    optionalIn v name numberOf = readTarget target := by
  rw [optionalIn_of hu, targetNode, readTarget]
  split
  · rw [nullOf_doubleNode, numberOf_doubleNode]
    rfl
  · rfl

private theorem optionalIn_observed {v : Value} {name : Bytes}
    {selected : Option LatencyDistribution} (hu : under v name = some (observedNode selected)) :
    optionalIn v name numberOf = readObserved selected := by
  rw [optionalIn_of hu]
  cases selected with
  | none => rfl
  | some d =>
    rw [observedNode, nullOf_doubleNode, numberOf_doubleNode]
    rfl

private theorem optionalIn_sloPassed {v : Value} {name : Bytes} {target : Double}
    {selected : Option LatencyDistribution}
    (hu : under v name = some (sloPassedNode target selected)) :
    optionalIn v name boolOf = .ok (sloVerdict target selected) := by
  rw [optionalIn_of hu, sloPassedNode.eq_def, sloVerdict.eq_def]
  split
  · rfl
  · cases selected with
    | none => rfl
    | some d =>
      simp only [nullOf_boolNode, boolOf_boolNode]
      rfl

private theorem optionalIn_string {v : Value} {name value : Bytes}
    (hu : under v name = some (optionalStringNode value)) :
    optionalIn v name stringOf = .ok (readOptionalString value) := by
  rw [optionalIn_of hu, optionalStringNode, readOptionalString]
  split
  · rfl
  · rw [stringOf_stringNode]
    rfl

private theorem stringIn_device {v : Value} {name value : Bytes}
    (hu : under v name = some (optionalStringNode value)) :
    stringIn v name = readDevice value := by
  rw [stringIn, required, hu, ok_bind, optionalStringNode, readDevice]
  split
  · rfl
  · exact stringOf_stringNode value

@[simp] private theorem under_deviceMemoryNode (bytes : UInt64) (name : Bytes) :
    under (deviceMemoryNode bytes) name = none := by
  unfold deviceMemoryNode
  split <;> rfl

@[simp] private theorem under_distributionNode {name : String} (d : LatencyDistribution)
    (h : name ∉ ["samples", "mean", "min", "p50", "p90", "p95", "p99", "max", "stddev"]) :
    under (distributionNode d) (ascii name) = none := by
  simp only [List.mem_cons, List.not_mem_nil, or_false, not_or] at h
  simp [distributionNode, under_block_cons, under_block_nil, key_name, under_doubleNode,
    under_unsignedNode, h, eq_comm]

@[simp] private theorem under_deviceComputeNode {name : String} (d : Option LatencyDistribution)
    (h : name ∉ ["samples", "mean", "min", "p50", "p90", "p95", "p99", "max", "stddev"]) :
    under (deviceComputeNode d) (ascii name) = none := by
  cases d with
  | none => rfl
  | some d => exact under_distributionNode d h

@[simp] private theorem under_buildNode {name : String} (build : Build)
    (h : name ∉ ["version", "revision"]) :
    under (buildNode build) (ascii name) = none := by
  simp only [List.mem_cons, List.not_mem_nil, or_false, not_or] at h
  simp [buildNode, under_block_cons, under_block_nil, key_name, under_stringNode, h, eq_comm]

@[simp] private theorem under_environmentNode {name : String} (r : RuntimeMetadata)
    (h : name ∉ ["backend_version", "device", "compute_capability", "cuda_runtime",
      "cuda_driver", "device_memory_bytes"]) :
    under (environmentNode r) (ascii name) = none := by
  simp only [List.mem_cons, List.not_mem_nil, or_false, not_or] at h
  simp [environmentNode, under_block_cons, under_block_nil, key_name, under_optionalStringNode,
    under_deviceMemoryNode, h, eq_comm]

@[simp] private theorem under_latencyNode {name : String} (stats : InferenceStats)
    (h : name ∉ ["samples", "mean", "min", "p50", "p90", "p95", "p99", "max", "stddev"])
    (he : name ≠ "end_to_end") (hd : name ≠ "device_compute") :
    under (latencyNode stats) (ascii name) = none := by
  simp [latencyNode, under_block_cons, under_block_nil, key_name, under_distributionNode _ h,
    under_deviceComputeNode _ h, he.symm, hd.symm]

@[simp] private theorem under_validationNode {name : String} (tolerance : Double)
    (validation : Option OutputValidation)
    (h : name ∉ ["kind", "tolerance", "compared_elements", "mismatches", "max_abs_error",
      "passed"]) :
    under (validationNode tolerance validation) (ascii name) = none := by
  cases validation with
  | none => rfl
  | some v =>
    simp only [List.mem_cons, List.not_mem_nil, or_false, not_or] at h
    simp [validationNode, under_block_cons, under_block_nil, key_name, under_doubleNode,
      under_unsignedNode, under_stringNode, under_boolNode, h, eq_comm]

@[simp] private theorem under_targetNode (target : Double) (name : Bytes) :
    under (targetNode target) name = none := by
  unfold targetNode
  split <;> rfl

@[simp] private theorem under_observedNode (selected : Option LatencyDistribution) (name : Bytes) :
    under (observedNode selected) name = none := by
  cases selected <;> rfl

private theorem unsignedIn_of {v : Value} {name : Bytes} {n : UInt64}
    (hu : under v name = some (unsignedNode n)) :
    unsignedIn v name = unsignedOf name (doubleOf n) := by
  rw [unsignedIn, numberIn, required, hu, ok_bind, numberOf_unsignedNode, ok_bind]

private theorem numberIn_of {v : Value} {name : Bytes} {x : Double}
    (hu : under v name = some (doubleNode x)) : numberIn v name = readDouble x := by
  rw [numberIn, required, hu, ok_bind, numberOf_doubleNode]

private theorem boolIn_of {v : Value} {name : Bytes} {flag : Bool}
    (hu : under v name = some (boolNode flag)) : boolIn v name = .ok flag := by
  rw [boolIn, required, hu, ok_bind, boolOf_boolNode]

private theorem stringIn_of {v : Value} {name value : Bytes}
    (hu : under v name = some (stringNode value)) : stringIn v name = .ok (readString value) := by
  rw [stringIn, required, hu, ok_bind, stringOf_stringNode]

private theorem objectIn_of {v w : Value} {name : Bytes} (hu : under v name = some w)
    (ho : w.isObject = true) : objectIn v name = .ok w := by
  rw [objectIn, required, hu, ok_bind, objectOf, if_pos ho]

private theorem readString_scopeName (scope : LatencyScope) :
    readString (scopeName scope) = scopeName scope := by
  cases scope <;> rfl

/-- The snapshot of the metrics document. -/
theorem snapshotOf_metricsNode (build : Build) (options : RunOptions) (stats : InferenceStats) :
    snapshotOf (metricsNode build options stats) = readSnapshot build options stats := by
  have hschema : unsignedIn (metricsNode build options stats) (ascii "schema_version") = .ok 2 :=
    (unsignedIn_of (n := 2) (by simp [metricsNode, rootMembers, rootFields])).trans
      (by decide +kernel)
  have hbuild : objectIn (metricsNode build options stats) (ascii "build") =
      .ok (buildNode build) :=
    objectIn_of (by simp [metricsNode, rootMembers, rootFields]) rfl
  have henvironment : objectIn (metricsNode build options stats) (ascii "environment") =
      .ok (environmentNode stats.runtime) :=
    objectIn_of (by simp (disch := decide) [metricsNode, rootMembers, rootFields]) rfl
  have hlatency : objectIn (metricsNode build options stats) (ascii "latency_us") =
      .ok (latencyNode stats) :=
    objectIn_of (by simp (disch := decide) [metricsNode, rootMembers, rootFields]) rfl
  have hslo : objectIn (metricsNode build options stats) (ascii "slo") =
      .ok (sloNode options stats) :=
    objectIn_of (by simp (disch := decide) [metricsNode, rootMembers, rootFields]) rfl
  have hendToEnd : objectIn (latencyNode stats) (ascii "end_to_end") =
      .ok (distributionNode stats.endToEnd) :=
    objectIn_of (by simp [latencyNode]) rfl
  have hvalidation : validationOf (metricsNode build options stats) =
      .ok (stats.validation.map (fun v ↦ v.passed), none) :=
    validationOf_eq (by simp (disch := decide) [metricsNode, rootMembers, rootFields]; rfl)
  have hpassed : optionalIn (sloNode options stats) (ascii "passed") boolOf =
      .ok (sloVerdict options.targetLatencyUs (selectedDistribution options stats)) :=
    optionalIn_sloPassed (by simp [sloNode])
  have hversion : stringIn (buildNode build) (ascii "version") = .ok (readString build.version) :=
    stringIn_of (by simp [buildNode])
  have hrevision : stringIn (buildNode build) (ascii "revision") =
      .ok (readString build.revision) :=
    stringIn_of (by simp [buildNode])
  have hmodel : stringIn (metricsNode build options stats) (ascii "model") =
      .ok (readString options.modelPath) :=
    stringIn_of (by simp (disch := decide) [metricsNode, rootMembers, rootFields])
  have hbackend : stringIn (metricsNode build options stats) (ascii "backend") =
      .ok (readString stats.backend) :=
    stringIn_of (by simp (disch := decide) [metricsNode, rootMembers, rootFields])
  have hbackendVersion : optionalIn (environmentNode stats.runtime) (ascii "backend_version")
      stringOf = .ok (readOptionalString stats.runtime.backendVersion) :=
    optionalIn_string (by simp [environmentNode])
  have hdevice : stringIn (environmentNode stats.runtime) (ascii "device") =
      readDevice stats.runtime.deviceName :=
    stringIn_device (by simp [environmentNode])
  have hsamples : unsignedIn (metricsNode build options stats) (ascii "samples") =
      unsignedOf (ascii "samples") (doubleOf stats.endToEnd.samples) :=
    unsignedIn_of (by simp (disch := decide) [metricsNode, rootMembers, rootFields])
  have hinput : unsignedIn (metricsNode build options stats) (ascii "input_size") =
      unsignedOf (ascii "input_size") (doubleOf options.inputSize) :=
    unsignedIn_of (by simp (disch := decide) [metricsNode, rootMembers, rootFields])
  have hbatch : unsignedIn (metricsNode build options stats) (ascii "batch_size") =
      unsignedOf (ascii "batch_size") (doubleOf options.batchSize) :=
    unsignedIn_of (by simp (disch := decide) [metricsNode, rootMembers, rootFields])
  have hfallback : boolIn (metricsNode build options stats) (ascii "fallback_used") =
      .ok options.fallbackUsed :=
    boolIn_of (by simp (disch := decide) [metricsNode, rootMembers, rootFields])
  have hgraph : boolIn (metricsNode build options stats) (ascii "cuda_graph") =
      .ok stats.cudaGraph :=
    boolIn_of (by simp (disch := decide) [metricsNode, rootMembers, rootFields])
  have hips : numberIn (metricsNode build options stats) (ascii "throughput_ips") =
      readDouble stats.throughputInferencesPerSecond :=
    numberIn_of (by simp (disch := decide) [metricsNode, rootMembers, rootFields])
  have hsps : numberIn (metricsNode build options stats)
      (ascii "throughput_samples_per_second") = readDouble stats.throughputSamplesPerSecond :=
    numberIn_of (by simp (disch := decide) [metricsNode, rootMembers, rootFields])
  have hscope : stringIn (sloNode options stats) (ascii "scope") =
      .ok (readString (scopeName options.targetScope)) :=
    stringIn_of (by simp [sloNode])
  have htarget : optionalIn (sloNode options stats) (ascii "target_us") numberOf =
      readTarget options.targetLatencyUs :=
    optionalIn_target (by simp [sloNode])
  have hobserved : optionalIn (sloNode options stats) (ascii "observed_p99_us") numberOf =
      readObserved (selectedDistribution options stats) :=
    optionalIn_observed (by simp [sloNode])
  simp only [snapshotOf, hschema, hbuild, henvironment, hlatency, hslo, hendToEnd, hvalidation,
    hpassed, hversion, hrevision, hmodel, hbackend, hbackendVersion, hdevice, hsamples, hinput,
    hbatch, hfallback, hgraph, hips, hsps, hscope, readString_scopeName, htarget, hobserved,
    ok_bind, deviceComputeOf_latencyNode, distributionOf_distributionNode, readSnapshot]
  rfl

private theorem under_rootMembers (close : Space) (build : Build) (options : RunOptions)
    (stats : InferenceStats) :
    under (.object (rootMembers close build options stats)) =
      under (metricsNode build options stats) := by
  funext key
  simp only [under, Value.firstNamed, metricsNode, rootMembers]
  rw [firstNamed_block_close, firstNamed_block_close _ _ (lineBreak 0)]

/-- The exporter reads a metrics document field by field. The document may end anywhere behind
the last member of its root. -/
theorem parseSnapshot_rootMembers (build : Build) (options : RunOptions) (stats : InferenceStats)
    {after : Bytes} (ha : Follows after) (hq : ∀ b ∈ after, b ≠ quote) :
    parseSnapshot (openBrace :: ((rootMembers noSpace build options stats).text ++ after)) =
      readSnapshot build options stats := by
  have h := presents_members (rootMembers noSpace build options stats) ha hq
  rw [under_rootMembers] at h
  rw [parseSnapshot_eq h, snapshotOf_metricsNode]

/-- The exporter reads the writer's document field by field. -/
theorem parseSnapshot_formatMetricsJson (build : Build) (options : RunOptions)
    (stats : InferenceStats) :
    parseSnapshot (formatMetricsJson build options stats) = readSnapshot build options stats := by
  rw [formatMetricsJson_eq]
  have ha : Follows (ascii "\n\x7d\n") := by decide
  exact parseSnapshot_rootMembers build options stats ha (by decide)

/-- The SLO is found at the end of the document, whatever follows it. -/
theorem findValue_slo (build : Build) (options : RunOptions) (stats : InferenceStats) :
    ∃ before, openBrace :: (rootMembers noSpace build options stats).text =
        before ++ (sloNode options stats).text ∧
      ∀ after, findValue (before ++ ((sloNode options stats).text ++ after)) (ascii "slo") =
        some before.length := by
  have hk : (fieldName 2 (key "slo")).key.text = ascii "slo" := (key "slo").text_literal
  have hf : under (.object (block 2 noSpace (key "schema_version") (unsignedNode 2)
      (rootFields build options stats))) (ascii "slo") = none := by
    simp (disch := decide) [rootFields]
  have h := findValue_member (block 2 noSpace (key "schema_version") (unsignedNode 2)
    (rootFields build options stats)) (fieldName 2 (key "slo")) (sloNode options stats)
  rw [hk] at h
  refine ⟨openBrace :: ((block 2 noSpace (key "schema_version") (unsignedNode 2)
    (rootFields build options stats)).text ++ comma :: (fieldName 2 (key "slo")).text), ?_,
    fun after ↦ ?_⟩
  · rw [rootMembers, text_block_concat]
    simp [noSpace]
  · have := h after (by decide) hf
    simpa using this

/-! ### Accepted documents -/

/-- The snapshot agrees field by field with what was written. -/
structure Agrees (build : Build) (options : RunOptions) (stats : InferenceStats) (s : Snapshot) :
    Prop where
  version : s.version = readString build.version
  revision : s.revision = readString build.revision
  model : s.model = readString options.modelPath
  backend : s.backend = readString stats.backend
  backendVersion : s.backendVersion =
    (readOptionalString stats.runtime.backendVersion).getD (ascii "unknown")
  device : readDevice stats.runtime.deviceName = .ok s.device
  samples : unsignedOf (ascii "samples") (doubleOf stats.endToEnd.samples) = .ok s.samples
  inputSize : unsignedOf (ascii "input_size") (doubleOf options.inputSize) = .ok s.inputSize
  batchSize : unsignedOf (ascii "batch_size") (doubleOf options.batchSize) = .ok s.batchSize
  fallbackUsed : s.fallbackUsed = options.fallbackUsed
  cudaGraph : s.cudaGraph = stats.cudaGraph
  throughputIps : readDouble stats.throughputInferencesPerSecond = .ok s.throughputIps
  throughputSamplesPerSecond :
    readDouble stats.throughputSamplesPerSecond = .ok s.throughputSamplesPerSecond
  endToEnd : readDistribution stats.endToEnd = .ok s.endToEnd
  deviceCompute : readDeviceCompute stats.deviceCompute = .ok s.deviceCompute
  validationPassed : s.validationPassed = stats.validation.map (fun v ↦ v.passed)
  validationElements : s.validationElements = none
  sloScope : s.sloScope = scopeName options.targetScope
  sloTargetUs : readTarget options.targetLatencyUs = .ok s.sloTargetUs
  sloObservedP99Us : readObserved (selectedDistribution options stats) = .ok s.sloObservedP99Us
  sloPassed : s.sloPassed =
    sloVerdict options.targetLatencyUs (selectedDistribution options stats)

/-- The exporter accepts a document exactly as a snapshot that agrees with it. -/
theorem parseSnapshot_eq_ok {build : Build} {options : RunOptions} {stats : InferenceStats}
    {s : Snapshot} :
    parseSnapshot (formatMetricsJson build options stats) = .ok s ↔
      Agrees build options stats s := by
  rw [parseSnapshot_formatMetricsJson]
  constructor
  · intro h
    simp only [readSnapshot, bind_eq_ok] at h
    obtain ⟨deviceCompute, hdc, device, hd, samples, hs, inputSize, hi, batchSize, hb, ips, hips,
      sps, hsps, endToEnd, he, target, ht, observed, ho, hok⟩ := h
    obtain rfl := Except.ok.inj hok
    exact ⟨rfl, rfl, rfl, rfl, rfl, hd, hs, hi, hb, rfl, rfl, hips, hsps, he, hdc, rfl, rfl, rfl,
      ht, ho, rfl⟩
  · intro h
    simp only [readSnapshot, h.device, h.samples, h.inputSize, h.batchSize, h.throughputIps,
      h.throughputSamplesPerSecond, h.endToEnd, h.deviceCompute, h.sloTargetUs,
      h.sloObservedP99Us, ok_bind]
    rw [← h.version, ← h.revision, ← h.model, ← h.backend, ← h.backendVersion, ← h.fallbackUsed,
      ← h.cudaGraph, ← h.validationPassed, ← h.validationElements, ← h.sloScope, ← h.sloPassed]
    rfl

/-! ### A document of a passing run -/

/-- What the exporter reads for the short run. -/
def sampleSnapshot : Snapshot where
  version := ascii "unknown"
  revision := ascii "unknown"
  model := ascii "mock"
  backend := ascii "tensorrt-gpu"
  backendVersion := ascii "unknown"
  device := ascii "gpu \"0\""
  samples := 4
  inputSize := 512
  batchSize := 1
  fallbackUsed := false
  cudaGraph := false
  throughputIps := .zero
  throughputSamplesPerSecond := .zero
  endToEnd := ⟨4, doubleOf 3, doubleOf 3, doubleOf 3, doubleOf 3, doubleOf 3, doubleOf 3,
    doubleOf 3, .zero⟩
  deviceCompute := some ⟨4, doubleOf 1, doubleOf 1, doubleOf 1, doubleOf 1, doubleOf 1, doubleOf 1,
    doubleOf 1, .zero⟩
  validationPassed := some true
  validationElements := none
  sloScope := ascii "end_to_end"
  sloTargetUs := none
  sloObservedP99Us := some (doubleOf 3)
  sloPassed := none

/-- The exporter accepts the document of the short run. -/
theorem parseSnapshot_sample :
    parseSnapshot (formatMetricsJson {} {} sampleStats) = .ok sampleSnapshot := by
  rw [parseSnapshot_formatMetricsJson]
  decide +kernel

end MarketData.Exporter
