import MarketData.Comparator.Lookup
import MarketData.Engine.Document

/-!
# What the comparator reads from a metrics document

The readers of the comparator restated on values, and the run metrics of a document in
terms of the options and statistics it was written for. A string comes back as it was
unless it holds a control character that is written as a unicode escape.
-/

namespace MarketData.Comparator

open ByteText Cpp Json

/-! ### Readers of one value -/

/-- `is_null` on a value: it starts with the word. -/
def nullOf (v : Value) : Bool := (ascii "null").isPrefixOf v.text

/-- `bool_at` on a value: only the first letters count. -/
def boolOf (v : Value) : Checked Bool :=
  if (ascii "true").isPrefixOf v.text then .ok true
  else if (ascii "false").isPrefixOf v.text then .ok false
  else .error (.exception (ascii "expected a JSON boolean"))

/-- `number_at` on a value: the finite number that its text spells as a whole. -/
def numberOf (v : Value) : Checked Double :=
  match Ieee.finiteToken? v.text with
  | some x => .ok x
  | none => .error (.exception (ascii "expected a finite JSON number"))

/-- `string_at` on a value: what a string is decoded to. -/
def stringOf : Value → Checked Bytes
  | .string l => .ok (decoded l)
  | _ => .error (.exception (ascii "expected a JSON string"))

/-- `object_at` on a value: it is an object. -/
def objectOf (v : Value) : Checked Value :=
  if v.isObject then .ok v else .error (.exception (ascii "expected a JSON object"))

/-- The first direct member of an object under a key. -/
def member (v : Value) (key : Bytes) : Option Value := v.directNamed (fun l ↦ decoded l = key)

/-- `required` on a value: the first direct member of the name. -/
def requiredOf (v : Value) (key : Bytes) : Checked Value :=
  match member v key with
  | some w => .ok w
  | none => .error (.exception (ascii "missing JSON field: " ++ key))

/-- `parse_metrics` on a value: the fields in the order of the source. -/
def metricsOf (v : Value) (scope metric : Bytes) : Checked RunMetrics := do
  let root ← objectOf v
  let latency ← objectOf (← requiredOf root (ascii "latency_us"))
  let scopeValue ← requiredOf latency (scopeKey scope)
  throwUnless (nullOf scopeValue = false)
    (ascii "requested latency scope is null: " ++ scopeKey scope)
  let distribution ← objectOf scopeValue
  let environment ← objectOf (← requiredOf root (ascii "environment"))
  return {
    latencyUs := ← numberOf (← requiredOf distribution metric)
    backend := ← stringOf (← requiredOf root (ascii "backend"))
    device := ← stringOf (← requiredOf environment (ascii "device"))
    inputSize := ← unsignedOf (ascii "input_size")
      (← numberOf (← requiredOf root (ascii "input_size")))
    batchSize := ← unsignedOf (ascii "batch_size")
      (← numberOf (← requiredOf root (ascii "batch_size")))
    cudaGraph := ← boolOf (← requiredOf root (ascii "cuda_graph")) }

/-! ### A value in its document -/

section

variable {text : Bytes} {offset : Nat} {v : Value}

private theorem skipSpace_stands (hv : Stands text offset v) : skipSpace text offset = offset := by
  obtain ⟨before, after, rfl, rfl, -⟩ := hv
  exact skipWhile_stop (by rw [drop_before]; exact v.head_not_space after)

private theorem compareAt_stands (hv : Stands text offset v) (word : Bytes)
    (hw : ∀ b ∈ word, isDelimiter b = false) :
    compareAt text offset word.length word = .ok (word.isPrefixOf v.text) := by
  obtain ⟨before, after, rfl, rfl, ha⟩ := hv
  have hs : substr? (before ++ (v.text ++ after)) before.length word.length =
      some ((v.text ++ after).take word.length) := by simp [substr?]
  rw [compareAt, hs]
  exact congrArg Except.ok (v.take_beq word hw ha.delimited)

private theorem isNull_stands (hv : Stands text offset v) :
    isNull text offset = .ok (nullOf v) := by
  rw [isNull, skipSpace_stands hv]
  exact compareAt_stands hv (ascii "null") (by decide)

private theorem boolAt_stands (hv : Stands text offset v) : boolAt text offset = boolOf v := by
  have ht : compareAt text offset 4 (ascii "true") = .ok ((ascii "true").isPrefixOf v.text) :=
    compareAt_stands hv (ascii "true") (by decide)
  have hf : compareAt text offset 5 (ascii "false") = .ok ((ascii "false").isPrefixOf v.text) :=
    compareAt_stands hv (ascii "false") (by decide)
  rw [boolAt, skipSpace_stands hv, ht, hf]
  rfl

private theorem numberAt_stands (hv : Stands text offset v) :
    numberAt text offset = numberOf v := by
  rw [numberAt, skipSpace_stands hv]
  obtain ⟨before, after, rfl, rfl, ha⟩ := hv
  have htoken : ((before ++ (v.text ++ after)).drop before.length).take
      (before.length + v.text.length - before.length) = v.text := by
    rw [drop_before, Nat.add_sub_cancel_left, List.take_left]
  rw [skipValue_inside before after v.passed ha.delimited, ok_bind, htoken, numberOf]
  rfl

private theorem stringAt_stands (hv : Stands text offset v) :
    stringAt text offset = stringOf v := by
  rw [stringAt, skipSpace_stands hv]
  obtain ⟨before, after, rfl, rfl, -⟩ := hv
  by_cases h : ∃ l, v = .string l
  · obtain ⟨l, rfl⟩ := h
    rw [Value.text, parseString_quoted]
    rfl
  · rw [not_exists] at h
    obtain ⟨b, rest, hb, hq⟩ := Value.head_ne_quote h
    have hs : stringOf v = .error (.exception (ascii "expected a JSON string")) := by
      unfold stringOf
      split
      · next l => exact absurd rfl (h l)
      · rfl
    rw [parseString, drop_before, hb, List.cons_append, hs]
    simp only [hq, if_false]
    rfl

private theorem required_stands {α : Type} (hv : Stands text offset v) (ho : v.isObject = true)
    {key : Bytes} {f : Nat → Checked α} {g : Value → Checked α}
    (hfg : ∀ offset w, Stands text offset w → f offset = g w) :
    (required text (spanOf offset v) key >>= f) = requiredOf v key >>= g := by
  have hm := v.find?_direct (fun l ↦ decoded l = key) offset
  rw [required, find_stands hv ho, ok_bind, requiredOf, member, ← hm]
  cases hf : (v.direct offset).find? (fun m ↦ decoded m.2.1 = key) with
  | none => rfl
  | some m => exact hfg m.1 m.2.2 (hv.direct (List.mem_of_find?_eq_some hf))

private theorem objectAt_bind {α : Type} (hv : Stands text offset v) {f : Span → Checked α}
    {g : Value → Checked α} (hfg : v.isObject = true → f (spanOf offset v) = g v) :
    (objectAt text offset >>= f) = objectOf v >>= g := by
  rw [objectAt_stands hv, objectOf]
  by_cases ho : v.isObject = true
  · rw [if_pos ho, if_pos ho, ok_bind, ok_bind]
    exact hfg ho
  · rw [if_neg ho, if_neg ho, error_bind, error_bind]

end

/-- A document is parsed as its root. -/
theorem parseMetrics_document (d : Document) (ho : d.root.isObject = true) (scope metric : Bytes) :
    parseMetrics d.text scope metric = metricsOf d.root scope metric := by
  have hr := stands_root d
  have hroot : objectOf d.root = .ok d.root := if_pos ho
  rw [parseMetrics, rootObject_document d ho, ok_bind, metricsOf, hroot, ok_bind]
  apply required_stands hr ho
  intro _ latency hl
  apply objectAt_bind hl
  intro hlo
  apply required_stands hl hlo
  intro _ scopeValue hs
  rw [isNull_stands hs, ok_bind]
  apply bind_congr_ok
  intro _ _
  apply objectAt_bind hs
  intro hso
  apply required_stands hr ho
  intro _ environment he
  apply objectAt_bind he
  intro heo
  apply required_stands hs hso
  intro _ statistic hst
  rw [numberAt_stands hst]
  apply bind_congr_ok
  intro _ _
  apply required_stands hr ho
  intro _ backend hb
  rw [stringAt_stands hb]
  apply bind_congr_ok
  intro _ _
  apply required_stands he heo
  intro _ device hd
  rw [stringAt_stands hd]
  apply bind_congr_ok
  intro _ _
  apply required_stands hr ho
  intro _ inputSize hi
  rw [exactUnsigned, numberAt_stands hi, bind_assoc]
  apply bind_congr_ok
  intro _ _
  apply bind_congr_ok
  intro _ _
  apply required_stands hr ho
  intro _ batchSize hb
  rw [exactUnsigned, numberAt_stands hb, bind_assoc]
  apply bind_congr_ok
  intro _ _
  apply bind_congr_ok
  intro _ _
  apply required_stands hr ho
  intro _ cudaGraph hc
  rw [boolAt_stands hc]

/-! ### The metrics document -/

/-- A string after writing and reading: a control character without an escape letter of its own
stays a unicode escape. -/
def readString (value : Bytes) : Bytes :=
  value.flatMap (fun c ↦
    if c < 32 ∧ c ≠ 8 ∧ c ≠ 9 ∧ c ≠ 10 ∧ c ≠ 12 ∧ c ≠ 13 then escapeByte c else [c])

private theorem decodedPiece_escapePiece (c : UInt8) :
    decodedPiece (escapePiece c) =
      if c < 32 ∧ c ≠ 8 ∧ c ≠ 9 ∧ c ≠ 10 ∧ c ≠ 12 ∧ c ≠ 13 then escapeByte c else [c] := by
  unfold escapePiece escapeByte
  split
  · next h => subst h; rfl
  split
  · next h => subst h; rfl
  split
  · next h => subst h; rfl
  split
  · next h => subst h; rfl
  split
  · next h => subst h; rfl
  split
  · next h => subst h; rfl
  split
  · next h => subst h; rfl
  split
  · next h8 h12 h10 h13 h9 h =>
    rw [if_pos ⟨h, h8, h9, h10, h12, h13⟩]
    rfl
  · next h => rw [if_neg (fun hc ↦ h hc.1)]; rfl

/-- A printed string reads back byte by byte. -/
theorem stringOf_stringNode (value : Bytes) :
    stringOf (stringNode value) = .ok (readString value) := by
  rw [stringNode, stringOf, decoded, escapeLiteral, List.flatMap_map]
  exact congrArg (fun f ↦ Except.ok (value.flatMap f)) (funext decodedPiece_escapePiece)

private theorem decoded_key (k : Key) : decoded k.literal = ascii k.name := by
  have h : ∀ (bytes : Bytes) (h : ∀ b ∈ bytes, b ≠ quote ∧ b ≠ backslash),
      decoded (bytes.pmap Piece.plain h) = bytes := by
    intro bytes
    induction bytes with
    | nil => intro h; rfl
    | cons b bytes ih =>
      intro h
      have ht := ih (fun c hc ↦ h c (by simp [hc]))
      simpa [decoded, decodedPiece] using ht
  exact h _ _

/-- What a key leads to in a block of one member. -/
@[simp] theorem member_block_nil (indent : Nat) (close : Space) (k : Key) (v : Value)
    (name : String) :
    member (.object (block indent close k v [])) (ascii name) =
      if k.name = name then some v else none := by
  simp [member, directNamed_block_nil, decoded_key, ascii_inj]

/-- What a key leads to in a block of several members. -/
@[simp] theorem member_block_cons (indent : Nat) (close : Space) (k k' : Key) (v v' : Value)
    (rest : List (Key × Value)) (name : String) :
    member (.object (block indent close k v ((k', v') :: rest))) (ascii name) =
      if k.name = name then some v
      else member (.object (block indent close k' v' rest)) (ascii name) := by
  simp [member, directNamed_block_cons, decoded_key, ascii_inj]

/-- The metrics a run can be compared by, with their values. -/
def statistics (d : LatencyDistribution) : List (String × Double) :=
  [("mean", d.meanUs), ("p50", d.p50Us), ("p90", d.p90Us), ("p95", d.p95Us), ("p99", d.p99Us),
    ("max", d.maxUs)]

/-- These are the metrics the comparator supports. -/
theorem names_statistics (d : LatencyDistribution) :
    (statistics d).map (fun m ↦ ascii m.1) = validMetrics := rfl

/-- The device name after writing and reading: a missing name was written as `null`. -/
def readDevice (name : Bytes) : Checked Bytes :=
  if name = [] then .error (.exception (ascii "expected a JSON string")) else .ok (readString name)

/-- The run metrics of a document with the given statistic. -/
def readMetrics (options : RunOptions) (stats : InferenceStats) (statistic : Double) :
    Checked RunMetrics := do
  return {
    latencyUs := ← readDouble statistic
    backend := readString stats.backend
    device := ← readDevice stats.runtime.deviceName
    inputSize := ← unsignedOf (ascii "input_size") (doubleOf options.inputSize)
    batchSize := ← unsignedOf (ascii "batch_size") (doubleOf options.batchSize)
    cudaGraph := stats.cudaGraph }

private theorem numberOf_scalar (t : Token) :
    numberOf (.scalar t) =
      match Ieee.finiteToken? t.val with
      | some x => .ok x
      | none => .error (.exception (ascii "expected a finite JSON number")) := rfl

private theorem numberOf_doubleNode (x : Double) : numberOf (doubleNode x) = readDouble x := by
  rw [doubleNode, numberOf_scalar, finiteToken_printDouble, readDouble]
  by_cases h : x.isFinite = true <;> simp only [h, if_true, if_false, Bool.false_eq_true]

private theorem numberOf_unsignedNode (n : UInt64) :
    numberOf (unsignedNode n) = .ok (doubleOf n) := by
  rw [unsignedNode, numberOf_scalar, finiteToken_printUnsigned]

private theorem boolOf_boolNode (flag : Bool) : boolOf (boolNode flag) = .ok flag := by
  cases flag <;> rfl

private theorem stringOf_optionalStringNode (name : Bytes) :
    stringOf (optionalStringNode name) = readDevice name := by
  unfold optionalStringNode readDevice
  split
  · rfl
  · exact stringOf_stringNode name

private theorem requiredOf_member {v w : Value} {key : Bytes} (h : member v key = some w) :
    requiredOf v key = .ok w := by
  rw [requiredOf, h]

private theorem requiredOf_statistic {d : LatencyDistribution} {m : String × Double}
    (hm : m ∈ statistics d) :
    requiredOf (distributionNode d) (ascii m.1) = .ok (doubleNode m.2) := by
  simp only [statistics, List.mem_cons, List.not_mem_nil, or_false] at hm
  apply requiredOf_member
  rcases hm with rfl | rfl | rfl | rfl | rfl | rfl <;> simp [distributionNode, key]

section

variable (build : Build) (options : RunOptions) (stats : InferenceStats)

private theorem metricsOf_scope {scope : Bytes} {d : LatencyDistribution} {m : String × Double}
    (hs : member (latencyNode stats) (scopeKey scope) = some (distributionNode d))
    (hm : m ∈ statistics d) :
    metricsOf (metricsNode build options stats) scope (ascii m.1) =
      readMetrics options stats m.2 := by
  have hlatency : requiredOf (metricsNode build options stats) (ascii "latency_us") =
      .ok (latencyNode stats) :=
    requiredOf_member (by simp [metricsNode, rootMembers, rootFields, key])
  have henvironment : requiredOf (metricsNode build options stats) (ascii "environment") =
      .ok (environmentNode stats.runtime) :=
    requiredOf_member (by simp [metricsNode, rootMembers, rootFields, key])
  have hbackend : requiredOf (metricsNode build options stats) (ascii "backend") =
      .ok (stringNode stats.backend) :=
    requiredOf_member (by simp [metricsNode, rootMembers, rootFields, key])
  have hdevice : requiredOf (environmentNode stats.runtime) (ascii "device") =
      .ok (optionalStringNode stats.runtime.deviceName) :=
    requiredOf_member (by simp [environmentNode, key])
  have hinput : requiredOf (metricsNode build options stats) (ascii "input_size") =
      .ok (unsignedNode options.inputSize) :=
    requiredOf_member (by simp [metricsNode, rootMembers, rootFields, key])
  have hbatch : requiredOf (metricsNode build options stats) (ascii "batch_size") =
      .ok (unsignedNode options.batchSize) :=
    requiredOf_member (by simp [metricsNode, rootMembers, rootFields, key])
  have hgraph : requiredOf (metricsNode build options stats) (ascii "cuda_graph") =
      .ok (boolNode stats.cudaGraph) :=
    requiredOf_member (by simp [metricsNode, rootMembers, rootFields, key])
  have hroot : objectOf (metricsNode build options stats) = .ok (metricsNode build options stats) :=
    rfl
  have hlatencyObject : objectOf (latencyNode stats) = .ok (latencyNode stats) := rfl
  have hdistributionObject : objectOf (distributionNode d) = .ok (distributionNode d) := rfl
  have henvironmentObject : objectOf (environmentNode stats.runtime) =
      .ok (environmentNode stats.runtime) := rfl
  have hnull : nullOf (distributionNode d) = false := rfl
  simp only [metricsOf, hroot, ok_bind, hlatency, hlatencyObject, requiredOf_member hs, hnull,
    throwUnless, if_true, hdistributionObject, henvironment, henvironmentObject,
    requiredOf_statistic hm, numberOf_doubleNode, hbackend, stringOf_stringNode, hdevice,
    stringOf_optionalStringNode, hinput, numberOf_unsignedNode, hbatch, hgraph, boolOf_boolNode,
    readMetrics]

/-- The comparator reads the end to end statistics of a document. -/
theorem parseMetrics_endToEnd (after : Space) {m : String × Double}
    (hm : m ∈ statistics stats.endToEnd) :
    parseMetrics (metricsDocument after build options stats).text (ascii "e2e") (ascii m.1) =
      readMetrics options stats m.2 := by
  rw [parseMetrics_document _ rfl]
  exact metricsOf_scope build options stats (by simp [scopeKey, latencyNode, key]) hm

/-- The comparator reads the device statistics of a document. -/
theorem parseMetrics_device (after : Space) {d : LatencyDistribution} {m : String × Double}
    (hd : stats.deviceCompute = some d) (hm : m ∈ statistics d) :
    parseMetrics (metricsDocument after build options stats).text (ascii "device") (ascii m.1) =
      readMetrics options stats m.2 := by
  rw [parseMetrics_document _ rfl]
  exact metricsOf_scope build options stats
    (by simp [scopeKey, latencyNode, key, hd, deviceComputeNode, ascii_inj]) hm

/-- Without a device distribution the device scope is rejected. -/
theorem parseMetrics_noDevice (after : Space) (metric : Bytes) (hd : stats.deviceCompute = none) :
    parseMetrics (metricsDocument after build options stats).text (ascii "device") metric =
      .error (.exception (ascii "requested latency scope is null: device_compute")) := by
  rw [parseMetrics_document _ rfl]
  have hlatency : requiredOf (metricsNode build options stats) (ascii "latency_us") =
      .ok (latencyNode stats) :=
    requiredOf_member (by simp [metricsNode, rootMembers, rootFields, key])
  have hscope : requiredOf (latencyNode stats) (ascii "device_compute") = .ok nullNode :=
    requiredOf_member (by simp [latencyNode, key, hd, deviceComputeNode])
  have hroot : objectOf (metricsNode build options stats) = .ok (metricsNode build options stats) :=
    rfl
  have hlatencyObject : objectOf (latencyNode stats) = .ok (latencyNode stats) := rfl
  have hkey : scopeKey (ascii "device") = ascii "device_compute" := by decide
  have hnull : nullOf nullNode = true := rfl
  simp only [metricsDocument, metricsOf, hroot, ok_bind, hlatency, hlatencyObject, hkey, hscope,
    hnull]
  rfl

end

/-! ### Round trip -/

/-- A string without control characters other than those that have an escape letter. -/
def Escapable (value : Bytes) : Prop := ∀ c ∈ value, 32 ≤ c ∨ c ∈ [8, 9, 10, 12, 13]

/-- The bytes of a string are checked one by one. -/
instance (value : Bytes) : Decidable (Escapable value) :=
  inferInstanceAs (Decidable (∀ _ ∈ _, _))

/-- Without other control characters a string reads back as it was. -/
theorem readString_escapable {value : Bytes} (h : Escapable value) :
    readString value = value := by
  have hc : ∀ c ∈ value,
      (if c < 32 ∧ c ≠ 8 ∧ c ≠ 9 ∧ c ≠ 10 ∧ c ≠ 12 ∧ c ≠ 13 then escapeByte c else [c]) = [c] := by
    intro c hm
    apply if_neg
    intro hcontrol
    rcases h c hm with hle | hletter
    · exact absurd hcontrol.1 (UInt8.not_lt.mpr hle)
    · simp only [List.mem_cons, List.not_mem_nil, or_false] at hletter
      rcases hletter with rfl | rfl | rfl | rfl | rfl <;> simp at hcontrol
  rw [readString, List.flatMap_congr hc, List.flatMap_singleton']

/-- The run metrics that a document encodes for a statistic. -/
def encodedMetrics (options : RunOptions) (stats : InferenceStats) (statistic : Double) :
    RunMetrics where
  latencyUs := statistic.roundDecimals 6
  backend := stats.backend
  device := stats.runtime.deviceName
  inputSize := options.inputSize
  batchSize := options.batchSize
  cudaGraph := stats.cudaGraph

/-- A run with finite numbers, exact sizes and a device name has run metrics. -/
theorem readMetrics_ok {options : RunOptions} {stats : InferenceStats} {statistic : Double}
    (hs : statistic.isFinite = true) (hi : options.inputSize.toNat ≤ 2 ^ 53)
    (hb : options.batchSize.toNat ≤ 2 ^ 53) (hd : stats.runtime.deviceName ≠ []) :
    readMetrics options stats statistic =
      .ok { encodedMetrics options stats statistic with
        backend := readString stats.backend
        device := readString stats.runtime.deviceName } := by
  simp only [readMetrics, readDouble, if_pos hs, readDevice, if_neg hd, unsignedOf_doubleOf _ hi,
    unsignedOf_doubleOf _ hb, ok_bind]
  rfl

/-- A supported statistic is one of the numbers of its distribution. -/
theorem isFinite_statistic {d : LatencyDistribution} {m : String × Double}
    (hf : ∀ x ∈ d.numbers, x.isFinite = true) (hm : m ∈ statistics d) : m.2.isFinite = true := by
  apply hf m.2
  simp only [statistics, List.mem_cons, List.not_mem_nil, or_false] at hm
  rcases hm with rfl | rfl | rfl | rfl | rfl | rfl <;> simp [LatencyDistribution.numbers]

/-- The comparator decodes what the benchmark encodes: the chosen statistic rounded to six
decimals, the context exactly, and no device statistic where there is none. -/
theorem parseMetrics_encoded {build : Build} {options : RunOptions} {stats : InferenceStats}
    (hn : FiniteNumbers options stats) (hi : options.inputSize.toNat ≤ 2 ^ 53)
    (hb : options.batchSize.toNat ≤ 2 ^ 53) (hd : stats.runtime.deviceName ≠ [])
    (hbackend : Escapable stats.backend) (hdevice : Escapable stats.runtime.deviceName) :
    (∀ name statistic, (name, statistic) ∈ statistics stats.endToEnd →
      parseMetrics (formatMetricsJson build options stats) (ascii "e2e") (ascii name) =
        .ok (encodedMetrics options stats statistic)) ∧
    (∀ d, stats.deviceCompute = some d → ∀ name statistic, (name, statistic) ∈ statistics d →
      parseMetrics (formatMetricsJson build options stats) (ascii "device") (ascii name) =
        .ok (encodedMetrics options stats statistic)) ∧
    (stats.deviceCompute = none → ∀ metric, ∃ what,
      parseMetrics (formatMetricsJson build options stats) (ascii "device") metric =
        .error (.exception what)) := by
  have hread : ∀ x : Double, x.isFinite = true →
      readMetrics options stats x = .ok (encodedMetrics options stats x) := by
    intro x hx
    rw [readMetrics_ok hx hi hb hd, readString_escapable hbackend, readString_escapable hdevice]
    rfl
  rw [formatMetricsJson_document]
  refine ⟨fun name statistic hm ↦ ?_, fun d hsome name statistic hm ↦ ?_, fun hnone metric ↦ ?_⟩
  · exact (parseMetrics_endToEnd _ _ _ _ hm).trans
      (hread statistic (isFinite_statistic hn.endToEnd hm))
  · exact (parseMetrics_device _ _ _ _ hsome hm).trans
      (hread statistic (isFinite_statistic (hn.deviceCompute hsome) hm))
  · exact ⟨_, parseMetrics_noDevice _ _ _ _ metric hnone⟩

/-- The comparator decodes the percentile of the short run. -/
theorem parseMetrics_encoded_sample :
    parseMetrics (formatMetricsJson {} {} sampleStats) (ascii "e2e") (ascii "p99") =
      .ok (encodedMetrics {} sampleStats (doubleOf 3)) :=
  (parseMetrics_encoded (by decide +kernel) (by decide) (by decide) (by decide) (by decide)
    (by decide)).1 "p99" (doubleOf 3) (by simp [statistics, sampleStats, sampleDistribution])

end MarketData.Comparator
