import MarketData.Base.Checked
import MarketData.Json.Syntax

/-!
# Snapshot reader of the metrics exporter

`tools/metrics_exporter.cpp`. A key is found by searching the whole text for the quoted
key: an occurrence counts when an even number of backslashes stands before it and a
colon follows it. Nesting is not tracked, so the first such occurrence wins. Loops over
positions recurse on the bytes left at the cursor.
-/

namespace MarketData.Exporter

open ByteText Cpp

/-- `skip_space`, `tools/metrics_exporter.cpp:37–46`: the first position from the given one on
without whitespace. -/
def skipSpace (document : Bytes) (position : Nat) : Nat := skipWhile isSpace document position

/-- Backslashes directly before a position. -/
def slashCount (document : Bytes) (position : Nat) : Nat :=
  ((document.take position).reverse.takeWhile (· == backslash)).length

/-- The loop of `find_value`: the search for the next occurrence at or after
`searchFrom` and the checks on it, in one pass over the remaining bytes. -/
def findValueLoop (document needle : Bytes) : Bytes → Nat → Nat → Option Nat
  | [], _, _ => none
  | c :: rest, cursor, searchFrom =>
    if searchFrom ≤ cursor ∧ needle.isPrefixOf (c :: rest) = true then
      let afterKey := cursor + needle.length
      if slashCount document cursor % 2 ≠ 0 then
        findValueLoop document needle rest (cursor + 1) afterKey
      else
        let valuePosition := skipSpace document afterKey
        if document[valuePosition]? = some colon then
          some (skipSpace document (valuePosition + 1))
        else findValueLoop document needle rest (cursor + 1) afterKey
    else findValueLoop document needle rest (cursor + 1) searchFrom

/-- `find_value`, `tools/metrics_exporter.cpp:48–75`: where the value starts behind the first
occurrence of the quoted key that a colon follows, at whatever depth. -/
def findValue (document key : Bytes) : Option Nat :=
  findValueLoop document (quote :: (key ++ [quote])) document 0 0

/-- The exception of a lookup that finds no value. -/
def missingField (key : Bytes) : Failure := .exception (ascii "missing JSON field: " ++ key)

/-- `required_value`, `tools/metrics_exporter.cpp:77–84`: where the value of a key starts that has
to be there. -/
def requiredValue (document key : Bytes) : Checked Nat :=
  match findValue document key with
  | some position => .ok position
  | none => .error (missingField key)

/-- `is_null`, `tools/metrics_exporter.cpp:86–88`: the four letters behind the whitespace are the
word. -/
def isNull (document : Bytes) (position : Nat) : Checked Bool := do
  let word ← substr document (skipSpace document position) 4
  return word == ascii "null"

/-- The loop of `string_end`. -/
def stringEndLoop : Bytes → Nat → Bool → Checked Nat
  | [], _, _ => .error (.exception (ascii "unterminated JSON string"))
  | c :: rest, cursor, escaped =>
    if !escaped && c == quote then .ok cursor
    else stringEndLoop rest (cursor + 1) (!escaped && c == backslash)

/-- `string_end`, `tools/metrics_exporter.cpp:90–107`: where the string that is opened at a
position is closed. -/
def stringEnd (document : Bytes) (position : Nat) : Checked Nat :=
  match document.drop position with
  | [] => .error (.exception (ascii "expected a JSON string"))
  | c :: rest =>
    if c = quote then stringEndLoop rest (position + 1) false
    else .error (.exception (ascii "expected a JSON string"))

/-- The loop of `string_at` over the bytes between the quotes. -/
def stringAtLoop : Bytes → Bytes → Checked Bytes
  | [], value => .ok value
  | c :: rest, value =>
    if c ≠ backslash then stringAtLoop rest (value ++ [c])
    else
      match rest with
      | [] => .error (.exception (ascii "incomplete JSON escape sequence"))
      | letter :: rest =>
        match Json.simpleEscape? letter with
        | some b => stringAtLoop rest (value ++ [b])
        | none =>
          if letter = 117 then
            match rest with
            | _ :: _ :: _ :: _ :: rest => stringAtLoop rest (value ++ [63])
            | _ => .error (.exception (ascii "incomplete JSON unicode escape"))
          else .error (.exception (ascii "invalid JSON escape sequence"))

/-- `string_at`, `tools/metrics_exporter.cpp:109–142`: the string behind the whitespace at a
position, decoded, a unicode escape to a question mark. -/
def stringAt (document : Bytes) (rawPosition : Nat) : Checked Bytes := do
  let position := skipSpace document rawPosition
  let last ← stringEnd document position
  stringAtLoop ((document.drop (position + 1)).take (last - (position + 1))) []

/-- `string_value`, `tools/metrics_exporter.cpp:144–147`: the string of a key that has to be
there. -/
def stringValue (document key : Bytes) : Checked Bytes := do
  stringAt document (← requiredValue document key)

/-- `optional_string_value`, `tools/metrics_exporter.cpp:149–157`: the string of a key, none where
the key is missing or the value is null. -/
def optionalStringValue (document key : Bytes) : Checked (Option Bytes) :=
  match findValue document key with
  | none => .ok none
  | some position => do
    if ← isNull document position then return none
    else return some (← stringAt document position)

/-- The loop of `matching_container`; `skip` counts the bytes of a string still to pass. -/
def matchingContainerLoop (document : Bytes) : Bytes → Nat → Nat → Nat → Checked Nat
  | [], _, _, _ => .error (.exception (ascii "unterminated JSON object"))
  | _ :: rest, cursor, skip + 1, depth =>
    matchingContainerLoop document rest (cursor + 1) skip depth
  | c :: rest, cursor, 0, depth =>
    if c = quote then do
      let last ← stringEnd document cursor
      matchingContainerLoop document rest (cursor + 1) (last - cursor) depth
    else if c = openBrace then matchingContainerLoop document rest (cursor + 1) 0 (depth + 1)
    else if c = closeBrace then
      if depth - 1 = 0 then .ok cursor
      else matchingContainerLoop document rest (cursor + 1) 0 (depth - 1)
    else matchingContainerLoop document rest (cursor + 1) 0 depth

/-- `matching_container`, `tools/metrics_exporter.cpp:159–177`: where the object that is opened at
a position is closed, by a count of the braces. -/
def matchingContainer (document : Bytes) (position : Nat) : Checked Nat :=
  match document.drop position with
  | [] => .error (.exception (ascii "expected a JSON object"))
  | c :: rest =>
    if c = openBrace then matchingContainerLoop document rest (position + 1) 0 1
    else .error (.exception (ascii "expected a JSON object"))

/-- `object_at`, `tools/metrics_exporter.cpp:179–184`: the text of the object behind the
whitespace at a position. -/
def objectAt (document : Bytes) (rawPosition : Nat) : Checked Bytes := do
  let position := skipSpace document rawPosition
  let last ← matchingContainer document position
  substr document position (last - position + 1)

/-- `object_value`, `tools/metrics_exporter.cpp:186–189`: the text of the object of a key that has
to be there. -/
def objectValue (document key : Bytes) : Checked Bytes := do
  objectAt document (← requiredValue document key)

/-- `scalar_end`, `tools/metrics_exporter.cpp:191–203`: the first delimiter or whitespace from a
position on. -/
def scalarEnd (document : Bytes) (position : Nat) : Nat :=
  skipWhile (fun b ↦ !Json.isDelimiter b) document position

/-- `number_at`, `tools/metrics_exporter.cpp:205–218`: the finite number that `strtod` makes of
the scalar at a position as a whole. -/
def numberAt (document : Bytes) (rawPosition : Nat) : Checked Double := do
  let position := skipSpace document rawPosition
  let last := scalarEnd document position
  let token ← substr document position (last - position)
  match Ieee.finiteToken? token with
  | some value => return value
  | none => .error (.exception (ascii "expected a finite JSON number"))

/-- `number_value`, `tools/metrics_exporter.cpp:220–223`: the number of a key that has to be
there. -/
def numberValue (document key : Bytes) : Checked Double := do
  numberAt document (← requiredValue document key)

/-- `optional_number_value`, `tools/metrics_exporter.cpp:225–232`: the number of a key, none where
the key is missing or the value is null. -/
def optionalNumberValue (document key : Bytes) : Checked (Option Double) :=
  match findValue document key with
  | none => .ok none
  | some position => do
    if ← isNull document position then return none
    else return some (← numberAt document position)

/-- `bool_at`, `tools/metrics_exporter.cpp:234–243`: the truth value whose letters stand behind
the whitespace, whatever follows them. -/
def boolAt (document : Bytes) (rawPosition : Nat) : Checked Bool := do
  let position := skipSpace document rawPosition
  if (← substr document position 4) == ascii "true" then return true
  else if (← substr document position 5) == ascii "false" then return false
  else .error (.exception (ascii "expected a JSON boolean"))

/-- `bool_value`, `tools/metrics_exporter.cpp:245–247`: the truth value of a key that has to be
there. -/
def boolValue (document key : Bytes) : Checked Bool := do
  boolAt document (← requiredValue document key)

/-- `unsigned_value`, `tools/metrics_exporter.cpp:249–258`: a number read as a `double`, checked
to be integral and in range, and converted. -/
def unsignedValue (document key : Bytes) : Checked UInt64 := do
  unsignedOf key (← numberValue document key)

/-- `struct Distribution`, `tools/metrics_exporter.cpp:260–270`: the statistics of one scope. -/
structure Distribution where
  samples : UInt64
  mean : Double
  minimum : Double
  p50 : Double
  p90 : Double
  p95 : Double
  p99 : Double
  maximum : Double
  stddev : Double
deriving DecidableEq

/-- `parse_distribution`, `tools/metrics_exporter.cpp:272–284`: the statistics in the text of an
object. -/
def parseDistribution (object : Bytes) : Checked Distribution := do
  return {
    samples := ← unsignedValue object (ascii "samples")
    mean := ← numberValue object (ascii "mean")
    minimum := ← numberValue object (ascii "min")
    p50 := ← numberValue object (ascii "p50")
    p90 := ← numberValue object (ascii "p90")
    p95 := ← numberValue object (ascii "p95")
    p99 := ← numberValue object (ascii "p99")
    maximum := ← numberValue object (ascii "max")
    stddev := ← numberValue object (ascii "stddev") }

/-- `struct Snapshot`, `tools/metrics_exporter.cpp:286–308`: what the exporter keeps of a
document. -/
structure Snapshot where
  version : Bytes
  revision : Bytes
  model : Bytes
  backend : Bytes
  backendVersion : Bytes
  device : Bytes
  samples : UInt64
  inputSize : UInt64
  batchSize : UInt64
  fallbackUsed : Bool
  cudaGraph : Bool
  throughputIps : Double
  throughputSamplesPerSecond : Double
  endToEnd : Distribution
  deviceCompute : Option Distribution
  validationPassed : Option Bool
  validationElements : Option UInt64
  sloScope : Bytes
  sloTargetUs : Option Double
  sloObservedP99Us : Option Double
  sloPassed : Option Bool
deriving DecidableEq

/-- The device distribution inside `parse_snapshot`. -/
def parseDeviceCompute (latency : Bytes) : Checked (Option Distribution) := do
  let position ← requiredValue latency (ascii "device_compute")
  if ← isNull latency position then return none
  else return some (← parseDistribution (← objectAt latency position))

/-- The validation verdict and element count inside `parse_snapshot`. -/
def parseValidation (document : Bytes) : Checked (Option Bool × Option UInt64) := do
  let position ← requiredValue document (ascii "validation")
  if ← isNull document position then return (none, none)
  else
    let validation ← objectAt document position
    let passed ← boolValue validation (ascii "passed")
    match findValue validation (ascii "checked_elements") with
    | none => return (some passed, none)
    | some _ => return (some passed, some (← unsignedValue validation (ascii "checked_elements")))

/-- The SLO verdict inside `parse_snapshot`. -/
def parseSloPassed (slo : Bytes) : Checked (Option Bool) :=
  match findValue slo (ascii "passed") with
  | none => .ok none
  | some position => do
    if ← isNull slo position then return none
    else return some (← boolAt slo position)

/-- `parse_snapshot`, `tools/metrics_exporter.cpp:310–366`: the snapshot of a document of the
second schema, read in the order of the source. -/
def parseSnapshot (document : Bytes) : Checked Snapshot := do
  let schemaVersion ← unsignedValue document (ascii "schema_version")
  throwUnless (schemaVersion = 2) (ascii "unsupported metrics schema version")
  let build ← objectValue document (ascii "build")
  let environment ← objectValue document (ascii "environment")
  let latency ← objectValue document (ascii "latency_us")
  let endToEnd ← objectValue latency (ascii "end_to_end")
  let deviceCompute ← parseDeviceCompute latency
  let validation ← parseValidation document
  let slo ← objectValue document (ascii "slo")
  let sloPassed ← parseSloPassed slo
  return {
    version := ← stringValue build (ascii "version")
    revision := ← stringValue build (ascii "revision")
    model := ← stringValue document (ascii "model")
    backend := ← stringValue document (ascii "backend")
    backendVersion :=
      (← optionalStringValue environment (ascii "backend_version")).getD (ascii "unknown")
    device := ← stringValue environment (ascii "device")
    samples := ← unsignedValue document (ascii "samples")
    inputSize := ← unsignedValue document (ascii "input_size")
    batchSize := ← unsignedValue document (ascii "batch_size")
    fallbackUsed := ← boolValue document (ascii "fallback_used")
    cudaGraph := ← boolValue document (ascii "cuda_graph")
    throughputIps := ← numberValue document (ascii "throughput_ips")
    throughputSamplesPerSecond := ← numberValue document (ascii "throughput_samples_per_second")
    endToEnd := ← parseDistribution endToEnd
    deviceCompute := deviceCompute
    validationPassed := validation.1
    validationElements := validation.2
    sloScope := ← stringValue slo (ascii "scope")
    sloTargetUs := ← optionalNumberValue slo (ascii "target_us")
    sloObservedP99Us := ← optionalNumberValue slo (ascii "observed_p99_us")
    sloPassed := sloPassed }

end MarketData.Exporter
