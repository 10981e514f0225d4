import MarketData.Base.Checked
import MarketData.Json.Syntax

/-!
# Run reader of the metrics comparator

`JsonReader` and `parse_metrics` of `tools/metrics_compare.cpp`. An object is a span of
the text; a member is found by passing over the members before it. Loops over positions
recurse on the bytes left at the cursor, and the loop over members on the distance to
the closing brace.
-/

namespace MarketData.Comparator

open ByteText Cpp

/-- `struct Span`, `tools/metrics_compare.cpp:19–22`: where an object is opened and where it is
closed. -/
structure Span where
  opening : Nat
  closing : Nat
deriving DecidableEq

/-- `skip_space`, `tools/metrics_compare.cpp:113–122`: the first position from the given one on
without whitespace. -/
def skipSpace (text : Bytes) (position : Nat) : Nat := skipWhile isSpace text position

/-- `text.compare(start, count, word) == 0`, which throws when the start lies past the end. -/
def compareAt (text : Bytes) (start count : Nat) (word : Bytes) : Checked Bool :=
  match substr? text start count with
  | some slice => .ok (slice == word)
  | none => .error (.exception (ascii "basic_string::compare"))

/-- The loop of `parse_string`: the decoded value and the position behind the string. A unicode
escape is kept as it is written. -/
def parseStringLoop : Bytes → Nat → Bytes → Checked (Bytes × Nat)
  | [], _, _ => .error (.exception (ascii "unterminated JSON string"))
  | c :: rest, cursor, value =>
    if c = quote then .ok (value, cursor + 1)
    else if c ≠ backslash then parseStringLoop rest (cursor + 1) (value ++ [c])
    else
      match rest with
      | [] => .error (.exception (ascii "unterminated JSON escape sequence"))
      | letter :: rest =>
        match Json.simpleEscape? letter with
        | some b => parseStringLoop rest (cursor + 2) (value ++ [b])
        | none =>
          if letter = 117 then
            match rest with
            | x :: y :: z :: w :: rest =>
              if [x, y, z, w].all Json.isHexDigit then
                parseStringLoop rest (cursor + 6) (value ++ [backslash, 117, x, y, z, w])
              else .error (.exception (ascii "invalid JSON unicode escape"))
            | _ => .error (.exception (ascii "incomplete JSON unicode escape"))
          else .error (.exception (ascii "invalid JSON escape sequence"))

/-- `parse_string`, `tools/metrics_compare.cpp:124–173`: the string that is opened at a position,
decoded, and the position behind its closing quote. -/
def parseString (text : Bytes) (position : Nat) : Checked (Bytes × Nat) :=
  match text.drop position with
  | [] => .error (.exception (ascii "expected a JSON string"))
  | c :: rest =>
    if c = quote then parseStringLoop rest (position + 1) []
    else .error (.exception (ascii "expected a JSON string"))

/-- The check of a closing delimiter inside `matching_delimiter`; what stays open. -/
def popDelimiter (c : UInt8) (expected : Bytes) : Checked Bytes :=
  match expected with
  | [] => .error (.exception (ascii "mismatched JSON container delimiter"))
  | delimiter :: outer =>
    if c ≠ delimiter then .error (.exception (ascii "mismatched JSON container delimiter"))
    else .ok outer

/-- The loop of `matching_delimiter`; `skip` counts the bytes of a string still to pass and
`expected` holds the delimiters that close the open containers, the innermost first. -/
def matchingDelimiterLoop (text : Bytes) : Bytes → Nat → Nat → Bytes → Checked Nat
  | [], _, _, _ => .error (.exception (ascii "unterminated JSON container"))
  | _ :: rest, cursor, skip + 1, expected =>
    matchingDelimiterLoop text rest (cursor + 1) skip expected
  | c :: rest, cursor, 0, expected =>
    if c = quote then do
      let parsed ← parseString text cursor
      matchingDelimiterLoop text rest (cursor + 1) (parsed.2 - (cursor + 1)) expected
    else if c = openBrace then
      matchingDelimiterLoop text rest (cursor + 1) 0 (closeBrace :: expected)
    else if c = openBracket then
      matchingDelimiterLoop text rest (cursor + 1) 0 (closeBracket :: expected)
    else if c = closeBrace ∨ c = closeBracket then do
      let outer ← popDelimiter c expected
      if outer = [] then return cursor
      else matchingDelimiterLoop text rest (cursor + 1) 0 outer
    else matchingDelimiterLoop text rest (cursor + 1) 0 expected

/-- `matching_delimiter`, `tools/metrics_compare.cpp:175–203`: where the container that is opened
at a position is closed. -/
def matchingDelimiter (text : Bytes) (position : Nat) : Checked Nat :=
  match text.drop position with
  | [] => .error (.exception (ascii "expected a JSON container"))
  | c :: rest =>
    if c = openBrace then matchingDelimiterLoop text rest (position + 1) 0 [closeBrace]
    else if c = openBracket then matchingDelimiterLoop text rest (position + 1) 0 [closeBracket]
    else .error (.exception (ascii "expected a JSON container"))

/-- `skip_value`, `tools/metrics_compare.cpp:205–230`: the position behind the value that starts
at or after a position. -/
def skipValue (text : Bytes) (position : Nat) : Checked Nat :=
  let start := skipSpace text position
  match text[start]? with
  | none => .error (.exception (ascii "missing JSON value"))
  | some c =>
    if c = quote then Prod.snd <$> parseString text start
    else if c = openBrace ∨ c = openBracket then (· + 1) <$> matchingDelimiter text start
    else
      let cursor := skipWhile (fun b ↦ !Json.isDelimiter b) text start
      if cursor = start then .error (.exception (ascii "missing JSON scalar value"))
      else .ok cursor

/-- The loop of `find`. Each pass moves on by a byte at least, so `fuel` starts as the distance
to the closing brace and the loop has ended when it is used up. -/
def findLoop (text : Bytes) (object : Span) (wanted : Bytes) : Nat → Nat → Checked (Option Nat)
  | 0, _ => .ok none
  | fuel + 1, position =>
    if object.closing ≤ position then .ok none
    else do
      let (key, afterKey) ← parseString text position
      let position := skipSpace text afterKey
      throwUnless (position < object.closing ∧ text[position]? = some colon)
        (ascii "expected ':' after a JSON object key")
      let value := skipSpace text (position + 1)
      if key = wanted then return some value
      else
        let position := skipSpace text (← skipValue text value)
        if position = object.closing then return none
        else
          throwUnless (text[position]? = some comma)
            (ascii "expected ',' between JSON object fields")
          findLoop text object wanted fuel (skipSpace text (position + 1))

/-- `find`, `tools/metrics_compare.cpp:88–111`: where the value of the first direct member with a
name starts, if there is one. -/
def find (text : Bytes) (object : Span) (wanted : Bytes) : Checked (Option Nat) :=
  let position := skipSpace text (object.opening + 1)
  findLoop text object wanted (object.closing - position) position

/-- `required`, `tools/metrics_compare.cpp:37–43`: where the value of a member starts that has to
be there. -/
def required (text : Bytes) (object : Span) (key : Bytes) : Checked Nat := do
  match ← find text object key with
  | some value => return value
  | none => .error (.exception (ascii "missing JSON field: " ++ key))

/-- `object_at`, `tools/metrics_compare.cpp:45–51`: the object that starts behind the whitespace
at a position. -/
def objectAt (text : Bytes) (position : Nat) : Checked Span :=
  let start := skipSpace text position
  if text[start]? = some openBrace then Span.mk start <$> matchingDelimiter text start
  else .error (.exception (ascii "expected a JSON object"))

/-- `root_object`, `tools/metrics_compare.cpp:28–35`: the object that the document consists of,
with whitespace around it only. -/
def rootObject (text : Bytes) : Checked Span := do
  let root ← objectAt text (skipSpace text 0)
  throwUnless (skipSpace text (root.closing + 1) = text.length)
    (ascii "unexpected content after the JSON document")
  return root

/-- `is_null`, `tools/metrics_compare.cpp:53–56`: the four letters behind the whitespace are the
word. -/
def isNull (text : Bytes) (position : Nat) : Checked Bool :=
  compareAt text (skipSpace text position) 4 (ascii "null")

/-- `string_at`, `tools/metrics_compare.cpp:58–60`: the string behind the whitespace at a
position, decoded. -/
def stringAt (text : Bytes) (position : Nat) : Checked Bytes :=
  Prod.fst <$> parseString text (skipSpace text position)

/-- `bool_at`, `tools/metrics_compare.cpp:62–71`: the truth value whose letters stand behind the
whitespace, whatever follows them. -/
def boolAt (text : Bytes) (position : Nat) : Checked Bool := do
  let start := skipSpace text position
  if ← compareAt text start 4 (ascii "true") then return true
  else if ← compareAt text start 5 (ascii "false") then return false
  else .error (.exception (ascii "expected a JSON boolean"))

/-- `number_at`, `tools/metrics_compare.cpp:73–85`: the finite number that `strtod` makes of the
value at a position as a whole. -/
def numberAt (text : Bytes) (position : Nat) : Checked Double := do
  let start := skipSpace text position
  let last ← skipValue text start
  match Ieee.finiteToken? ((text.drop start).take (last - start)) with
  | some value => return value
  | none => .error (.exception (ascii "expected a finite JSON number"))

/-- `exact_unsigned`, `tools/metrics_compare.cpp:244–254`: a number read as a `double`, checked to
be integral and in range, and converted. -/
def exactUnsigned (text : Bytes) (position : Nat) (field : Bytes) : Checked UInt64 := do
  unsignedOf field (← numberAt text position)

/-- `struct RunMetrics`, `tools/metrics_compare.cpp:235–242`: the statistic of a run with its
context. -/
structure RunMetrics where
  latencyUs : Double
  backend : Bytes
  device : Bytes
  inputSize : UInt64
  batchSize : UInt64
  cudaGraph : Bool
deriving DecidableEq

/-- `valid_metrics`, `tools/metrics_compare.cpp:451`: the statistics that may be compared. -/
def validMetrics : List Bytes :=
  [ascii "mean", ascii "p50", ascii "p90", ascii "p95", ascii "p99", ascii "max"]

/-- The key of a scope inside `parse_metrics`, `tools/metrics_compare.cpp:262`. -/
def scopeKey (scope : Bytes) : Bytes :=
  if scope = ascii "e2e" then ascii "end_to_end" else ascii "device_compute"

/-- `parse_metrics`, `tools/metrics_compare.cpp:256–279`: the statistic of a document in a scope,
with the context of the run. -/
def parseMetrics (document scope metric : Bytes) : Checked RunMetrics := do
  let root ← rootObject document
  let latency ← objectAt document (← required document root (ascii "latency_us"))
  let scopeValue ← required document latency (scopeKey scope)
  throwUnless ((← isNull document scopeValue) = false)
    (ascii "requested latency scope is null: " ++ scopeKey scope)
  let distribution ← objectAt document scopeValue
  let environment ← objectAt document (← required document root (ascii "environment"))
  return {
    latencyUs := ← numberAt document (← required document distribution metric)
    backend := ← stringAt document (← required document root (ascii "backend"))
    device := ← stringAt document (← required document environment (ascii "device"))
    inputSize := ← exactUnsigned document (← required document root (ascii "input_size"))
      (ascii "input_size")
    batchSize := ← exactUnsigned document (← required document root (ascii "batch_size"))
      (ascii "batch_size")
    cudaGraph := ← boolAt document (← required document root (ascii "cuda_graph")) }

end MarketData.Comparator
