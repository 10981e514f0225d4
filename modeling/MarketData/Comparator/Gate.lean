import MarketData.Base.Arithmetic
import MarketData.Comparator.Reader

/-!
# Regression gate of the metrics comparator

`context_differences`, `parse_nonnegative` and `main` of `tools/metrics_compare.cpp`. The
gate is written over any arithmetic, so that it can also be read in exact rational numbers.
The report and the unit tests behind `--self-test` are left out.
-/

namespace MarketData.Comparator

open ByteText Cpp Ieee

/-- `context_differences`, `tools/metrics_compare.cpp:306–315`: the names of the context fields in
which two runs differ, in the order of the fields. -/
def contextDifferences (baseline candidate : RunMetrics) : List Bytes :=
  (if baseline.backend ≠ candidate.backend then [ascii "backend"] else []) ++
  (if baseline.device ≠ candidate.device then [ascii "device"] else []) ++
  (if baseline.inputSize ≠ candidate.inputSize then [ascii "input_size"] else []) ++
  (if baseline.batchSize ≠ candidate.batchSize then [ascii "batch_size"] else []) ++
  (if baseline.cudaGraph ≠ candidate.cudaGraph then [ascii "cuda_graph"] else [])

/-- The guard finds no difference exactly when the metrics agree in every context field. -/
theorem contextDifferences_eq_nil {a b : RunMetrics} :
    contextDifferences a b = [] ↔ a.backend = b.backend ∧ a.device = b.device ∧
      a.inputSize = b.inputSize ∧ a.batchSize = b.batchSize ∧ a.cudaGraph = b.cudaGraph := by
  have hfield : ∀ {p : Prop} [Decidable p] (name : Bytes),
      (if ¬p then [name] else []) = [] ↔ p := by
    intro p _ name
    split <;> simp_all
  simp only [contextDifferences, ne_eq, List.append_eq_nil_iff, hfield, and_assoc]

/-- `parse_nonnegative`, `tools/metrics_compare.cpp:294–304`: the budget that an option gives,
which must be a finite number as a whole and not below zero. -/
def parseNonnegative (text option : Bytes) : Checked Double :=
  match finiteToken? text with
  | some value =>
    if value.lt .zero then
      .error (.exception (option ++ ascii " requires a finite non-negative number"))
    else .ok value
  | none => .error (.exception (option ++ ascii " requires a finite non-negative number"))

/-! ### Arguments -/

/-- The options of `main` with their defaults, `tools/metrics_compare.cpp:396–402`. -/
structure Arguments where
  baselinePath : Bytes := []
  candidatePath : Bytes := []
  scope : Bytes := ascii "e2e"
  metric : Bytes := ascii "p99"
  maxRegressionPercent : Double := doubleOf 5
  absoluteToleranceUs : Double := doubleOf 0
  allowContextChange : Bool := false

/-- What the arguments ask for. -/
inductive Request where
  | help
  | selfTest
  | compare (arguments : Arguments)

/-- The options that take a value, with what becomes of it. -/
def valueOption? (argument : Bytes) : Option (Bytes → Arguments → Checked Arguments) :=
  if argument = ascii "--baseline" then
    some (fun value a ↦ .ok { a with baselinePath := value })
  else if argument = ascii "--candidate" then
    some (fun value a ↦ .ok { a with candidatePath := value })
  else if argument = ascii "--scope" then some (fun value a ↦ .ok { a with scope := value })
  else if argument = ascii "--metric" then some (fun value a ↦ .ok { a with metric := value })
  else if argument = ascii "--max-regression-percent" then
    some (fun value a ↦ do
      return { a with maxRegressionPercent := ← parseNonnegative value argument })
  else if argument = ascii "--absolute-tolerance-us" then
    some (fun value a ↦ do
      return { a with absoluteToleranceUs := ← parseNonnegative value argument })
  else none

/-- The loop over the arguments in `main`, `tools/metrics_compare.cpp:404–444`. -/
def parseArguments (a : Arguments) : List Bytes → Checked Request
  | [] => .ok (.compare a)
  | argument :: rest =>
    if argument = ascii "--help" then .ok .help
    else if argument = ascii "--self-test" then .ok .selfTest
    else
      match valueOption? argument, rest with
      | some set, value :: rest => do parseArguments (← set value a) rest
      | some _, [] => .error (.exception (argument ++ ascii " requires a value"))
      | none, rest =>
        if argument = ascii "--allow-context-change" then
          parseArguments { a with allowContextChange := true } rest
        else .error (.exception (ascii "unknown option: " ++ argument))

/-! ### Comparison -/

/-- The arithmetic of the gate: how a parsed number enters it and what it computes with. -/
class GateArithmetic (α : Type) extends Add α, Mul α, Div α where
  constant : ℚ → α
  ofDouble : Double → α
  le : α → α → Bool

/-- The gate as it is compiled. -/
instance : GateArithmetic Double where
  constant := Number.round binary64 false
  ofDouble := id
  le := Number.le

/-- The gate in exact arithmetic. -/
instance : GateArithmetic ℚ where
  constant := id
  ofDouble := Number.toRat
  le x y := decide (x ≤ y)

export GateArithmetic (constant ofDouble)

/-- What `read_file` meets. -/
inductive FileContents where
  | text (contents : Bytes)
  | unopened
  | unreadable

/-- `read_file`, `tools/metrics_compare.cpp:281–292`: the contents of a file that can be opened
and read. -/
def readFile (files : Bytes → FileContents) (path : Bytes) : Checked Bytes :=
  match files path with
  | .text contents => .ok contents
  | .unopened => .error (.exception (ascii "cannot open metrics file: " ++ path))
  | .unreadable => .error (.exception (ascii "cannot read metrics file: " ++ path))

/-- A file is read exactly when it has contents. -/
theorem readFile_eq_ok {files : Bytes → FileContents} {path text : Bytes} :
    readFile files path = .ok text ↔ files path = .text text := by
  unfold readFile
  cases files path <;> simp

section

variable {α : Type} [GateArithmetic α]

/-- The latency a candidate may have. -/
def limit (baseline maxRegressionPercent absoluteTolerance : α) : α :=
  baseline * (constant 1 + maxRegressionPercent / constant 100) + absoluteTolerance

/-- The candidate stays within the limit. -/
def passed (baseline candidate : RunMetrics) (maxRegressionPercent absoluteTolerance : α) : Bool :=
  GateArithmetic.le (ofDouble candidate.latencyUs)
    (limit (ofDouble baseline.latencyUs) maxRegressionPercent absoluteTolerance)

/-- `main` behind the arguments and up to its handler, `tools/metrics_compare.cpp:446–492`: the
checks of the options, the two documents, the guard of the context and the gate. -/
def compareRuns (files : Bytes → FileContents) (a : Arguments)
    (maxRegressionPercent absoluteTolerance : α) : Checked Nat := do
  throwUnless (¬ (a.baselinePath = [] ∨ a.candidatePath = []))
    (ascii "--baseline and --candidate are required")
  throwUnless (¬ (a.scope ≠ ascii "e2e" ∧ a.scope ≠ ascii "device"))
    (ascii "--scope must be e2e or device")
  throwUnless (a.metric ∈ validMetrics) (ascii "unsupported metric: " ++ a.metric)
  let baseline ← parseMetrics (← readFile files a.baselinePath) a.scope a.metric
  let candidate ← parseMetrics (← readFile files a.candidatePath) a.scope a.metric
  if a.allowContextChange = false ∧ contextDifferences baseline candidate ≠ [] then return 4
  else if passed baseline candidate maxRegressionPercent absoluteTolerance then return 0
  else return 1

end

/-- The handler of `main`, `tools/metrics_compare.cpp:493–496`: an exception ends the tool with 2.
-/
def handled (x : Checked Nat) : Checked Nat :=
  match x with
  | .error (.exception _) => .ok 2
  | outcome => outcome

/-- A computation that returned needs no handler. -/
@[simp] theorem handled_ok (n : Nat) : handled (.ok n) = .ok n := rfl

/-- The exit code of `main`, `tools/metrics_compare.cpp:394–498`, the unit tests apart. -/
def exitCode (files : Bytes → FileContents) (selfTest : Checked Nat) (arguments : List Bytes) :
    Checked Nat :=
  handled (do
    match ← parseArguments {} arguments with
    | .help => return 0
    | .selfTest => selfTest
    | .compare a => compareRuns files a a.maxRegressionPercent a.absoluteToleranceUs)

end MarketData.Comparator
