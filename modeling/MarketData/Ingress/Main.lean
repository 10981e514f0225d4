import MarketData.Engine.Writer

/-!
# The end of the benchmark driver

What `main` of `src/main.cpp` does once `run_benchmark` has returned: it writes the
document to the file named by `--json-out`, when there is one, and turns the verdicts
into an exit code.
-/

namespace MarketData.Ingress

open ByteText Cpp

/-- What becomes of the metrics file. -/
inductive FileWrite where
  | written
  | openFailed
  | writeFailed
deriving DecidableEq

/-- The exit code of the target check. -/
def targetExitCode (options : RunOptions) (stats : InferenceStats) : Nat :=
  if Ieee.Number.zero.lt options.targetLatencyUs then
    match options.targetScope with
    | .deviceCompute =>
      match stats.deviceCompute with
      | none => 4
      | some selected => if options.targetLatencyUs.lt selected.p99Us then 3 else 0
    | .endToEnd => if options.targetLatencyUs.lt stats.endToEnd.p99Us then 3 else 0
  else 0

/-- The exit code of the verdicts: the validation comes before the target. -/
def verdictExitCode (options : RunOptions) (stats : InferenceStats) : Nat :=
  match stats.validation with
  | some validation => if validation.passed then targetExitCode options stats else 5
  | none => targetExitCode options stats

/-- The exit code of `main` after the benchmark, `src/main.cpp:197–220`. -/
def exitCode (options : RunOptions) (stats : InferenceStats) (file : FileWrite) : Nat :=
  if options.metricsPath ≠ [] ∧ file ≠ .written then 2 else verdictExitCode options stats

end MarketData.Ingress
