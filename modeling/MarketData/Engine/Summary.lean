import MarketData.Engine.Types
import Mathlib.Data.List.Sort

/-!
# Latency summary

`percentile` and `summarize` of `src/benchmark.cpp`, over any arithmetic. Sorting needs
values that compare, so a NaN among them is undefined behaviour.
-/

namespace MarketData

open Cpp

variable {α : Type} [Arithmetic α]

/-- `percentile`, `src/benchmark.cpp:28–37`: the value at a position between two ranks of a sorted
list, by linear interpolation; zero for the empty list. -/
def percentile (sorted : List α) (p : α) : Checked α :=
  if sorted.isEmpty then .ok 0
  else do
    let position := clamp p 0 (literal 1) * literal ((sorted.length - 1 : Nat) : ℚ)
    let lower ← Arithmetic.floorIndex position
    let upper ← Arithmetic.ceilIndex position
    let weight := position - literal (lower : ℚ)
    let low ← element sorted lower
    let high ← element sorted upper
    .ok (low + (high - low) * weight)

/-- `std::sort` by `<`, which is defined where `<` is a strict weak order: without a NaN. -/
def sortValues (values : List α) : Checked (List α) :=
  if values.any Arithmetic.isNan then .error .undefined
  else .ok (values.insertionSort (fun a b ↦ Arithmetic.lt b a = false))

/-- `std::accumulate` from zero: the sum from the left. -/
def accumulate (values : List α) : α := values.foldl (· + ·) 0

/-- The sum of the squared deviations from the mean. -/
def squaredDeviations (mean : α) (values : List α) : α :=
  values.foldl (fun variance value ↦ variance + (value - mean) * (value - mean)) 0

/-- `summarize`, `src/benchmark.cpp:39–63`: the statistics of a list of latencies, none for the
empty list. -/
def summarize (values : List α) : Checked (LatencyDistribution α) :=
  if values.isEmpty then .ok {}
  else do
    let sorted ← sortValues values
    let count : α := literal (sorted.length : ℚ)
    let mean := accumulate sorted / count
    let p50 ← percentile sorted (literal (50 / 100))
    let p90 ← percentile sorted (literal (90 / 100))
    let p95 ← percentile sorted (literal (95 / 100))
    let p99 ← percentile sorted (literal (99 / 100))
    .ok {
      samples := UInt64.ofNat sorted.length
      meanUs := mean
      minUs := sorted.headD 0
      p50Us := p50
      p90Us := p90
      p95Us := p95
      p99Us := p99
      maxUs := sorted.getLastD 0
      stddevUs := Arithmetic.sqrt (squaredDeviations mean sorted / count) }

/-- A summary of at least one value counts the values and has their mean. -/
theorem summarize_eq_ok {values : List α} {d : LatencyDistribution α} (hne : values ≠ [])
    (h : summarize values = .ok d) :
    ∃ sorted, sorted.Perm values ∧ d.samples = UInt64.ofNat values.length ∧
      d.meanUs = accumulate sorted / literal (values.length : ℚ) := by
  rw [summarize, if_neg (by simpa using hne)] at h
  obtain ⟨sorted, hs, h⟩ := bind_eq_ok.mp h
  obtain ⟨_, -, h⟩ := bind_eq_ok.mp h
  obtain ⟨_, -, h⟩ := bind_eq_ok.mp h
  obtain ⟨_, -, h⟩ := bind_eq_ok.mp h
  obtain ⟨_, -, h⟩ := bind_eq_ok.mp h
  obtain rfl := Except.ok.inj h
  have hp : sorted.Perm values := by
    unfold sortValues at hs
    split at hs
    · cases hs
    · obtain rfl := Except.ok.inj hs
      exact List.perm_insertionSort _ _
  exact ⟨sorted, hp, by rw [hp.length_eq], by rw [hp.length_eq]⟩

end MarketData
