import MarketData.Comparator.Metrics
import MarketData.Pipeline.Telemetry

/-!
# Documents that both readers accept

The writer replaces six fields by null when there is nothing to write. The exporter and
the comparator tolerate five of them. The device name is read as a string by both, so a
document without one is rejected by both.
-/

namespace MarketData.Pipeline

open ByteText Cpp

/-- The exporter accepts the document, and the comparator accepts it for every metric. -/
def Readable (document : Bytes) : Prop :=
  (∃ s, Exporter.parseSnapshot document = .ok s) ∧
    ∀ metric ∈ Comparator.validMetrics,
      ∃ m, Comparator.parseMetrics document (ascii "e2e") metric = .ok m

/-- With finite numbers and exact integers a document is readable exactly when the backend reported
a device name. -/
theorem readable_iff {build : Build} {options : RunOptions} {stats : InferenceStats}
    (hn : FiniteNumbers options stats) (hi : ExactIntegers options stats) :
    Readable (formatMetricsJson build options stats) ↔ stats.runtime.deviceName ≠ [] := by
  constructor
  · rintro ⟨⟨s, hs⟩, -⟩ hd
    have ha := (Exporter.parseSnapshot_eq_ok.mp hs).device
    rw [hd] at ha
    cases ha
  · intro hd
    refine ⟨⟨_, Exporter.parseSnapshot_eq_ok.mpr (agrees_runSnapshot hn hi hd)⟩, fun metric hm ↦ ?_⟩
    rw [← Comparator.names_statistics stats.endToEnd] at hm
    obtain ⟨m, hs, rfl⟩ := List.mem_map.mp hm
    rw [formatMetricsJson_document, Comparator.parseMetrics_endToEnd _ _ _ _ hs]
    exact ⟨_, Comparator.readMetrics_ok (Comparator.isFinite_statistic hn.endToEnd hs)
      hi.inputSize hi.batchSize hd⟩

/-- The document of the short run is readable. -/
theorem readable_sample :
    Readable (formatMetricsJson {} {} sampleStats) ↔ sampleStats.runtime.deviceName ≠ [] :=
  readable_iff (by decide +kernel) (by decide +kernel)

/-- The short run on a backend that reports no runtime metadata. -/
def anonymousStats : InferenceStats := { sampleStats with runtime := {} }

/-- Its numbers are finite and its integers exact, and its document is not readable: both readers
throw at the device name. -/
theorem anonymous_not_readable :
    FiniteNumbers {} anonymousStats ∧ ExactIntegers {} anonymousStats ∧
      Exporter.parseSnapshot (formatMetricsJson {} {} anonymousStats) =
        .error (.exception (ascii "expected a JSON string")) ∧
      Comparator.parseMetrics (formatMetricsJson {} {} anonymousStats) (ascii "e2e") (ascii "p99") =
        .error (.exception (ascii "expected a JSON string")) ∧
      ¬ Readable (formatMetricsJson {} {} anonymousStats) := by
  have he : Exporter.parseSnapshot (formatMetricsJson {} {} anonymousStats) =
      .error (.exception (ascii "expected a JSON string")) := by
    rw [Exporter.parseSnapshot_formatMetricsJson]
    decide +kernel
  refine ⟨by decide +kernel, by decide +kernel, he, ?_, fun ⟨⟨s, hs⟩, _⟩ ↦ ?_⟩
  · rw [formatMetricsJson_document, Comparator.parseMetrics_endToEnd {} {} anonymousStats _
      (m := ("p99", doubleOf 3)) (by simp [Comparator.statistics, anonymousStats, sampleStats,
        sampleDistribution])]
    decide +kernel
  · rw [he] at hs
    cases hs

end MarketData.Pipeline
