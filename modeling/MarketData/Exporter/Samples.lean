import MarketData.Exporter.Exposition

/-!
# The samples of a snapshot

The lines that `render_snapshot` and `render_exporter_state` write, and the samples a
scrape reads from them. No string of the snapshot changes how a line is read.
-/

namespace MarketData.Exporter

open ByteText Cpp Prometheus

/-! ### Lines -/

/-- The help and type comments of a metric. -/
def header (name help type : String) : List Line :=
  [.comment (ascii "HELP " ++ (ascii name ++ (ascii " " ++ ascii help))),
   .comment (ascii "TYPE " ++ (ascii name ++ (ascii " " ++ ascii type)))]

/-- A sample line. -/
def sampleLine (name : String) (labels : Labels) (value : Bytes) : Line :=
  .sample ⟨ascii name, labels, value⟩

/-- A gauge with its comments. -/
def gauge (name help : String) (labels : Labels) (value : Bytes) : List Line :=
  header name help "gauge" ++ [sampleLine name labels value]

/-- The label of a scope. -/
def scopeLabel (scope : Bytes) : Bytes × Bytes := (ascii "scope", scope)

/-- The label of a quantile. -/
def quantileLabel (quantile : String) : Bytes × Bytes := (ascii "quantile", ascii quantile)

/-- The sample lines of a distribution. -/
def distributionLines (scope : Bytes) (d : Distribution) : List Line :=
  let labels := [scopeLabel scope]
  [sampleLine "marketdata_inference_latency_us" (labels ++ [quantileLabel "0.5"])
    (printGeneral d.p50),
   sampleLine "marketdata_inference_latency_us" (labels ++ [quantileLabel "0.9"])
    (printGeneral d.p90),
   sampleLine "marketdata_inference_latency_us" (labels ++ [quantileLabel "0.95"])
    (printGeneral d.p95),
   sampleLine "marketdata_inference_latency_us" (labels ++ [quantileLabel "0.99"])
    (printGeneral d.p99),
   sampleLine "marketdata_inference_latency_us_sum" labels
    (printGeneral (d.mean.mul (doubleOf d.samples))),
   sampleLine "marketdata_inference_latency_us_count" labels (printUnsigned d.samples),
   sampleLine "marketdata_inference_latency_mean_us" labels (printGeneral d.mean),
   sampleLine "marketdata_inference_latency_min_us" labels (printGeneral d.minimum),
   sampleLine "marketdata_inference_latency_max_us" labels (printGeneral d.maximum),
   sampleLine "marketdata_inference_latency_stddev_us" labels (printGeneral d.stddev)]

/-- The lines of the first part of a snapshot. -/
def runLines (s : Snapshot) (timestamp : Double) : List Line :=
  gauge "marketdata_build_info" "Build, model, backend, and device provenance."
    [(ascii "version", s.version), (ascii "revision", s.revision), (ascii "model", s.model),
      (ascii "backend", s.backend), (ascii "backend_version", s.backendVersion),
      (ascii "device", s.device)] (ascii "1") ++
  (gauge "marketdata_metrics_file_timestamp_seconds"
    "Modification time of the loaded snapshot." [] (printGeneral timestamp) ++
  (gauge "marketdata_inference_run_samples" "Measured inference iterations in the snapshot." []
    (printUnsigned s.samples) ++
  (gauge "marketdata_inference_input_elements" "Elements per input sample." []
    (printUnsigned s.inputSize) ++
  (gauge "marketdata_inference_batch_size" "Samples per inference batch." []
    (printUnsigned s.batchSize) ++
  (gauge "marketdata_inference_fallback_used" "Whether mock fallback was used." []
    (printFlag s.fallbackUsed) ++
  (gauge "marketdata_inference_cuda_graph_enabled" "Whether CUDA Graph replay was enabled." []
    (printFlag s.cudaGraph) ++
  (gauge "marketdata_inference_throughput_inferences_per_second"
    "Completed inference calls per second." [] (printGeneral s.throughputIps) ++
  (gauge "marketdata_inference_throughput_samples_per_second" "Completed samples per second." []
    (printGeneral s.throughputSamplesPerSecond) ++
  (header "marketdata_inference_latency_us" "Inference latency distribution summary." "summary" ++
  (header "marketdata_inference_latency_mean_us" "Mean inference latency." "gauge" ++
  (header "marketdata_inference_latency_min_us" "Minimum inference latency." "gauge" ++
  (header "marketdata_inference_latency_max_us" "Maximum inference latency." "gauge" ++
  header "marketdata_inference_latency_stddev_us" "Latency standard deviation." "gauge"
  ))))))))))))

/-- The lines of the device part of a snapshot. -/
def deviceLines (s : Snapshot) : List Line :=
  match s.deviceCompute with
  | none => []
  | some d =>
    distributionLines (ascii "device_compute") d ++
      gauge "marketdata_inference_host_overhead_p99_us"
        "Difference between end-to-end and device p99." [] (printGeneral (s.endToEnd.p99.sub d.p99))

/-- The lines of the last part of a snapshot. -/
def verdictLines (s : Snapshot) : List Line :=
  gauge "marketdata_inference_validation_enabled" "Whether output validation was performed." []
    (printFlag s.validationPassed.isSome) ++
  (gauge "marketdata_inference_validation_pass" "Whether output validation passed." []
    (printFlag (s.validationPassed.getD false)) ++
  (gauge "marketdata_inference_validation_elements" "Number of validated output elements." []
    (printUnsigned (s.validationElements.getD 0)) ++
  (gauge "marketdata_inference_slo_configured" "Whether an SLO was configured for this run." []
    (printFlag s.sloTargetUs.isSome) ++
  (gauge "marketdata_inference_slo_target_us" "Configured p99 latency objective."
    [scopeLabel s.sloScope] (printGeneral (s.sloTargetUs.getD .zero)) ++
  (gauge "marketdata_inference_slo_observed_p99_us" "Observed p99 selected by the SLO."
    [scopeLabel s.sloScope] (printGeneral (s.sloObservedP99Us.getD s.endToEnd.p99)) ++
  gauge "marketdata_inference_slo_pass" "Whether the configured p99 objective passed." []
    (printFlag (s.sloPassed.getD false)))))))

/-- The lines of a snapshot. -/
def snapshotLines (s : Snapshot) (timestamp : Double) : List Line :=
  runLines s timestamp ++ (distributionLines (ascii "end_to_end") s.endToEnd ++
    (deviceLines s ++ verdictLines s))

/-- The lines of the exporter's own state. -/
def stateLines (state : ExporterState) (loadSuccess : Bool) : List Line :=
  header "marketdata_exporter_scrapes_total" "Metrics scrape attempts." "counter" ++
  (sampleLine "marketdata_exporter_scrapes_total" [] (printUnsigned state.scrapes) ::
  (header "marketdata_exporter_load_failures_total" "Snapshot load failures." "counter" ++
  (sampleLine "marketdata_exporter_load_failures_total" [] (printUnsigned state.failures) ::
  (gauge "marketdata_exporter_last_load_success" "Whether the latest snapshot load succeeded." []
    (printFlag loadSuccess) ++
  gauge "marketdata_exporter_last_success_timestamp_seconds"
    "Latest successful snapshot load." [] (printGeneral state.lastSuccessTimestamp)))))

/-! ### The text of the lines -/

private theorem escapeLabel_eq (value : Bytes) : escapeLabel value = escape value := by
  refine congrArg (fun f ↦ value.flatMap f) (funext fun c ↦ ?_)
  unfold Prometheus.escapeByte
  repeat' split
  all_goals rfl

private theorem exposition_append (a b : List Line) :
    exposition (a ++ b) = exposition a ++ exposition b := List.flatMap_append

private theorem exposition_gauge (name help : String) (labels : Labels) (value : Bytes) :
    exposition (gauge name help labels value) =
      ascii "# HELP " ++ (ascii name ++ (ascii " " ++ (ascii help ++ (ascii "\n# TYPE " ++
        (ascii name ++ (ascii " gauge\n" ++ (ascii name ++ (labelsText labels ++ (ascii " " ++
          (value ++ ascii "\n")))))))))) := by
  simp only [exposition, gauge, header, sampleLine, List.flatMap_cons, List.flatMap_nil, Line.text,
    Sample.text, List.append_assoc, List.cons_append, List.nil_append]
  rfl

set_option maxRecDepth 4000 in
private theorem exposition_distributionLines (scope : Bytes) (d : Distribution) :
    exposition (distributionLines scope d) = writeDistribution scope d := by
  simp only [exposition, distributionLines, sampleLine, List.flatMap_cons,
    List.flatMap_nil, Line.text, Sample.text, labelsText, moreLabels, labelText, scopeLabel,
    List.append_assoc, List.cons_append, List.nil_append, writeDistribution, stream,
    List.flatten_cons, List.flatten_nil, escapeLabel_eq, List.append_nil]
  rfl

private theorem exposition_header (name help type : String) :
    exposition (header name help type) =
      ascii "# HELP " ++ (ascii name ++ (ascii " " ++ (ascii help ++ (ascii "\n# TYPE " ++
        (ascii name ++ (ascii " " ++ (ascii type ++ ascii "\n"))))))) := by
  simp only [exposition, header, List.flatMap_cons, List.flatMap_nil, Line.text,
    List.append_assoc, List.cons_append, List.append_nil]
  rfl

private theorem exposition_sampleLine (name : String) (value : Bytes) (ls : List Line) :
    exposition (sampleLine name [] value :: ls) =
      ascii name ++ (ascii " " ++ (value ++ (ascii "\n" ++ exposition ls))) := by
  simp only [exposition, sampleLine, List.flatMap_cons, Line.text, Sample.text, labelsText,
    List.append_assoc, List.cons_append, List.nil_append]
  rfl

set_option maxRecDepth 20000 in
private theorem exposition_runLines (s : Snapshot) (timestamp : Double) :
    exposition (runLines s timestamp) = renderRun s timestamp := by
  simp only [runLines, exposition_append, exposition_gauge, exposition_header, labelsText,
    moreLabels, labelText, List.append_assoc, List.cons_append, List.nil_append, renderRun, stream,
    List.flatten_cons, List.flatten_nil, escapeLabel_eq, List.append_nil]
  rfl

set_option maxRecDepth 4000 in
private theorem exposition_deviceLines (s : Snapshot) :
    exposition (deviceLines s) = renderDeviceCompute s := by
  unfold deviceLines renderDeviceCompute
  cases s.deviceCompute with
  | none => rfl
  | some d =>
    simp only [exposition_append, exposition_gauge, exposition_distributionLines, labelsText,
      List.nil_append, stream, List.flatten_cons, List.flatten_nil, List.append_nil]
    rfl

set_option maxRecDepth 20000 in
private theorem exposition_verdictLines (s : Snapshot) :
    exposition (verdictLines s) = renderVerdicts s := by
  simp only [verdictLines, exposition_append, exposition_gauge, labelsText, moreLabels, labelText,
    scopeLabel, List.append_assoc, List.cons_append, List.nil_append, renderVerdicts, stream,
    List.flatten_cons, List.flatten_nil, escapeLabel_eq, List.append_nil]
  rfl

private theorem exposition_snapshotLines (s : Snapshot) (timestamp : Double) :
    exposition (snapshotLines s timestamp) = renderSnapshot s timestamp := by
  simp only [snapshotLines, exposition_append, exposition_runLines, exposition_distributionLines,
    exposition_deviceLines, exposition_verdictLines, renderSnapshot, stream, List.flatten_cons,
    List.flatten_nil, List.append_nil]

set_option maxRecDepth 10000 in
private theorem exposition_stateLines (state : ExporterState) (loadSuccess : Bool) :
    exposition (stateLines state loadSuccess) = renderExporterState state loadSuccess := by
  simp only [stateLines, exposition_append, exposition_header, exposition_sampleLine,
    exposition_gauge, labelsText, List.append_assoc, List.nil_append, renderExporterState, stream,
    List.flatten_cons, List.flatten_nil, List.append_nil]
  rfl

/-! ### The samples read back -/

private theorem newline_not_mem_printUnsigned (n : UInt64) : newline ∉ printUnsigned n :=
  fun h ↦ absurd (isDigit_of_mem_decimal h) (by decide)

private theorem newline_not_mem_printFlag (flag : Bool) : newline ∉ printFlag flag := by
  cases flag <;> decide

private theorem newline_not_mem_printGeneral (x : Double) : newline ∉ printGeneral x :=
  Ieee.newline_not_mem_formatGeneral 12 x

-- Lines can all be read back.
private def AllWellFormed (ls : List Line) : Prop := ∀ l ∈ ls, l.WellFormed

private theorem allWellFormed_append {a b : List Line} :
    AllWellFormed (a ++ b) ↔ AllWellFormed a ∧ AllWellFormed b := List.forall_mem_append

private theorem allWellFormed_sampleLine {name : String} {labels : Labels} {value : Bytes}
    {ls : List Line} : AllWellFormed (sampleLine name labels value :: ls) ↔
      (IsName (ascii name) ∧ (∀ l ∈ labels, IsName l.1) ∧ newline ∉ value) ∧ AllWellFormed ls :=
  List.forall_mem_cons

private theorem allWellFormed_nil : AllWellFormed [] := by simp [AllWellFormed]

private theorem allWellFormed_header {name help type : String} :
    AllWellFormed (header name help type) ↔
      newline ∉ ascii name ∧ newline ∉ ascii help ∧ newline ∉ ascii type := by
  have hhelp : newline ∉ ascii "HELP " := by decide
  have htype : newline ∉ ascii "TYPE " := by decide
  have hblank : newline ∉ ascii " " := by decide
  simp only [AllWellFormed, header, List.forall_mem_cons, Line.WellFormed, List.mem_append, hhelp,
    htype, hblank, false_or, not_or, List.not_mem_nil, false_implies, implies_true, and_true]
  constructor
  · rintro ⟨⟨hn, hh⟩, -, ht⟩
    exact ⟨hn, hh, ht⟩
  · rintro ⟨hn, hh, ht⟩
    exact ⟨⟨hn, hh⟩, hn, ht⟩

private theorem allWellFormed_gauge {name help : String} {labels : Labels} {value : Bytes} :
    AllWellFormed (gauge name help labels value) ↔
      newline ∉ ascii help ∧ IsName (ascii name) ∧ (∀ l ∈ labels, IsName l.1) ∧
        newline ∉ value := by
  have htype : newline ∉ ascii "gauge" := by decide
  rw [gauge, allWellFormed_append, allWellFormed_header, allWellFormed_sampleLine]
  constructor
  · rintro ⟨⟨-, hh, -⟩, hs, -⟩
    exact ⟨hh, hs⟩
  · rintro ⟨hh, hn, hs⟩
    have hname : newline ∉ ascii name := fun hm ↦ absurd (hn.2 _ hm) (by decide)
    exact ⟨⟨hname, hh, htype⟩, ⟨hn, hs⟩, allWellFormed_nil⟩

private theorem isName_scopeLabel (scope : Bytes) : IsName (scopeLabel scope).1 := by
  change IsName (ascii "scope")
  decide

private theorem isName_quantileLabel (quantile : String) : IsName (quantileLabel quantile).1 := by
  change IsName (ascii "quantile")
  decide

/-! What is left of each part after these are the names and texts that the source spells out. -/

private theorem allWellFormed_distributionLines (scope : Bytes) (d : Distribution) :
    AllWellFormed (distributionLines scope d) := by
  simp only [distributionLines, allWellFormed_sampleLine, allWellFormed_nil, List.forall_mem_cons,
    List.cons_append, List.nil_append, isName_scopeLabel, isName_quantileLabel, List.not_mem_nil,
    false_implies, implies_true, newline_not_mem_printGeneral, newline_not_mem_printUnsigned,
    not_false_eq_true, and_true]
  decide

private theorem allWellFormed_runLines (s : Snapshot) (timestamp : Double) :
    AllWellFormed (runLines s timestamp) := by
  simp only [runLines, allWellFormed_append, allWellFormed_gauge, allWellFormed_header,
    List.forall_mem_cons, List.not_mem_nil, false_implies, implies_true,
    newline_not_mem_printGeneral, newline_not_mem_printUnsigned, newline_not_mem_printFlag,
    not_false_eq_true, and_true]
  and_intros <;> decide

private theorem allWellFormed_deviceLines (s : Snapshot) : AllWellFormed (deviceLines s) := by
  unfold deviceLines
  cases s.deviceCompute with
  | none => exact allWellFormed_nil
  | some d =>
    simp only [allWellFormed_append, allWellFormed_distributionLines, allWellFormed_gauge,
      List.not_mem_nil, false_implies, implies_true, newline_not_mem_printGeneral,
      not_false_eq_true, and_true, true_and]
    decide

private theorem allWellFormed_verdictLines (s : Snapshot) : AllWellFormed (verdictLines s) := by
  simp only [verdictLines, allWellFormed_append, allWellFormed_gauge, List.forall_mem_cons,
    isName_scopeLabel, List.not_mem_nil, false_implies, implies_true, newline_not_mem_printGeneral,
    newline_not_mem_printUnsigned, newline_not_mem_printFlag, not_false_eq_true, and_true]
  decide

private theorem allWellFormed_snapshotLines (s : Snapshot) (timestamp : Double) :
    AllWellFormed (snapshotLines s timestamp) := by
  simp only [snapshotLines, allWellFormed_append, allWellFormed_runLines,
    allWellFormed_distributionLines, allWellFormed_deviceLines, allWellFormed_verdictLines,
    and_self]

private theorem allWellFormed_stateLines (state : ExporterState) (loadSuccess : Bool) :
    AllWellFormed (stateLines state loadSuccess) := by
  simp only [stateLines, allWellFormed_append, allWellFormed_header, allWellFormed_sampleLine,
    allWellFormed_gauge, List.not_mem_nil, false_implies, implies_true,
    newline_not_mem_printGeneral, newline_not_mem_printUnsigned, newline_not_mem_printFlag,
    not_false_eq_true, and_true]
  decide

/-- A scrape of a snapshot reads the samples of its lines. -/
theorem read_renderSnapshot (s : Snapshot) (timestamp : Double) :
    read (renderSnapshot s timestamp) = some (samples (snapshotLines s timestamp)) := by
  rw [← exposition_snapshotLines]
  exact read_exposition (allWellFormed_snapshotLines s timestamp)

/-- A failed scrape reads the samples of the exporter's own state. -/
theorem read_renderExporterState (state : ExporterState) (loadSuccess : Bool) :
    read (renderExporterState state loadSuccess) =
      some (samples (stateLines state loadSuccess)) := by
  rw [← exposition_stateLines]
  exact read_exposition (allWellFormed_stateLines state loadSuccess)

/-- The body of a successful scrape is written line by line. -/
theorem exposition_scrape (state : ExporterState) (loadSuccess : Bool) (s : Snapshot)
    (timestamp : Double) :
    exposition (stateLines state loadSuccess ++ snapshotLines s timestamp) =
      renderExporterState state loadSuccess ++ renderSnapshot s timestamp := by
  rw [exposition_append, exposition_stateLines, exposition_snapshotLines]

/-- No line of a successful scrape is cut, whatever the strings of the snapshot are. -/
theorem wellFormed_scrape (state : ExporterState) (loadSuccess : Bool) (s : Snapshot)
    (timestamp : Double) :
    ∀ l ∈ stateLines state loadSuccess ++ snapshotLines s timestamp, l.WellFormed :=
  allWellFormed_append.mpr
    ⟨allWellFormed_stateLines state loadSuccess, allWellFormed_snapshotLines s timestamp⟩

/-- A successful scrape reads the exporter's own state and the samples of the snapshot. -/
theorem read_renderExporterState_append (state : ExporterState) (loadSuccess : Bool) (s : Snapshot)
    (timestamp : Double) :
    read (renderExporterState state loadSuccess ++ renderSnapshot s timestamp) =
      some (samples (stateLines state loadSuccess ++ snapshotLines s timestamp)) := by
  rw [← exposition_scrape]
  exact read_exposition (wellFormed_scrape state loadSuccess s timestamp)

/-! ### Verdicts -/

/-- A gauge has one sample. -/
theorem samples_gauge (name help : String) (labels : Labels) (value : Bytes) :
    samples (gauge name help labels value) = [⟨ascii name, labels, value⟩] := rfl

/-- Comments hold no sample. -/
theorem samples_header (name help type : String) : samples (header name help type) = [] :=
  rfl

/-- The samples of one part come before those of the next. -/
theorem samples_append (a b : List Line) : samples (a ++ b) = samples a ++ samples b :=
  List.filterMap_append

/-- The samples of the last part of a snapshot. -/
theorem samples_verdictLines (s : Snapshot) :
    samples (verdictLines s) = [
      ⟨ascii "marketdata_inference_validation_enabled", [], printFlag s.validationPassed.isSome⟩,
      ⟨ascii "marketdata_inference_validation_pass", [], printFlag (s.validationPassed.getD false)⟩,
      ⟨ascii "marketdata_inference_validation_elements", [],
        printUnsigned (s.validationElements.getD 0)⟩,
      ⟨ascii "marketdata_inference_slo_configured", [], printFlag s.sloTargetUs.isSome⟩,
      ⟨ascii "marketdata_inference_slo_target_us", [scopeLabel s.sloScope],
        printGeneral (s.sloTargetUs.getD .zero)⟩,
      ⟨ascii "marketdata_inference_slo_observed_p99_us", [scopeLabel s.sloScope],
        printGeneral (s.sloObservedP99Us.getD s.endToEnd.p99)⟩,
      ⟨ascii "marketdata_inference_slo_pass", [], printFlag (s.sloPassed.getD false)⟩] := rfl

/-- Without samples no name has a value. -/
theorem valueOf_nil (name : Bytes) : valueOf [] name = none := rfl

/-- The metrics that carry the verdicts of a run. -/
def verdictMetrics : List String :=
  ["marketdata_inference_validation_enabled", "marketdata_inference_validation_pass",
    "marketdata_inference_validation_elements", "marketdata_inference_slo_configured",
    "marketdata_inference_slo_pass"]

private theorem valueOf_runLines {name : String} (s : Snapshot) (timestamp : Double)
    (h : name ∈ verdictMetrics) : valueOf (samples (runLines s timestamp)) (ascii name) = none := by
  simp only [verdictMetrics, List.mem_cons, List.not_mem_nil, or_false] at h
  rcases h with rfl | rfl | rfl | rfl | rfl <;>
    simp [runLines, samples_append, samples_gauge, samples_header, valueOf_cons, valueOf_nil]

private theorem valueOf_distributionLines {name : String} (scope : Bytes) (d : Distribution) :
    valueOf (samples (distributionLines scope d)) (ascii name) = none := by
  simp [samples, distributionLines, sampleLine, valueOf_cons, valueOf_nil]

private theorem valueOf_deviceLines {name : String} (s : Snapshot) (h : name ∈ verdictMetrics) :
    valueOf (samples (deviceLines s)) (ascii name) = none := by
  unfold deviceLines
  cases s.deviceCompute with
  | none => rfl
  | some d =>
    rw [samples_append, valueOf_append, valueOf_distributionLines, samples_gauge, valueOf_cons]
    simp only [verdictMetrics, List.mem_cons, List.not_mem_nil, or_false] at h
    rcases h with rfl | rfl | rfl | rfl | rfl <;> rfl

/-- The samples of the exporter's own state. -/
theorem samples_stateLines (state : ExporterState) (loadSuccess : Bool) :
    samples (stateLines state loadSuccess) = [
      ⟨ascii "marketdata_exporter_scrapes_total", [], printUnsigned state.scrapes⟩,
      ⟨ascii "marketdata_exporter_load_failures_total", [], printUnsigned state.failures⟩,
      ⟨ascii "marketdata_exporter_last_load_success", [], printFlag loadSuccess⟩,
      ⟨ascii "marketdata_exporter_last_success_timestamp_seconds", [],
        printGeneral state.lastSuccessTimestamp⟩] := rfl

private theorem valueOf_stateLines {name : String} (state : ExporterState) (loadSuccess : Bool)
    (h : name ∈ verdictMetrics) :
    valueOf (samples (stateLines state loadSuccess)) (ascii name) = none := by
  simp only [verdictMetrics, List.mem_cons, List.not_mem_nil, or_false] at h
  rcases h with rfl | rfl | rfl | rfl | rfl <;> simp [samples_stateLines, valueOf_cons, valueOf_nil]

/-- A verdict is not named before the last part of a snapshot. -/
theorem valueOf_snapshotLines {name : String} (s : Snapshot) (timestamp : Double)
    (h : name ∈ verdictMetrics) :
    valueOf (samples (snapshotLines s timestamp)) (ascii name) =
      valueOf (samples (verdictLines s)) (ascii name) := by
  simp only [snapshotLines, samples_append, valueOf_append, valueOf_runLines s timestamp h,
    valueOf_distributionLines, valueOf_deviceLines s h, Option.none_or]

/-- The exporter's own state names no verdict. -/
theorem valueOf_stateLines_append {name : String} (state : ExporterState) (loadSuccess : Bool)
    (ls : List Line) (h : name ∈ verdictMetrics) :
    valueOf (samples (stateLines state loadSuccess ++ ls)) (ascii name) =
      valueOf (samples ls) (ascii name) := by
  rw [samples_append, valueOf_append, valueOf_stateLines state loadSuccess h, Option.none_or]

end MarketData.Exporter
