import MarketData.Exporter.Reader
import MarketData.Prometheus.Exposition

/-!
# Exposition writer of the metrics exporter

`escape_label`, `write_distribution`, `render_snapshot`, `render_exporter_state` and
`load_for_scrape` of `tools/metrics_exporter.cpp`. The stream prints floating point
values with twelve significant digits. What is written is an exposition whose samples
read back.
-/

namespace MarketData.Exporter

open ByteText Cpp

/-- `escape_label`, `tools/metrics_exporter.cpp:368–380`: a label value with backslashes, quotes
and line feeds escaped. -/
def escapeLabel (value : Bytes) : Bytes :=
  value.flatMap (fun character ↦
    if character = backslash then ascii "\\\\"
    else if character = quote then ascii "\\\""
    else if character = newline then ascii "\\n"
    else [character])

/-- `operator<<` of a `double` under `std::setprecision(12)`: twelve significant digits, in the
shorter of the two notations. -/
def printGeneral (x : Double) : Bytes := Ieee.formatGeneral 12 x

/-- The branch `flag ? 1 : 0`. -/
def printFlag (flag : Bool) : Bytes := if flag then ascii "1" else ascii "0"

/-- `write_distribution`, `tools/metrics_exporter.cpp:382–406`: the samples of one scope. -/
def writeDistribution (scope : Bytes) (d : Distribution) : Bytes :=
  let labels := stream [ascii "scope=\"", escapeLabel scope, ascii "\""]
  stream [
    ascii "marketdata_inference_latency_us\x7b", labels, ascii ",quantile=\"0.5\"\x7d ",
      printGeneral d.p50, ascii "\n",
    ascii "marketdata_inference_latency_us\x7b", labels, ascii ",quantile=\"0.9\"\x7d ",
      printGeneral d.p90, ascii "\n",
    ascii "marketdata_inference_latency_us\x7b", labels, ascii ",quantile=\"0.95\"\x7d ",
      printGeneral d.p95, ascii "\n",
    ascii "marketdata_inference_latency_us\x7b", labels, ascii ",quantile=\"0.99\"\x7d ",
      printGeneral d.p99, ascii "\n",
    ascii "marketdata_inference_latency_us_sum\x7b", labels, ascii "\x7d ",
      printGeneral (d.mean.mul (doubleOf d.samples)), ascii "\n",
    ascii "marketdata_inference_latency_us_count\x7b", labels, ascii "\x7d ",
      printUnsigned d.samples, ascii "\n",
    ascii "marketdata_inference_latency_mean_us\x7b", labels, ascii "\x7d ",
      printGeneral d.mean, ascii "\n",
    ascii "marketdata_inference_latency_min_us\x7b", labels, ascii "\x7d ",
      printGeneral d.minimum, ascii "\n",
    ascii "marketdata_inference_latency_max_us\x7b", labels, ascii "\x7d ",
      printGeneral d.maximum, ascii "\n",
    ascii "marketdata_inference_latency_stddev_us\x7b", labels, ascii "\x7d ",
      printGeneral d.stddev, ascii "\n"]

/-- The first part of `render_snapshot`, `tools/metrics_exporter.cpp:410–455`: provenance, shape
and throughput. -/
def renderRun (s : Snapshot) (fileTimestampSeconds : Double) : Bytes :=
  stream [
    ascii "# HELP marketdata_build_info Build, model, backend, and device provenance.\n",
    ascii "# TYPE marketdata_build_info gauge\n",
    ascii "marketdata_build_info\x7bversion=\"", escapeLabel s.version,
    ascii "\",revision=\"", escapeLabel s.revision,
    ascii "\",model=\"", escapeLabel s.model,
    ascii "\",backend=\"", escapeLabel s.backend,
    ascii "\",backend_version=\"", escapeLabel s.backendVersion,
    ascii "\",device=\"", escapeLabel s.device, ascii "\"\x7d 1\n",
    ascii "# HELP marketdata_metrics_file_timestamp_seconds ",
    ascii "Modification time of the loaded snapshot.\n",
    ascii "# TYPE marketdata_metrics_file_timestamp_seconds gauge\n",
    ascii "marketdata_metrics_file_timestamp_seconds ", printGeneral fileTimestampSeconds,
      ascii "\n",
    ascii "# HELP marketdata_inference_run_samples ",
    ascii "Measured inference iterations in the snapshot.\n",
    ascii "# TYPE marketdata_inference_run_samples gauge\n",
    ascii "marketdata_inference_run_samples ", printUnsigned s.samples, ascii "\n",
    ascii "# HELP marketdata_inference_input_elements Elements per input sample.\n",
    ascii "# TYPE marketdata_inference_input_elements gauge\n",
    ascii "marketdata_inference_input_elements ", printUnsigned s.inputSize, ascii "\n",
    ascii "# HELP marketdata_inference_batch_size Samples per inference batch.\n",
    ascii "# TYPE marketdata_inference_batch_size gauge\n",
    ascii "marketdata_inference_batch_size ", printUnsigned s.batchSize, ascii "\n",
    ascii "# HELP marketdata_inference_fallback_used Whether mock fallback was used.\n",
    ascii "# TYPE marketdata_inference_fallback_used gauge\n",
    ascii "marketdata_inference_fallback_used ", printFlag s.fallbackUsed, ascii "\n",
    ascii "# HELP marketdata_inference_cuda_graph_enabled Whether CUDA Graph replay was enabled.\n",
    ascii "# TYPE marketdata_inference_cuda_graph_enabled gauge\n",
    ascii "marketdata_inference_cuda_graph_enabled ", printFlag s.cudaGraph, ascii "\n",
    ascii "# HELP marketdata_inference_throughput_inferences_per_second ",
    ascii "Completed inference calls per second.\n",
    ascii "# TYPE marketdata_inference_throughput_inferences_per_second gauge\n",
    ascii "marketdata_inference_throughput_inferences_per_second ", printGeneral s.throughputIps,
      ascii "\n",
    ascii "# HELP marketdata_inference_throughput_samples_per_second ",
    ascii "Completed samples per second.\n",
    ascii "# TYPE marketdata_inference_throughput_samples_per_second gauge\n",
    ascii "marketdata_inference_throughput_samples_per_second ",
      printGeneral s.throughputSamplesPerSecond, ascii "\n",
    ascii "# HELP marketdata_inference_latency_us Inference latency distribution summary.\n",
    ascii "# TYPE marketdata_inference_latency_us summary\n",
    ascii "# HELP marketdata_inference_latency_mean_us Mean inference latency.\n",
    ascii "# TYPE marketdata_inference_latency_mean_us gauge\n",
    ascii "# HELP marketdata_inference_latency_min_us Minimum inference latency.\n",
    ascii "# TYPE marketdata_inference_latency_min_us gauge\n",
    ascii "# HELP marketdata_inference_latency_max_us Maximum inference latency.\n",
    ascii "# TYPE marketdata_inference_latency_max_us gauge\n",
    ascii "# HELP marketdata_inference_latency_stddev_us Latency standard deviation.\n",
    ascii "# TYPE marketdata_inference_latency_stddev_us gauge\n"]

/-- The device part of `render_snapshot`. -/
def renderDeviceCompute (s : Snapshot) : Bytes :=
  match s.deviceCompute with
  | none => []
  | some deviceCompute => stream [
      writeDistribution (ascii "device_compute") deviceCompute,
      ascii "# HELP marketdata_inference_host_overhead_p99_us ",
      ascii "Difference between end-to-end and device p99.\n",
      ascii "# TYPE marketdata_inference_host_overhead_p99_us gauge\n",
      ascii "marketdata_inference_host_overhead_p99_us ",
      printGeneral (s.endToEnd.p99.sub deviceCompute.p99), ascii "\n"]

/-- The last part of `render_snapshot`: validation and SLO. -/
def renderVerdicts (s : Snapshot) : Bytes :=
  stream [
    ascii "# HELP marketdata_inference_validation_enabled ",
    ascii "Whether output validation was performed.\n",
    ascii "# TYPE marketdata_inference_validation_enabled gauge\n",
    ascii "marketdata_inference_validation_enabled ", printFlag s.validationPassed.isSome,
      ascii "\n",
    ascii "# HELP marketdata_inference_validation_pass Whether output validation passed.\n",
    ascii "# TYPE marketdata_inference_validation_pass gauge\n",
    ascii "marketdata_inference_validation_pass ",
      printFlag (s.validationPassed.getD false), ascii "\n",
    ascii "# HELP marketdata_inference_validation_elements Number of validated output elements.\n",
    ascii "# TYPE marketdata_inference_validation_elements gauge\n",
    ascii "marketdata_inference_validation_elements ",
      printUnsigned (s.validationElements.getD 0), ascii "\n",
    ascii "# HELP marketdata_inference_slo_configured Whether an SLO was configured for this run.\n",
    ascii "# TYPE marketdata_inference_slo_configured gauge\n",
    ascii "marketdata_inference_slo_configured ", printFlag s.sloTargetUs.isSome, ascii "\n",
    ascii "# HELP marketdata_inference_slo_target_us Configured p99 latency objective.\n",
    ascii "# TYPE marketdata_inference_slo_target_us gauge\n",
    ascii "marketdata_inference_slo_target_us\x7bscope=\"", escapeLabel s.sloScope, ascii "\"\x7d ",
      printGeneral (s.sloTargetUs.getD .zero), ascii "\n",
    ascii "# HELP marketdata_inference_slo_observed_p99_us Observed p99 selected by the SLO.\n",
    ascii "# TYPE marketdata_inference_slo_observed_p99_us gauge\n",
    ascii "marketdata_inference_slo_observed_p99_us\x7bscope=\"", escapeLabel s.sloScope,
      ascii "\"\x7d ", printGeneral (s.sloObservedP99Us.getD s.endToEnd.p99), ascii "\n",
    ascii "# HELP marketdata_inference_slo_pass Whether the configured p99 objective passed.\n",
    ascii "# TYPE marketdata_inference_slo_pass gauge\n",
    ascii "marketdata_inference_slo_pass ", printFlag (s.sloPassed.getD false), ascii "\n"]

/-- `render_snapshot`, `tools/metrics_exporter.cpp:408–495`: the exposition of a snapshot. -/
def renderSnapshot (s : Snapshot) (fileTimestampSeconds : Double) : Bytes :=
  stream [renderRun s fileTimestampSeconds, writeDistribution (ascii "end_to_end") s.endToEnd,
    renderDeviceCompute s, renderVerdicts s]

/-- `struct ExporterState`, `tools/metrics_exporter.cpp:524–528`: the counters of the exporter. -/
structure ExporterState where
  scrapes : UInt64 := 0
  failures : UInt64 := 0
  lastSuccessTimestamp : Double := .zero

/-- `render_exporter_state`, `tools/metrics_exporter.cpp:530–548`: the exposition of the counters
and of the success of the load. -/
def renderExporterState (state : ExporterState) (loadSuccess : Bool) : Bytes :=
  stream [
    ascii "# HELP marketdata_exporter_scrapes_total Metrics scrape attempts.\n",
    ascii "# TYPE marketdata_exporter_scrapes_total counter\n",
    ascii "marketdata_exporter_scrapes_total ", printUnsigned state.scrapes, ascii "\n",
    ascii "# HELP marketdata_exporter_load_failures_total Snapshot load failures.\n",
    ascii "# TYPE marketdata_exporter_load_failures_total counter\n",
    ascii "marketdata_exporter_load_failures_total ", printUnsigned state.failures, ascii "\n",
    ascii "# HELP marketdata_exporter_last_load_success Whether the latest snapshot load succeeded.\n",
    ascii "# TYPE marketdata_exporter_last_load_success gauge\n",
    ascii "marketdata_exporter_last_load_success ", printFlag loadSuccess, ascii "\n",
    ascii "# HELP marketdata_exporter_last_success_timestamp_seconds ",
    ascii "Latest successful snapshot load.\n",
    ascii "# TYPE marketdata_exporter_last_success_timestamp_seconds gauge\n",
    ascii "marketdata_exporter_last_success_timestamp_seconds ",
      printGeneral state.lastSuccessTimestamp, ascii "\n"]

/-- What one scrape meets: the outcome of `read_file`, the clock and the outcome of
`file_timestamp`. -/
structure Surroundings where
  contents : Checked Bytes
  now : Double
  modified : Checked Double

/-- `load_for_scrape`, `tools/metrics_exporter.cpp:550–561`: the body of a scrape, and the
counters behind it. -/
def loadForScrape (surroundings : Surroundings) (state : ExporterState) :
    Checked (Bytes × ExporterState) :=
  let state := { state with scrapes := state.scrapes + 1 }
  let failed (state : ExporterState) :=
    let state := { state with failures := state.failures + 1 }
    .ok (renderExporterState state false, state)
  match surroundings.contents >>= parseSnapshot with
  | .error (.exception _) => failed state
  | .error .undefined => .error .undefined
  | .ok snapshot =>
    let state := { state with lastSuccessTimestamp := surroundings.now }
    match surroundings.modified with
    | .error (.exception _) => failed state
    | .error .undefined => .error .undefined
    | .ok timestamp =>
      .ok (renderExporterState state true ++ renderSnapshot snapshot timestamp, state)

end MarketData.Exporter
