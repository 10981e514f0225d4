import MarketData.Exporter.Samples
import MarketData.Prometheus.Statements

/-!
# The series of a scrape

What a scraper makes of the body of a successful scrape. The names, the label names and the values
are those that the source spells out or prints, so that no string of the snapshot can add, remove or
merge a series.
-/

namespace MarketData.Exporter

open ByteText Cpp Prometheus

/-! ### Values -/

private theorem isDigits_decimal (n : ℕ) : IsDigits (decimal n) :=
  ⟨decimal_ne_nil n, fun _ ↦ isDigit_of_mem_decimal⟩

private theorem isDigits_paddedDecimal (width n : ℕ) : IsDigits (paddedDecimal width n) := by
  refine ⟨fun h ↦ ?_, fun _ ↦ isDigit_of_mem_paddedDecimal⟩
  exact decimal_ne_nil n (List.append_eq_nil_iff.mp h).2

private theorem isDigits_take {digits : Bytes} (h : IsDigits digits) (n : ℕ) :
    IsDigits (digits.take (n + 1)) := by
  refine ⟨fun hnil ↦ ?_, fun b hb ↦ h.2 b (List.mem_of_mem_take hb)⟩
  rcases List.take_eq_nil_iff.mp hnil with hzero | hempty
  · exact absurd hzero (Nat.succ_ne_zero n)
  · exact h.1 hempty

private theorem trimmedFraction_cases {digits : Bytes} (h : ∀ b ∈ digits, isDigit b = true) :
    Ieee.trimmedFraction digits = [] ∨
      ∃ fraction, Ieee.trimmedFraction digits = 46 :: fraction ∧ IsDigits fraction := by
  unfold Ieee.trimmedFraction
  split
  · exact .inl rfl
  · next hne =>
    refine .inr ⟨_, rfl, hne, fun b hb ↦ h b ?_⟩
    exact (List.rdropWhile_prefix _ _).subset hb

private theorem isNumeral_generalDigits {precision : ℕ} (n : ℕ) (exponent : ℤ) :
    ∃ whole fraction exponentText,
      IsNumeral (Ieee.generalDigits precision n exponent) whole fraction exponentText := by
  have hdigits := isDigits_paddedDecimal precision n
  have hdrop : ∀ k, ∀ b ∈ (paddedDecimal precision n).drop k, isDigit b = true :=
    fun k b hb ↦ hdigits.2 b (List.mem_of_mem_drop hb)
  unfold Ieee.generalDigits
  dsimp only
  split
  · refine ⟨_, _, 101 :: (if exponent < 0 then 45 else 43) :: paddedDecimal 2 exponent.natAbs,
      by simp only [List.append_assoc]; rfl, isDigits_take hdigits 0,
      trimmedFraction_cases (hdrop 1), .inr ⟨_, _, rfl, ?_, isDigits_paddedDecimal 2 _⟩⟩
    split
    · exact .inr rfl
    · exact .inl rfl
  split
  · refine ⟨[48], _, [], by rw [List.append_nil]; rfl, ⟨List.cons_ne_nil _ _, by decide⟩,
      trimmedFraction_cases ?_, .inl rfl⟩
    intro b hb
    rcases List.mem_append.mp hb with hb | hb
    · rw [List.eq_of_mem_replicate hb]
      decide
    · exact hdigits.2 b hb
  · exact ⟨_, _, [], by rw [List.append_nil], isDigits_take hdigits _,
      trimmedFraction_cases (hdrop _), .inl rfl⟩

private theorem isNumeral_generalMagnitude (precision : ℕ) (x : ℚ) :
    ∃ whole fraction exponent,
      IsNumeral (Ieee.generalMagnitude precision x) whole fraction exponent := by
  unfold Ieee.generalMagnitude
  split
  · exact ⟨[48], [], [], rfl, ⟨List.cons_ne_nil _ _, by decide⟩, .inl rfl, .inl rfl⟩
  · dsimp only
    split
    · exact isNumeral_generalDigits _ _
    · exact isNumeral_generalDigits _ _

/-- A printed number is a value of the format. -/
theorem isValue_printGeneral (x : Double) : IsValue (printGeneral x) := by
  have hsign : ∀ s, Ieee.signText s = [] ∨ Ieee.signText s = [45] := by decide
  cases x with
  | nan => exact .inl rfl
  | infinite s => exact .inr ⟨_, _, rfl, hsign s, .inl rfl⟩
  | finite s m => exact .inr ⟨_, _, rfl, hsign s, .inr (isNumeral_generalMagnitude 12 m.toRat)⟩

/-- A printed integer is a value. -/
theorem isValue_printUnsigned (n : UInt64) : IsValue (printUnsigned n) :=
  (isDigits_decimal n.toNat).isValue

/-- A printed flag is a value. -/
theorem isValue_printFlag (flag : Bool) : IsValue (printFlag flag) := by
  have hdigits : IsDigits (printFlag flag) := by
    cases flag with
    | false => exact ⟨by decide, by decide⟩
    | true => exact ⟨by decide, by decide⟩
  exact hdigits.isValue

/-! ### Names -/

/-- The names of a sample: its metric and its labels. -/
def namesOf (s : Sample) : Bytes × List Bytes := (s.name, s.labels.map Prod.fst)

/-- A metric and its labels, as the source spells them. -/
abbrev Shape := String × List String

/-- The names that a shape stands for. -/
def Shape.names (shape : Shape) : Bytes × List Bytes := (ascii shape.1, shape.2.map ascii)

/-- The samples of `render_exporter_state`. -/
def stateShapes : List Shape := [
  ("marketdata_exporter_scrapes_total", []),
  ("marketdata_exporter_load_failures_total", []),
  ("marketdata_exporter_last_load_success", []),
  ("marketdata_exporter_last_success_timestamp_seconds", [])]

/-- The samples of `render_snapshot` before the distributions. -/
def runShapes : List Shape := [
  ("marketdata_build_info",
    ["version", "revision", "model", "backend", "backend_version", "device"]),
  ("marketdata_metrics_file_timestamp_seconds", []),
  ("marketdata_inference_run_samples", []),
  ("marketdata_inference_input_elements", []),
  ("marketdata_inference_batch_size", []),
  ("marketdata_inference_fallback_used", []),
  ("marketdata_inference_cuda_graph_enabled", []),
  ("marketdata_inference_throughput_inferences_per_second", []),
  ("marketdata_inference_throughput_samples_per_second", [])]

/-- The sample of a quantile. -/
def quantileShape : Shape := ("marketdata_inference_latency_us", ["scope", "quantile"])

/-- The samples of a distribution behind its quantiles. -/
def partShapes : List Shape := [
  ("marketdata_inference_latency_us_sum", ["scope"]),
  ("marketdata_inference_latency_us_count", ["scope"]),
  ("marketdata_inference_latency_mean_us", ["scope"]),
  ("marketdata_inference_latency_min_us", ["scope"]),
  ("marketdata_inference_latency_max_us", ["scope"]),
  ("marketdata_inference_latency_stddev_us", ["scope"])]

/-- The samples of a distribution. -/
def distributionShapes : List Shape := List.replicate 4 quantileShape ++ partShapes

/-- The sample behind the device distribution. -/
def overheadShapes : List Shape := [("marketdata_inference_host_overhead_p99_us", [])]

/-- The samples of the objective and the validation. -/
def verdictShapes : List Shape := [
  ("marketdata_inference_validation_enabled", []),
  ("marketdata_inference_validation_pass", []),
  ("marketdata_inference_validation_elements", []),
  ("marketdata_inference_slo_configured", []),
  ("marketdata_inference_slo_target_us", ["scope"]),
  ("marketdata_inference_slo_observed_p99_us", ["scope"]),
  ("marketdata_inference_slo_pass", [])]

/-- The samples have the names of the shapes, in this order. -/
def HasShapes (s : List Sample) (shapes : List Shape) : Prop :=
  s.map namesOf = shapes.map Shape.names

/-- Two lists of samples have the shapes of both. -/
theorem hasShapes_append {a b : List Sample} {shapes shapes' : List Shape}
    (ha : HasShapes a shapes) (hb : HasShapes b shapes') :
    HasShapes (a ++ b) (shapes ++ shapes') := by
  rw [HasShapes, List.map_append, List.map_append, ha, hb]

private theorem hasShapes_state (state : ExporterState) (loadSuccess : Bool) :
    HasShapes (samples (stateLines state loadSuccess)) stateShapes := rfl

private theorem hasShapes_run (s : Snapshot) (timestamp : Double) :
    HasShapes (samples (runLines s timestamp)) runShapes := rfl

private theorem hasShapes_distribution (scope : Bytes) (d : Distribution) :
    HasShapes (samples (distributionLines scope d)) distributionShapes := rfl

private theorem hasShapes_verdict (s : Snapshot) :
    HasShapes (samples (verdictLines s)) verdictShapes := rfl

/-- The shapes of the device part. -/
def deviceShapes (s : Snapshot) : List Shape :=
  if s.deviceCompute.isSome then distributionShapes ++ overheadShapes else []

private theorem hasShapes_device (s : Snapshot) :
    HasShapes (samples (deviceLines s)) (deviceShapes s) := by
  unfold deviceLines deviceShapes
  cases s.deviceCompute with
  | none => rfl
  | some d => rfl

/-- All shapes that a scrape can have. -/
def allShapes : List Shape :=
  stateShapes ++ (runShapes ++ (distributionShapes ++ (overheadShapes ++ verdictShapes)))

/-- The names of the exporter are names, and no sample has two labels of one name. -/
theorem names_valid : ∀ shape ∈ allShapes, IsMetricName (ascii shape.1) ∧
    (∀ label ∈ shape.2, IsLabelName (ascii label)) ∧ shape.2.Nodup := by
  decide +kernel

private theorem exists_shape {l : List Sample} {shapes : List Shape} (h : HasShapes l shapes)
    {a : Sample} (ha : a ∈ l) : ∃ shape ∈ shapes, shape.names = namesOf a :=
  List.mem_map.mp (h ▸ List.mem_map_of_mem ha)

/-! ### Valid samples -/

private theorem valid_of_hasShapes {l : List Sample} {shapes : List Shape} (h : HasShapes l shapes)
    (hall : shapes ⊆ allShapes) (hvalues : ∀ a ∈ l, IsValue a.value) : ∀ a ∈ l, a.Valid := by
  intro a ha
  obtain ⟨shape, hshape, hnames⟩ := exists_shape h ha
  obtain ⟨hname, hlabels, hdistinct⟩ := names_valid shape (hall hshape)
  obtain ⟨hmetric, hlabel⟩ := Prod.mk.inj hnames
  refine ⟨hmetric ▸ hname, fun l hl ↦ ?_, ?_, hvalues a ha⟩
  · have hmem : l.1 ∈ a.labels.map Prod.fst := List.mem_map_of_mem hl
    rw [← hlabel] at hmem
    obtain ⟨label, hmem, heq⟩ := List.mem_map.mp hmem
    exact heq ▸ hlabels label hmem
  · rw [← hlabel]
    exact hdistinct.map fun _ _ ↦ ascii_inj.mp

private theorem values_distribution (scope : Bytes) (d : Distribution) :
    ∀ a ∈ samples (distributionLines scope d), IsValue a.value := by
  simp [samples, distributionLines, sampleLine, isValue_printGeneral, isValue_printUnsigned]

private theorem values_state (state : ExporterState) (loadSuccess : Bool) :
    ∀ a ∈ samples (stateLines state loadSuccess), IsValue a.value := by
  simp [samples_stateLines, isValue_printGeneral, isValue_printUnsigned, isValue_printFlag]

private theorem values_run (s : Snapshot) (timestamp : Double) :
    ∀ a ∈ samples (runLines s timestamp), IsValue a.value := by
  have hone : IsValue (ascii "1") := isValue_printFlag true
  simp [runLines, samples_append, samples_gauge, samples_header, hone, isValue_printGeneral,
    isValue_printUnsigned, isValue_printFlag]

private theorem values_device (s : Snapshot) :
    ∀ a ∈ samples (deviceLines s), IsValue a.value := by
  unfold deviceLines
  cases s.deviceCompute with
  | none => exact fun _ ha ↦ nomatch ha
  | some d =>
    simp only [samples_append, samples_gauge, List.forall_mem_append, List.forall_mem_singleton]
    exact ⟨values_distribution _ d, isValue_printGeneral _⟩

private theorem values_verdict (s : Snapshot) :
    ∀ a ∈ samples (verdictLines s), IsValue a.value := by
  simp [samples_verdictLines, isValue_printGeneral, isValue_printUnsigned, isValue_printFlag]

/-- The samples of a successful scrape, part by part. -/
theorem samples_scrape (state : ExporterState) (loadSuccess : Bool) (s : Snapshot)
    (timestamp : Double) :
    samples (stateLines state loadSuccess ++ snapshotLines s timestamp) =
      samples (stateLines state loadSuccess) ++ (samples (runLines s timestamp) ++
        (samples (distributionLines (ascii "end_to_end") s.endToEnd) ++
          (samples (deviceLines s) ++ samples (verdictLines s)))) := by
  simp only [snapshotLines, samples_append]

private theorem deviceShapes_subset (s : Snapshot) : deviceShapes s ⊆ allShapes := by
  unfold deviceShapes
  split
  · decide
  · exact List.nil_subset _

/-- Every sample of a scrape is valid. -/
theorem valid_scrape (state : ExporterState) (loadSuccess : Bool) (s : Snapshot)
    (timestamp : Double) :
    ∀ a ∈ samples (stateLines state loadSuccess ++ snapshotLines s timestamp), a.Valid := by
  rw [samples_scrape]
  simp only [List.forall_mem_append]
  exact ⟨valid_of_hasShapes (hasShapes_state _ _) (by decide) (values_state _ _),
    valid_of_hasShapes (hasShapes_run _ _) (by decide) (values_run _ _),
    valid_of_hasShapes (hasShapes_distribution _ _) (by decide) (values_distribution _ _),
    valid_of_hasShapes (hasShapes_device s) (deviceShapes_subset s) (values_device s),
    valid_of_hasShapes (hasShapes_verdict s) (by decide) (values_verdict s)⟩

/-! ### Distinct series -/

private theorem names_of_hasShapes {l : List Sample} {shapes : List Shape}
    (h : HasShapes l shapes) :
    l.map Sample.name = shapes.map fun shape ↦ ascii shape.1 := by
  have hfst := congrArg (List.map Prod.fst) h
  rw [List.map_map, List.map_map] at hfst
  exact hfst

private theorem distinct_of_hasShapes {l : List Sample} {shapes : List Shape}
    (h : HasShapes l shapes) (hnodup : (shapes.map Prod.fst).Nodup) : DistinctSeries l := by
  refine distinctSeries_of_names ?_
  rw [names_of_hasShapes h]
  have hmap := hnodup.map (f := ascii) fun _ _ ↦ ascii_inj.mp
  rwa [List.map_map] at hmap

/-- No metric is in both lists of shapes. -/
def Apart (shapes shapes' : List Shape) : Prop :=
  ∀ metric ∈ shapes.map Prod.fst, metric ∉ shapes'.map Prod.fst

/-- The shapes are compared in pairs. -/
instance (shapes shapes' : List Shape) : Decidable (Apart shapes shapes') :=
  inferInstanceAs (Decidable (∀ _ ∈ _, _))

private theorem apart_append {shapes a b : List Shape} (ha : Apart shapes a) (hb : Apart shapes b) :
    Apart shapes (a ++ b) := by
  intro metric hmetric hmem
  rw [List.map_append] at hmem
  rcases List.mem_append.mp hmem with h | h
  · exact ha metric hmetric h
  · exact hb metric hmetric h

private theorem differ_of_apart {a b : List Sample} {shapes shapes' : List Shape}
    (ha : HasShapes a shapes) (hb : HasShapes b shapes') (h : Apart shapes shapes') :
    ∀ s ∈ a, ∀ t ∈ b, ¬ s.SameSeries t := by
  rintro s hs t ht ⟨hname, -⟩
  obtain ⟨shape, hshape, hnames⟩ := exists_shape ha hs
  obtain ⟨shape', hshape', hnames'⟩ := exists_shape hb ht
  have hmetric : shape.1 = shape'.1 := by
    rw [← ascii_inj]
    exact (congrArg Prod.fst hnames).trans (hname.trans (congrArg Prod.fst hnames').symm)
  refine h shape.1 (List.mem_map_of_mem hshape) ?_
  rw [hmetric]
  exact List.mem_map_of_mem hshape'

-- The sample of a quantile.
private def quantileSample (scope : Bytes) (q : String × Double) : Sample :=
  ⟨ascii "marketdata_inference_latency_us", [scopeLabel scope, quantileLabel q.1], printGeneral q.2⟩

-- The quantiles of a distribution.
private def quantiles (d : Distribution) : List (String × Double) :=
  [("0.5", d.p50), ("0.9", d.p90), ("0.95", d.p95), ("0.99", d.p99)]

private theorem samples_distributionLines (scope : Bytes) (d : Distribution) :
    samples (distributionLines scope d) = (quantiles d).map (quantileSample scope) ++
      (samples (distributionLines scope d)).drop 4 := rfl

private theorem quantile_of_sameSeries {scope : Bytes} {q q' : String × Double}
    (h : (quantileSample scope q).SameSeries (quantileSample scope q')) : q.1 = q'.1 := by
  have hmem : quantileLabel q.1 ∈ [scopeLabel scope, quantileLabel q'.1] := (h.2 _).mp (by
    exact List.mem_cons_of_mem _ List.mem_cons_self)
  rcases List.mem_pair.mp hmem with hscope | hquantile
  · exact absurd (congrArg Prod.fst hscope) (by decide : ascii "quantile" ≠ ascii "scope")
  · exact ascii_inj.mp (congrArg Prod.snd hquantile)

private theorem distinct_distribution (scope : Bytes) (d : Distribution) :
    DistinctSeries (samples (distributionLines scope d)) := by
  have hparts : HasShapes ((samples (distributionLines scope d)).drop 4) partShapes := rfl
  have hquantiles : HasShapes ((quantiles d).map (quantileSample scope))
      (List.replicate 4 quantileShape) := rfl
  rw [samples_distributionLines]
  refine distinctSeries_append ?_ (distinct_of_hasShapes hparts (by decide))
    (differ_of_apart hquantiles hparts (by decide))
  have hnodup : ((quantiles d).map Prod.fst).Nodup :=
    (by decide : ["0.5", "0.9", "0.95", "0.99"].Nodup)
  refine List.pairwise_map.mpr ((List.pairwise_map.mp hnodup).imp ?_)
  exact fun hne hsame ↦ hne (quantile_of_sameSeries hsame)

private theorem scope_of_mem {scope : Bytes} {d : Distribution} :
    ∀ a ∈ samples (distributionLines scope d), scopeLabel scope ∈ a.labels ∧
      ∀ other, scopeLabel other ∈ a.labels → other = scope := by
  have hne : ascii "scope" ≠ ascii "quantile" := by decide
  simp [samples, distributionLines, sampleLine, scopeLabel, quantileLabel, hne]

private theorem differ_of_scope {scope scope' : Bytes} (h : scope ≠ scope') (d d' : Distribution) :
    ∀ a ∈ samples (distributionLines scope d), ∀ b ∈ samples (distributionLines scope' d'),
      ¬ a.SameSeries b := by
  rintro a ha b hb ⟨-, hlabels⟩
  exact h ((scope_of_mem b hb).2 scope ((hlabels _).mp (scope_of_mem a ha).1))

private theorem distinct_device (s : Snapshot) (d : Distribution) :
    DistinctSeries (samples (deviceLines s)) ∧
      ∀ a ∈ samples (distributionLines (ascii "end_to_end") d), ∀ b ∈ samples (deviceLines s),
        ¬ a.SameSeries b := by
  unfold deviceLines
  cases s.deviceCompute with
  | none => exact ⟨List.Pairwise.nil, fun _ _ _ hb ↦ nomatch hb⟩
  | some d' =>
    have hoverhead : ∀ value, HasShapes
        [⟨ascii "marketdata_inference_host_overhead_p99_us", [], value⟩] overheadShapes :=
      fun _ ↦ rfl
    have hscope : ascii "end_to_end" ≠ ascii "device_compute" := by decide
    simp only [samples_append, samples_gauge]
    refine ⟨distinctSeries_append (distinct_distribution _ d') (List.pairwise_singleton _ _)
      (differ_of_apart (hasShapes_distribution _ _) (hoverhead _) (by decide)), ?_⟩
    intro a ha b hb
    rcases List.mem_append.mp hb with hb | hb
    · exact differ_of_scope hscope d d' a ha b hb
    · exact differ_of_apart (hasShapes_distribution _ _) (hoverhead _) (by decide) a ha b hb

private theorem apart_device {shapes : List Shape}
    (h : Apart shapes (distributionShapes ++ overheadShapes)) (s : Snapshot) :
    Apart shapes (deviceShapes s) := by
  unfold deviceShapes
  split
  · exact h
  · exact fun _ _ ↦ List.not_mem_nil

private theorem device_apart {shapes : List Shape}
    (h : Apart (distributionShapes ++ overheadShapes) shapes) (s : Snapshot) :
    Apart (deviceShapes s) shapes := by
  unfold deviceShapes
  split
  · exact h
  · exact fun _ hm ↦ nomatch hm

/-- No two samples of a scrape are of one series. -/
theorem distinct_scrape (state : ExporterState) (loadSuccess : Bool) (s : Snapshot)
    (timestamp : Double) :
    DistinctSeries (samples (stateLines state loadSuccess ++ snapshotLines s timestamp)) := by
  have hstate := hasShapes_state state loadSuccess
  have hrun := hasShapes_run s timestamp
  have hend := hasShapes_distribution (ascii "end_to_end") s.endToEnd
  have hdevice := hasShapes_device s
  have hverdict := hasShapes_verdict s
  have hbehind := hasShapes_append hend (hasShapes_append hdevice hverdict)
  obtain ⟨hdistinct, hdiffer⟩ := distinct_device s s.endToEnd
  rw [samples_scrape]
  refine distinctSeries_append (distinct_of_hasShapes hstate (by decide)) ?_
    (differ_of_apart hstate (hasShapes_append hrun hbehind) (apart_append (by decide)
      (apart_append (by decide) (apart_append (apart_device (by decide) s) (by decide)))))
  refine distinctSeries_append (distinct_of_hasShapes hrun (by decide)) ?_
    (differ_of_apart hrun hbehind
      (apart_append (by decide) (apart_append (apart_device (by decide) s) (by decide))))
  refine distinctSeries_append (distinct_distribution _ _) ?_ fun a ha b hb ↦ ?_
  · exact distinctSeries_append hdistinct (distinct_of_hasShapes hverdict (by decide))
      (differ_of_apart hdevice hverdict (device_apart (by decide) s))
  · rcases List.mem_append.mp hb with hb | hb
    · exact hdiffer a ha b hb
    · exact differ_of_apart hend hverdict (by decide) a ha b hb

/-! ### Families -/

/-- Every line states something, and every sample is declared before it, whatever came before. -/
structure Declares (ls : List Line) : Prop where
  stated : ∀ l ∈ ls, l.statement.isSome
  typed : ∀ before, Typed before (statementsOf ls)

private theorem declares_append {a b : List Line} (ha : Declares a) (hb : Declares b) :
    Declares (a ++ b) := by
  refine ⟨List.forall_mem_append.mpr ⟨ha.stated, hb.stated⟩, fun before ↦ ?_⟩
  rw [statementsOf_append]
  exact typed_append (ha.typed before) (hb.typed _)

private theorem statement_type {name type : String} (hname : IsName (ascii name))
    (htype : ascii type ∈ kinds) :
    (Line.comment (ascii "TYPE " ++ (ascii name ++ (ascii " " ++ ascii type)))).statement =
      some (.type (ascii name) (ascii type)) := by
  change readComment (ascii "TYPE " ++ (ascii name ++ blank :: ascii type)) = _
  have hdrop : (ascii "TYPE " ++ (ascii name ++ blank :: ascii type)).drop 5 =
      ascii name ++ blank :: ascii type := rfl
  have htake : (ascii name ++ blank :: ascii type).takeWhile isNameByte = ascii name :=
    takeWhile_name hname (by decide)
  simp only [readComment, if_pos (List.prefix_append _ _), hdrop, htake, List.drop_left]
  rw [if_pos ⟨hname.1, trivial, List.contains_iff_mem.mpr htype⟩]

private theorem statementsOf_header {name help type : String} (hname : IsName (ascii name))
    (htype : ascii type ∈ kinds) :
    (∀ l ∈ header name help type, l.statement.isSome) ∧
      statementsOf (header name help type) = [.comment, .type (ascii name) (ascii type)] := by
  have hhelp :
      (Line.comment (ascii "HELP " ++ (ascii name ++ (ascii " " ++ ascii help)))).statement =
        some .comment := rfl
  have hkind := statement_type hname htype
  constructor
  · rw [header, List.forall_mem_cons, List.forall_mem_singleton, hhelp, hkind]
    exact ⟨rfl, rfl⟩
  · rw [header, statementsOf, List.filterMap_cons_some hhelp, List.filterMap_cons_some hkind]
    rfl

private theorem declares_header {name help type : String} (hname : IsName (ascii name))
    (htype : ascii type ∈ kinds) : Declares (header name help type) := by
  obtain ⟨hstated, hstatements⟩ := statementsOf_header hname htype
  refine ⟨hstated, fun before ↦ typed_of_declared fun s hs ↦ ?_⟩
  rw [hstatements] at hs
  rcases List.mem_pair.mp hs with hs | hs <;> cases hs

private theorem declares_sample {name help type : String} {labels : Labels} {value : Bytes}
    (hname : IsName (ascii name)) (htype : ascii type ∈ kinds) :
    Declares (header name help type ++ [sampleLine name labels value]) := by
  obtain ⟨hstated, hstatements⟩ := statementsOf_header hname htype
  refine ⟨List.forall_mem_append.mpr ⟨hstated, List.forall_mem_singleton.mpr rfl⟩, ?_⟩
  intro before
  rw [statementsOf_append]
  refine typed_append ((declares_header hname htype).typed before) (typed_of_declared ?_)
  intro s hs
  obtain rfl := Statement.sample.inj (List.mem_singleton.mp hs)
  refine ⟨ascii name, ascii type, List.mem_append_right _ ?_, .inl rfl⟩
  rw [hstatements]
  exact List.mem_cons_of_mem _ List.mem_cons_self

private theorem declares_gauge {name help : String} {labels : Labels} {value : Bytes}
    (hname : IsName (ascii name)) : Declares (gauge name help labels value) :=
  declares_sample hname (by decide)

private theorem declares_counter {name help : String} {labels : Labels} {value : Bytes}
    {rest : List Line} (hname : IsName (ascii name)) (hrest : Declares rest) :
    Declares (header name help "counter" ++ (sampleLine name labels value :: rest)) := by
  rw [List.append_cons]
  exact declares_append (declares_sample hname (by decide)) hrest

private theorem declares_state (state : ExporterState) (loadSuccess : Bool) :
    Declares (stateLines state loadSuccess) := by
  refine declares_counter (by decide) (declares_counter (by decide) ?_)
  exact declares_append (declares_gauge (by decide)) (declares_gauge (by decide))

private theorem declares_run (s : Snapshot) (timestamp : Double) :
    Declares (runLines s timestamp) := by
  unfold runLines
  iterate 9 refine declares_append (declares_gauge (by decide)) ?_
  iterate 4 refine declares_append (declares_header (by decide) (by decide)) ?_
  exact declares_header (by decide) (by decide)

private theorem declares_verdict (s : Snapshot) : Declares (verdictLines s) := by
  unfold verdictLines
  iterate 6 refine declares_append (declares_gauge (by decide)) ?_
  exact declares_gauge (by decide)

/-- The families of a distribution and their types. -/
def distributionFamilies : List (String × String) := [
  ("marketdata_inference_latency_us", "summary"),
  ("marketdata_inference_latency_mean_us", "gauge"),
  ("marketdata_inference_latency_min_us", "gauge"),
  ("marketdata_inference_latency_max_us", "gauge"),
  ("marketdata_inference_latency_stddev_us", "gauge")]

/-- The families of a distribution are among the statements. -/
def DistributionTyped (statements : List Statement) : Prop :=
  ∀ family ∈ distributionFamilies, .type (ascii family.1) (ascii family.2) ∈ statements

private theorem type_mem_header {name help type : String} (hname : IsName (ascii name))
    (htype : ascii type ∈ kinds) :
    .type (ascii name) (ascii type) ∈ statementsOf (header name help type) := by
  rw [(statementsOf_header hname htype).2]
  exact List.mem_cons_of_mem _ List.mem_cons_self

private theorem distributionTyped_run (s : Snapshot) (timestamp : Double) :
    DistributionTyped (statementsOf (runLines s timestamp)) := by
  unfold runLines
  simp only [statementsOf_append, DistributionTyped, distributionFamilies, List.forall_mem_cons,
    List.mem_append, type_mem_header (by decide : IsName (ascii "marketdata_inference_latency_us"))
      (by decide : ascii "summary" ∈ kinds),
    type_mem_header (by decide : IsName (ascii "marketdata_inference_latency_mean_us"))
      (by decide : ascii "gauge" ∈ kinds),
    type_mem_header (by decide : IsName (ascii "marketdata_inference_latency_min_us"))
      (by decide : ascii "gauge" ∈ kinds),
    type_mem_header (by decide : IsName (ascii "marketdata_inference_latency_max_us"))
      (by decide : ascii "gauge" ∈ kinds),
    type_mem_header (by decide : IsName (ascii "marketdata_inference_latency_stddev_us"))
      (by decide : ascii "gauge" ∈ kinds),
    true_or, or_true, true_and, List.not_mem_nil, false_implies, implies_true]

private theorem family_of_shape : ∀ shape ∈ distributionShapes, ∃ family ∈ distributionFamilies,
    OfFamily (ascii family.1) (ascii family.2) (ascii shape.1) := by
  decide +kernel

private theorem stated_distribution (scope : Bytes) (d : Distribution) :
    ∀ l ∈ distributionLines scope d, l.statement.isSome := by
  simp [distributionLines, sampleLine, Line.statement]

private theorem typed_distribution {before : List Statement} (h : DistributionTyped before)
    (scope : Bytes) (d : Distribution) :
    Typed before (statementsOf (distributionLines scope d)) := by
  refine typed_of_declared fun a ha ↦ ?_
  have hmem : a ∈ samples (distributionLines scope d) := by
    rw [← samplesOf_statementsOf]
    exact mem_samplesOf ha
  obtain ⟨shape, hshape, hnames⟩ := exists_shape (hasShapes_distribution scope d) hmem
  obtain ⟨family, hfamily, hof⟩ := family_of_shape shape hshape
  have hname : ascii shape.1 = a.name := congrArg Prod.fst hnames
  exact ⟨_, _, h family hfamily, hname ▸ hof⟩

private theorem DistributionTyped.mono {a b : List Statement} (h : DistributionTyped a)
    (hab : a ⊆ b) : DistributionTyped b :=
  fun family hfamily ↦ hab (h family hfamily)

private theorem typed_device {before : List Statement} (h : DistributionTyped before)
    (s : Snapshot) :
    (∀ l ∈ deviceLines s, l.statement.isSome) ∧ Typed before (statementsOf (deviceLines s)) := by
  unfold deviceLines
  cases s.deviceCompute with
  | none => exact ⟨fun _ hl ↦ (nomatch hl), typed_of_declared fun _ ha ↦ (nomatch ha)⟩
  | some d =>
    have hgauge : ∀ value, Declares (gauge "marketdata_inference_host_overhead_p99_us"
        "Difference between end-to-end and device p99." [] value) :=
      fun _ ↦ declares_gauge (by decide)
    refine ⟨List.forall_mem_append.mpr ⟨stated_distribution _ d, (hgauge _).stated⟩, ?_⟩
    rw [statementsOf_append]
    exact typed_append (typed_distribution h _ d) ((hgauge _).typed _)

/-- Every line of a scrape states something, and every sample is declared before it. -/
theorem typed_scrape (state : ExporterState) (loadSuccess : Bool) (s : Snapshot)
    (timestamp : Double) :
    (∀ l ∈ stateLines state loadSuccess ++ snapshotLines s timestamp, l.statement.isSome) ∧
      Typed [] (statementsOf (stateLines state loadSuccess ++ snapshotLines s timestamp)) := by
  have hstate := declares_state state loadSuccess
  have hrun := declares_run s timestamp
  have hverdict := declares_verdict s
  have hfamilies := distributionTyped_run s timestamp
  simp only [snapshotLines, List.forall_mem_append, statementsOf_append]
  refine ⟨⟨hstate.stated, hrun.stated, stated_distribution _ _, (typed_device hfamilies s).1,
    hverdict.stated⟩, ?_⟩
  refine typed_append (hstate.typed _) (typed_append (hrun.typed _) ?_)
  have hbefore := hfamilies.mono (List.subset_append_right
    ([] ++ statementsOf (stateLines state loadSuccess)) _)
  refine typed_append (typed_distribution hbefore _ _) (typed_append ?_ (hverdict.typed _))
  exact (typed_device (hbefore.mono (List.subset_append_left _ _)) s).2

/-! ### Strings -/

/-- A metric has a sample, and all its samples have the labels. -/
def Labelled (s : List Sample) (metric : String) (labels : Labels) : Prop :=
  (∃ a ∈ s, a.name = ascii metric) ∧ ∀ a ∈ s, a.name = ascii metric → a.labels = labels

private theorem name_ne_of_apart {a : List Sample} {shapes : List Shape} {metric : String}
    (ha : HasShapes a shapes) (h : Apart [(metric, [])] shapes) :
    ∀ s ∈ a, s.name ≠ ascii metric := by
  intro s hs hmetric
  obtain ⟨shape, hshape, hnames⟩ := exists_shape ha hs
  have heq : shape.1 = metric := ascii_inj.mp ((congrArg Prod.fst hnames).trans hmetric)
  exact absurd (List.mem_map_of_mem hshape) (heq ▸ h metric (List.mem_singleton.mpr rfl))

private theorem labelled_append {a b : List Sample} {shapes : List Shape} {metric : String}
    {labels : Labels} (ha : HasShapes a shapes) (h : Apart [(metric, [])] shapes)
    (hb : Labelled b metric labels) : Labelled (a ++ b) metric labels := by
  obtain ⟨⟨s, hs, hname⟩, hall⟩ := hb
  refine ⟨⟨s, List.mem_append_right _ hs, hname⟩, List.forall_mem_append.mpr ⟨?_, hall⟩⟩
  intro t ht hmetric
  exact absurd hmetric (name_ne_of_apart ha h t ht)

private theorem labelled_cons {rest : List Sample} {shapes : List Shape} {metric : String}
    {labels : Labels} {value : Bytes} (hrest : HasShapes rest shapes)
    (h : Apart [(metric, [])] shapes) :
    Labelled (⟨ascii metric, labels, value⟩ :: rest) metric labels := by
  refine ⟨⟨_, List.mem_cons_self, rfl⟩, List.forall_mem_cons.mpr ⟨fun _ ↦ rfl, ?_⟩⟩
  intro t ht hmetric
  exact absurd hmetric (name_ne_of_apart hrest h t ht)

/-- The labels of the build metric. -/
def buildLabels (s : Snapshot) : Labels := [
  (ascii "version", s.version), (ascii "revision", s.revision), (ascii "model", s.model),
  (ascii "backend", s.backend), (ascii "backend_version", s.backendVersion),
  (ascii "device", s.device)]

private theorem labelled_build (state : ExporterState) (loadSuccess : Bool) (s : Snapshot)
    (timestamp : Double) :
    Labelled (samples (stateLines state loadSuccess ++ snapshotLines s timestamp))
      "marketdata_build_info" (buildLabels s) := by
  have hrest : HasShapes (samples (runLines s timestamp)).tail runShapes.tail := rfl
  rw [samples_scrape]
  refine labelled_append (hasShapes_state _ _) (by decide) ?_
  refine labelled_cons (hasShapes_append hrest (hasShapes_append (hasShapes_distribution _ _)
    (hasShapes_append (hasShapes_device s) (hasShapes_verdict s)))) ?_
  exact apart_append (by decide) (apart_append (by decide)
    (apart_append (apart_device (by decide) s) (by decide)))

/-- The metrics that are labelled with the scope of the objective. -/
def sloMetrics : List String :=
  ["marketdata_inference_slo_target_us", "marketdata_inference_slo_observed_p99_us"]

private theorem labelled_verdict (s : Snapshot) {metric : String} (h : metric ∈ sloMetrics) :
    Labelled (samples (verdictLines s)) metric [scopeLabel s.sloScope] := by
  rcases List.mem_pair.mp h with rfl | rfl
  · have hfront : HasShapes ((samples (verdictLines s)).take 4) (verdictShapes.take 4) := rfl
    have hback : HasShapes ((samples (verdictLines s)).drop 5) (verdictShapes.drop 5) := rfl
    exact labelled_append hfront (by decide) (labelled_cons hback (by decide))
  · have hfront : HasShapes ((samples (verdictLines s)).take 5) (verdictShapes.take 5) := rfl
    have hback : HasShapes ((samples (verdictLines s)).drop 6) (verdictShapes.drop 6) := rfl
    exact labelled_append hfront (by decide) (labelled_cons hback (by decide))

private theorem labelled_slo (state : ExporterState) (loadSuccess : Bool) (s : Snapshot)
    (timestamp : Double) {metric : String} (h : metric ∈ sloMetrics) :
    Labelled (samples (stateLines state loadSuccess ++ snapshotLines s timestamp)) metric
      [scopeLabel s.sloScope] := by
  obtain ⟨hstate, hrun, hdistribution, hdevice⟩ : Apart [(metric, [])] stateShapes ∧
      Apart [(metric, [])] runShapes ∧ Apart [(metric, [])] distributionShapes ∧
      Apart [(metric, [])] (distributionShapes ++ overheadShapes) := by
    rcases List.mem_pair.mp h with rfl | rfl <;> decide
  rw [samples_scrape]
  refine labelled_append (hasShapes_state _ _) hstate ?_
  refine labelled_append (hasShapes_run s timestamp) hrun ?_
  refine labelled_append (hasShapes_distribution _ _) hdistribution ?_
  exact labelled_append (hasShapes_device s) (apart_device hdevice s) (labelled_verdict s h)

/-- The snapshot without its strings. -/
def Snapshot.withoutStrings (s : Snapshot) : Snapshot :=
  { s with
    version := []
    revision := []
    model := []
    backend := []
    backendVersion := []
    device := []
    sloScope := [] }

/-- The name and the value of a sample. -/
def nameAndValue (s : Sample) : Bytes × Bytes := (s.name, s.value)

private theorem nameAndValue_withoutStrings (state : ExporterState) (loadSuccess : Bool)
    (s : Snapshot) (timestamp : Double) :
    (samples (stateLines state loadSuccess ++ snapshotLines s timestamp)).map nameAndValue =
      (samples (stateLines state loadSuccess ++
        snapshotLines s.withoutStrings timestamp)).map nameAndValue := by
  have hdevice : samples (deviceLines s.withoutStrings) = samples (deviceLines s) := rfl
  have hrun : (samples (runLines s timestamp)).map nameAndValue =
      (samples (runLines s.withoutStrings timestamp)).map nameAndValue := rfl
  have hverdict : (samples (verdictLines s)).map nameAndValue =
      (samples (verdictLines s.withoutStrings)).map nameAndValue := rfl
  rw [samples_scrape, samples_scrape, hdevice]
  simp only [List.map_append, hrun, hverdict]
  rfl

/-- What a scraper makes of the body of a successful scrape, whatever the strings of the snapshot
are: every line is a comment or a valid sample, no two samples are of one series, every sample's
family is declared before it, and the labels hold the strings. -/
structure Integrity (s : Snapshot) (statements : List Statement) : Prop where
  valid : ∀ a ∈ samplesOf statements, a.Valid
  distinct : DistinctSeries (samplesOf statements)
  typed : Typed [] statements
  build : Labelled (samplesOf statements) "marketdata_build_info" (buildLabels s)
  slo : ∀ metric ∈ sloMetrics, Labelled (samplesOf statements) metric [scopeLabel s.sloScope]

/-- The body of a successful scrape of any snapshot has integrity, and two snapshots that differ in
their strings only have samples of the same names and values. -/
theorem exposition_integrity (state : ExporterState) (s : Snapshot) (timestamp : Double) :
    ∃ statements, readStatements (renderExporterState state true ++ renderSnapshot s timestamp) =
        some statements ∧ Integrity s statements ∧
      ∀ s' : Snapshot, s'.withoutStrings = s.withoutStrings → ∃ statements',
        readStatements (renderExporterState state true ++ renderSnapshot s' timestamp) =
          some statements' ∧
        (samplesOf statements').map nameAndValue = (samplesOf statements).map nameAndValue := by
  have hread : ∀ s : Snapshot,
      readStatements (renderExporterState state true ++ renderSnapshot s timestamp) =
        some (statementsOf (stateLines state true ++ snapshotLines s timestamp)) := by
    intro s
    rw [← exposition_scrape]
    exact readStatements_exposition (wellFormed_scrape state true s timestamp)
      (typed_scrape state true s timestamp).1
  refine ⟨_, hread s, ?_, fun s' hs' ↦ ⟨_, hread s', ?_⟩⟩
  · refine ⟨?_, ?_, (typed_scrape state true s timestamp).2, ?_, ?_⟩ <;>
      rw [samplesOf_statementsOf]
    · exact valid_scrape state true s timestamp
    · exact distinct_scrape state true s timestamp
    · exact labelled_build state true s timestamp
    · exact fun metric hmetric ↦ labelled_slo state true s timestamp hmetric
  · rw [samplesOf_statementsOf, samplesOf_statementsOf, nameAndValue_withoutStrings, hs',
      ← nameAndValue_withoutStrings]

end MarketData.Exporter
