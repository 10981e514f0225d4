import MarketData.Comparator.Extension
import MarketData.Comparator.Metrics
import MarketData.Exporter.Extension
import MarketData.Exporter.Metrics

/-!
# Reads of a document that is still being written

The driver truncates its file and writes the document into it, so a reader may meet any
prefix. The exporter never checks that the root is closed, but it needs the object that
comes last; the comparator needs the root. Either way only whitespace and the closing
brace can be missing.
-/

namespace MarketData.Pipeline

open ByteText Cpp Json

variable {build : Build} {options : RunOptions} {stats : InferenceStats} {torn : Bytes}

private theorem torn_split {whole rest : Bytes} (hp : torn <+: whole ++ rest)
    (hl : whole.length ≤ torn.length) : ∃ tail, torn = whole ++ tail ∧ tail <+: rest := by
  obtain ⟨tail, rfl⟩ := List.prefix_of_prefix_length_le (List.prefix_append whole rest) hp hl
  exact ⟨tail, rfl, (List.prefix_append_right_inj whole).mp hp⟩

private theorem objectValue_slo {s : Exporter.Snapshot} (h : Exporter.parseSnapshot torn = .ok s) :
    ∃ position object, Exporter.findValue torn (ascii "slo") = some position ∧
      Exporter.objectAt torn position = .ok object := by
  simp only [Exporter.parseSnapshot, bind_eq_ok] at h
  obtain ⟨_, -, _, -, _, -, _, -, _, -, _, -, _, -, _, -, object, ho, -⟩ := h
  rw [Exporter.objectValue, Exporter.requiredValue] at ho
  cases hf : Exporter.findValue torn (ascii "slo") with
  | none =>
    rw [hf] at ho
    cases ho
  | some position =>
    rw [hf] at ho
    exact ⟨position, object, rfl, ho⟩

-- What the exporter accepts reaches to the end of the last member.
private theorem exporter_reach (hp : torn <+: formatMetricsJson build options stats)
    {s : Exporter.Snapshot} (h : Exporter.parseSnapshot torn = .ok s) :
    (openBrace :: (rootMembers noSpace build options stats).text).length ≤ torn.length := by
  obtain ⟨position, object, hf, ho⟩ := objectValue_slo h
  obtain ⟨more, hmore⟩ := hp
  obtain ⟨before, hroot, hslo⟩ := Exporter.findValue_slo build options stats
  obtain ⟨hobject, hlt, hlen⟩ := Exporter.objectAt_append more ho
  have hdocument : torn ++ more = before ++ ((sloNode options stats).text ++ ascii "\n\x7d\n") := by
    rw [hmore, formatMetricsJson_eq, ← List.cons_append, hroot, List.append_assoc]
  have hfind := Exporter.findValue_append more hf hlt
  rw [hdocument, hslo] at hfind
  obtain rfl := Option.some.inj hfind
  rw [hdocument, Exporter.objectAt_inside] at hobject
  obtain rfl : (sloNode options stats).text = object := Except.ok.inj hobject
  rw [hroot, List.length_append]
  exact hlen

private theorem exporter_torn (hp : torn <+: formatMetricsJson build options stats)
    {s : Exporter.Snapshot} (h : Exporter.parseSnapshot torn = .ok s) :
    Exporter.parseSnapshot (formatMetricsJson build options stats) = .ok s := by
  have hl := exporter_reach hp h
  rw [formatMetricsJson_eq, ← List.cons_append] at hp
  obtain ⟨tail, rfl, htail⟩ := torn_split hp hl
  have hinits : ∀ t ∈ (ascii "\n\x7d\n").inits, Follows t ∧ ∀ b ∈ t, b ≠ quote := by decide
  obtain ⟨hfollows, hquote⟩ := hinits tail ((List.mem_inits _ _).mpr htail)
  rw [← h, Exporter.parseSnapshot_formatMetricsJson, List.cons_append,
    Exporter.parseSnapshot_rootMembers build options stats hfollows hquote]

-- What the comparator accepts reaches to the closing brace of the root.
private theorem comparator_reach (hp : torn <+: formatMetricsJson build options stats)
    {scope metric : Bytes} {m : Comparator.RunMetrics}
    (h : Comparator.parseMetrics torn scope metric = .ok m) :
    (metricsNode build options stats).text.length ≤ torn.length := by
  rw [Comparator.parseMetrics] at h
  obtain ⟨root, hroot, -⟩ := bind_eq_ok.mp h
  rw [Comparator.rootObject] at hroot
  obtain ⟨object, hobject, -⟩ := bind_eq_ok.mp hroot
  obtain ⟨more, hmore⟩ := hp
  rw [formatMetricsJson_document] at hmore
  have hstart : Comparator.skipSpace torn 0 = 0 := by
    cases torn with
    | nil => rfl
    | cons b rest =>
      have hb : b = openBrace := (List.cons.inj (hmore.trans (text_metricsDocument ..))).1
      exact skipWhile_stop (by simp [hb]; decide)
  rw [hstart] at hobject
  obtain ⟨hlong, hlt⟩ := Comparator.objectAt_append more hobject
  have hroot : Stands (metricsDocument (lineBreak 0) build options stats).text 0
      (metricsNode build options stats) := Comparator.stands_root _
  rw [hmore, Comparator.objectAt_stands hroot] at hlong
  obtain rfl := Except.ok.inj hlong
  simp only [Comparator.spanOf] at hlt
  omega

private theorem comparator_torn (hp : torn <+: formatMetricsJson build options stats)
    {scope metric : Bytes} {m : Comparator.RunMetrics}
    (h : Comparator.parseMetrics torn scope metric = .ok m) :
    Comparator.parseMetrics (formatMetricsJson build options stats) scope metric = .ok m := by
  have hl := comparator_reach hp h
  have hwhole : formatMetricsJson build options stats =
      (metricsNode build options stats).text ++ [newline] := by
    rw [formatMetricsJson_document]
    rfl
  rw [hwhole] at hp
  obtain ⟨tail, rfl, htail⟩ := torn_split hp hl
  have hinits : ∀ t ∈ [newline].inits, ∀ b ∈ t, isSpace b = true := by decide
  have hspace := hinits tail ((List.mem_inits _ _).mpr htail)
  have htorn : (metricsNode build options stats).text ++ tail =
      (metricsDocument ⟨tail, hspace⟩ build options stats).text := rfl
  rw [htorn, Comparator.parseMetrics_document _ rfl] at h
  rw [formatMetricsJson_document, Comparator.parseMetrics_document _ rfl]
  exact h

/-- A reader that accepts a prefix of a document reads from it what it reads from the document. -/
theorem torn_read (hp : torn <+: formatMetricsJson build options stats) :
    (∀ s, Exporter.parseSnapshot torn = .ok s →
      Exporter.parseSnapshot (formatMetricsJson build options stats) = .ok s) ∧
    ∀ scope metric m, Comparator.parseMetrics torn scope metric = .ok m →
      Comparator.parseMetrics (formatMetricsJson build options stats) scope metric = .ok m :=
  ⟨fun _ h ↦ exporter_torn hp h, fun _ _ _ h ↦ comparator_torn hp h⟩

/-- The document of the short run without its last byte. -/
def tornSample : Bytes :=
  openBrace :: ((rootMembers noSpace {} {} sampleStats).text ++ ascii "\n\x7d")

/-- The exporter accepts the torn document, and therefore the whole one. -/
theorem torn_read_sample :
    Exporter.parseSnapshot (formatMetricsJson {} {} sampleStats) = .ok Exporter.sampleSnapshot := by
  have hp : tornSample <+: formatMetricsJson {} {} sampleStats := by
    refine ⟨[newline], ?_⟩
    rw [formatMetricsJson_eq, tornSample, List.cons_append, List.append_assoc]
    rfl
  have htorn : Exporter.parseSnapshot tornSample = .ok Exporter.sampleSnapshot := by
    rw [tornSample, Exporter.parseSnapshot_rootMembers {} {} sampleStats (by decide) (by decide)]
    decide +kernel
  exact (torn_read hp).1 _ htorn

end MarketData.Pipeline
