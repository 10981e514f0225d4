import MarketData.Prometheus.Exposition

/-!
# What an exposition declares

The lines of an exposition one by one: comments, types of metrics and samples. A sample is valid
when its names are names, its labels differ and its value is a number, and it belongs to a family
that is declared before it.
-/

namespace Prometheus

open ByteText

/-! ### Statements -/

/-- What a line says. -/
inductive Statement where
  | comment
  | type (name kind : Bytes)
  | sample (s : Sample)

/-- The types of metrics. -/
def kinds : List Bytes :=
  [ascii "counter", ascii "gauge", ascii "histogram", ascii "summary", ascii "untyped"]

/-- A comment, which declares a type when its first word is `TYPE`. -/
def readComment (text : Bytes) : Option Statement :=
  if ascii "TYPE " <+: text then
    let rest := text.drop 5
    let name := rest.takeWhile isNameByte
    match rest.drop name.length with
    | [] => none
    | c :: kind =>
      if name ≠ [] ∧ c = blank ∧ kinds.contains kind then some (.type name kind) else none
  else some .comment

/-- What a line says. Fails on a line that is no comment and no sample, and on an empty one. -/
def readStatement (line : Bytes) : Option Statement :=
  match line with
  | [] => none
  | c :: rest =>
    if c = 35 then readComment (rest.dropWhile (· == blank)) else (readSample line).map .sample

/-- The statements of a text. -/
def readStatements (text : Bytes) : Option (List Statement) := (lines text).mapM readStatement

/-- The statement of a line that is written. -/
def Line.statement : Line → Option Statement
  | .comment text => readComment (text.dropWhile (· == blank))
  | .sample s => some (.sample s)

/-- The statements of lines, as far as they have any. -/
def statementsOf (ls : List Line) : List Statement := ls.filterMap Line.statement

/-- The samples among statements. -/
def samplesOf (statements : List Statement) : List Sample :=
  statements.filterMap fun
    | .sample s => some s
    | .comment => none
    | .type _ _ => none

private theorem readStatement_text {l : Line} (h : l.WellFormed) :
    readStatement l.text = l.statement := by
  cases l with
  | comment text => rfl
  | sample s =>
    obtain ⟨b, rest, ht, hne⟩ := exists_text_cons h
    rw [Line.text, readStatement.eq_def, ht]
    simp only [hne, if_false]
    rw [← ht, readSample_text h]
    rfl

/-- Well-formed lines that all state something read back as what they state. -/
theorem readStatements_exposition {ls : List Line} (h : ∀ l ∈ ls, l.WellFormed)
    (hstated : ∀ l ∈ ls, l.statement.isSome) :
    readStatements (exposition ls) = some (statementsOf ls) := by
  rw [readStatements, lines_exposition h]
  induction ls with
  | nil => rfl
  | cons l ls ih =>
    obtain ⟨hl, hls⟩ := List.forall_mem_cons.mp h
    obtain ⟨hsome, hrest⟩ := List.forall_mem_cons.mp hstated
    obtain ⟨statement, hstatement⟩ := Option.isSome_iff_exists.mp hsome
    have hcons : statementsOf (l :: ls) = statement :: statementsOf ls :=
      List.filterMap_cons_some hstatement
    rw [List.map_cons, List.mapM_cons, readStatement_text hl, hstatement, ih hls hrest, hcons]
    rfl

/-- The statements of two lists of lines. -/
@[simp] theorem statementsOf_append (a b : List Line) :
    statementsOf (a ++ b) = statementsOf a ++ statementsOf b := List.filterMap_append

/-- A sample among the statements is one of their samples. -/
theorem mem_samplesOf {s : Sample} {statements : List Statement} (h : .sample s ∈ statements) :
    s ∈ samplesOf statements :=
  List.mem_filterMap.mpr ⟨_, h, rfl⟩

private theorem readComment_ne_sample (text : Bytes) (s : Sample) :
    readComment text ≠ some (.sample s) := by
  unfold readComment
  split
  · dsimp only
    split
    · exact nofun
    · split <;> exact nofun
  · exact nofun

/-- The samples among the statements of lines are the samples of the lines. -/
theorem samplesOf_statementsOf (ls : List Line) : samplesOf (statementsOf ls) = samples ls := by
  induction ls with
  | nil => rfl
  | cons l ls ih =>
    cases l with
    | sample s =>
      change s :: samplesOf (statementsOf ls) = s :: samples ls
      rw [ih]
    | comment text =>
      change samplesOf (statementsOf (.comment text :: ls)) = samples ls
      rw [← ih]
      cases h : (Line.comment text).statement with
      | none => rw [statementsOf, List.filterMap_cons_none h, ← statementsOf]
      | some statement =>
        rw [statementsOf, List.filterMap_cons_some h, ← statementsOf]
        cases statement with
        | comment => rfl
        | type name kind => rfl
        | sample s => exact absurd h (readComment_ne_sample _ s)

/-! ### Valid samples -/

/-- A metric name. -/
def IsMetricName (name : Bytes) : Prop := IsName name ∧ name.head?.all (fun b ↦ !isDigit b) = true

/-- The bytes of a metric name are checked one by one. -/
instance (name : Bytes) : Decidable (IsMetricName name) := inferInstanceAs (Decidable (_ ∧ _))

/-- A label name, which has no colon. -/
def IsLabelName (name : Bytes) : Prop := IsMetricName name ∧ 58 ∉ name

/-- The bytes of a label name are checked one by one. -/
instance (name : Bytes) : Decidable (IsLabelName name) := inferInstanceAs (Decidable (_ ∧ _))

/-- A run of digits. -/
def IsDigits (text : Bytes) : Prop := text ≠ [] ∧ ∀ b ∈ text, isDigit b = true

/-- A decimal numeral: digits, and then optionally a point with digits and an exponent. -/
structure IsNumeral (text whole fraction exponent : Bytes) : Prop where
  text : text = whole ++ (fraction ++ exponent)
  whole : IsDigits whole
  fraction : fraction = [] ∨ ∃ digits, fraction = 46 :: digits ∧ IsDigits digits
  exponent : exponent = [] ∨
    ∃ sign digits, exponent = 101 :: sign :: digits ∧ (sign = 43 ∨ sign = 45) ∧ IsDigits digits

/-- A value: a numeral or an infinity, with an optional minus, or a NaN. -/
def IsValue (value : Bytes) : Prop :=
  value = ascii "nan" ∨ ∃ sign body, value = sign ++ body ∧ (sign = [] ∨ sign = [45]) ∧
    (body = ascii "inf" ∨ ∃ whole fraction exponent, IsNumeral body whole fraction exponent)

/-- A sample that the format allows. -/
structure Sample.Valid (s : Sample) : Prop where
  name : IsMetricName s.name
  labels : ∀ l ∈ s.labels, IsLabelName l.1
  distinct : (s.labels.map Prod.fst).Nodup
  value : IsValue s.value

/-- Digits are a value. -/
theorem IsDigits.isValue {text : Bytes} (h : IsDigits text) : IsValue text :=
  .inr ⟨[], text, rfl, .inl rfl, .inr ⟨text, [], [], by simp, h, .inl rfl, .inl rfl⟩⟩

/-! ### Series -/

/-- Two samples have the same name and the same set of labels. -/
def Sample.SameSeries (a b : Sample) : Prop := a.name = b.name ∧ ∀ l, l ∈ a.labels ↔ l ∈ b.labels

/-- No two samples of the list are of one series. -/
def DistinctSeries (s : List Sample) : Prop := s.Pairwise fun a b ↦ ¬ a.SameSeries b

/-- Two lists without a common series have no series twice together. -/
theorem distinctSeries_append {a b : List Sample} (ha : DistinctSeries a) (hb : DistinctSeries b)
    (h : ∀ s ∈ a, ∀ t ∈ b, ¬ s.SameSeries t) : DistinctSeries (a ++ b) :=
  List.pairwise_append.mpr ⟨ha, hb, h⟩

/-- Samples of different names are of different series. -/
theorem distinctSeries_of_names {s : List Sample} (h : (s.map Sample.name).Nodup) :
    DistinctSeries s := by
  refine (List.pairwise_map.mp h).imp ?_
  exact fun hne hsame ↦ hne hsame.1

/-! ### Families -/

/-- A sample name of the family of a metric: the metric itself, or one of its parts. -/
def OfFamily (name kind sample : Bytes) : Prop :=
  sample = name ∨
    (kind = ascii "summary" ∨ kind = ascii "histogram") ∧
      (sample = name ++ ascii "_sum" ∨ sample = name ++ ascii "_count") ∨
    kind = ascii "histogram" ∧ sample = name ++ ascii "_bucket"

/-- The names that a family has are compared one by one. -/
instance (name kind sample : Bytes) : Decidable (OfFamily name kind sample) :=
  inferInstanceAs (Decidable (_ ∨ _))

/-- The family of a sample is declared among the statements. -/
def Declared (s : Sample) (statements : List Statement) : Prop :=
  ∃ name kind, .type name kind ∈ statements ∧ OfFamily name kind s.name

/-- Behind the statements before, every sample is declared when it comes. -/
def Typed (before statements : List Statement) : Prop :=
  ∀ front s back, statements = front ++ .sample s :: back → Declared s (before ++ front)

/-- What is declared stays declared. -/
theorem Declared.mono {s : Sample} {a b : List Statement} (h : Declared s a) (hab : a ⊆ b) :
    Declared s b := by
  obtain ⟨name, kind, hmem, hfamily⟩ := h
  exact ⟨name, kind, hab hmem, hfamily⟩

/-- Samples that are declared before. -/
theorem typed_of_declared {before statements : List Statement}
    (h : ∀ s, .sample s ∈ statements → Declared s before) : Typed before statements := by
  rintro front s back rfl
  exact (h s (by simp)).mono (List.subset_append_left _ _)

/-- A list that continues a typed one is typed behind it. -/
theorem typed_append {before a b : List Statement} (ha : Typed before a)
    (hb : Typed (before ++ a) b) : Typed before (a ++ b) := by
  intro front s back h
  rcases List.append_eq_append_iff.mp h with ⟨mid, rfl, hmid⟩ | ⟨mid, hmid, hrest⟩
  · rw [← List.append_assoc]
    exact hb mid s back hmid
  · cases mid with
    | nil =>
      rw [List.append_nil] at hmid
      subst hmid
      have := hb [] s back hrest.symm
      rwa [List.append_nil] at this
    | cons x mid =>
      obtain ⟨rfl, -⟩ := List.cons.inj hrest
      exact ha front s mid hmid

end Prometheus
