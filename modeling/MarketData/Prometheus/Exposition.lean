import MarketData.Base.Bytes

/-!
# Prometheus text exposition

A text of lines: a line that starts with a number sign is a comment, an empty line means
nothing, every other line is a sample. A sample has a metric name, labels in braces and a
value. A label value is quoted, with a backslash before every backslash and every quote
and with the letter `n` for a line feed. Texts are bytes: the rule of the format that a label
value is valid UTF-8 is not checked.
-/

namespace Prometheus

open ByteText

/-- The labels of a sample, names and values. -/
abbrev Labels := List (Bytes × Bytes)

/-- A sample; its value is kept as printed. -/
structure Sample where
  name : Bytes
  labels : Labels
  value : Bytes
deriving DecidableEq

/-- A line of an exposition. -/
inductive Line where
  | comment (text : Bytes)
  | sample (s : Sample)

/-! ### Writing -/

/-- One byte of a label value. -/
def escapeByte (c : UInt8) : Bytes :=
  if c = backslash then [backslash, backslash]
  else if c = quote then [backslash, quote]
  else if c = newline then [backslash, 110]
  else [c]

/-- A label value. -/
def escape (value : Bytes) : Bytes := value.flatMap escapeByte

/-- A label. -/
def labelText (l : Bytes × Bytes) : Bytes := l.1 ++ 61 :: quote :: (escape l.2 ++ [quote])

/-- The labels after the first. -/
def moreLabels : Labels → Bytes
  | [] => [closeBrace]
  | l :: rest => comma :: (labelText l ++ moreLabels rest)

/-- The labels in their braces; nothing when there are none. -/
def labelsText : Labels → Bytes
  | [] => []
  | l :: rest => openBrace :: (labelText l ++ moreLabels rest)

/-- A sample on its line. -/
def Sample.text (s : Sample) : Bytes := s.name ++ (labelsText s.labels ++ blank :: s.value)

/-- A line without its line feed. -/
def Line.text : Line → Bytes
  | .comment text => 35 :: blank :: text
  | .sample s => s.text

/-- An exposition. -/
def exposition (ls : List Line) : Bytes := ls.flatMap (fun l ↦ l.text ++ [newline])

/-! ### Reading -/

/-- A byte of a metric or label name. -/
def isNameByte (b : UInt8) : Bool :=
  isDigit b || (97 ≤ b && b ≤ 122) || (65 ≤ b && b ≤ 90) || b == 95 || b == 58

/-- The byte behind a backslash in a label value. -/
def unescape? (letter : UInt8) : Option UInt8 :=
  if letter = backslash then some backslash
  else if letter = quote then some quote
  else if letter = 110 then some newline
  else none

/-- The rest of a quoted label value, and what follows it. Any bytes are taken, also those that are
no UTF-8. -/
def readQuoted (escaped : Bool) : Bytes → Option (Bytes × Bytes)
  | [] => none
  | c :: rest =>
    if escaped then
      (unescape? c).bind (fun b ↦ (readQuoted false rest).map (fun r ↦ (b :: r.1, r.2)))
    else if c = quote then some ([], rest)
    else if c = backslash then readQuoted true rest
    else (readQuoted false rest).map (fun r ↦ (c :: r.1, r.2))

/-- A label, and what follows it. -/
def readLabel (text : Bytes) : Option ((Bytes × Bytes) × Bytes) :=
  let name := text.takeWhile isNameByte
  if name = [] then none
  else
    match text.drop name.length with
    | equals :: open_ :: rest =>
      if equals = 61 ∧ open_ = quote then
        (readQuoted false rest).map (fun r ↦ ((name, r.1), r.2))
      else none
    | _ => none

/-- Labels up to the closing brace, at most `fuel` of them, and what follows. -/
def readLabels : Nat → Bytes → Option (Labels × Bytes)
  | 0, _ => none
  | fuel + 1, text =>
    (readLabel text).bind (fun (l, rest) ↦
      match rest with
      | c :: rest =>
        if c = closeBrace then some ([l], rest)
        else if c = comma then (readLabels fuel rest).map (fun r ↦ (l :: r.1, r.2))
        else none
      | [] => none)

/-- A sample from its line. -/
def readSample (text : Bytes) : Option Sample :=
  let name := text.takeWhile isNameByte
  if name = [] then none
  else
    match text.drop name.length with
    | c :: rest =>
      if c = blank then some ⟨name, [], rest⟩
      else if c = openBrace then
        (readLabels rest.length rest).bind (fun (labels, rest) ↦
          match rest with
          | b :: value => if b = blank then some ⟨name, labels, value⟩ else none
          | [] => none)
      else none
    | [] => none

/-- The lines of a text. -/
def lines : Bytes → List Bytes
  | [] => []
  | c :: rest =>
    if c = newline then [] :: lines rest
    else
      match lines rest with
      | [] => [[c]]
      | l :: ls => (c :: l) :: ls

/-- What a line says: nothing, or a sample. Fails on a line that is no exposition. -/
def readLine (line : Bytes) : Option (List Sample) :=
  match line with
  | [] => some []
  | c :: _ => if c = 35 then some [] else (readSample line).map (fun s ↦ [s])

/-- The samples of an exposition. -/
def read (text : Bytes) : Option (List Sample) :=
  ((lines text).mapM readLine).map List.flatten

/-- The samples of the lines written. -/
def samples (ls : List Line) : List Sample :=
  ls.filterMap (fun | .sample s => some s | .comment _ => none)

/-- The value of a metric that has no labels. -/
def valueOf (s : List Sample) (name : Bytes) : Option Bytes :=
  (s.find? (fun s ↦ s.name == name && s.labels.isEmpty)).map Sample.value

/-- A metric is looked up in the first samples first. -/
theorem valueOf_append (a b : List Sample) (name : Bytes) :
    valueOf (a ++ b) name = (valueOf a name).or (valueOf b name) := by
  rw [valueOf, valueOf, valueOf, List.find?_append, Option.map_or]

/-- A metric under its literal name. -/
theorem valueOf_cons (n name : String) (labels : Labels) (value : Bytes) (rest : List Sample) :
    valueOf (⟨ascii n, labels, value⟩ :: rest) (ascii name) =
      if n = name ∧ labels = [] then some value else valueOf rest (ascii name) := by
  have hb : (ascii n == ascii name && labels.isEmpty) = decide (n = name ∧ labels = []) := by
    rw [Bool.eq_iff_iff]
    simp [ascii_inj]
  unfold valueOf
  rw [List.find?_cons]
  simp only [hb]
  by_cases h : n = name ∧ labels = [] <;> simp [h]

/-! ### What was written is read back -/

/-- A name the format allows. -/
def IsName (name : Bytes) : Prop := name ≠ [] ∧ ∀ b ∈ name, isNameByte b = true

/-- The bytes of a name are checked one by one. -/
instance (name : Bytes) : Decidable (IsName name) := inferInstanceAs (Decidable (_ ∧ _))

/-- A line the format allows. -/
def Line.WellFormed : Line → Prop
  | .comment text => newline ∉ text
  | .sample s => IsName s.name ∧ (∀ l ∈ s.labels, IsName l.1) ∧ newline ∉ s.value

private theorem readQuoted_escape (value rest : Bytes) :
    readQuoted false (escape value ++ quote :: rest) = some (value, rest) := by
  induction value with
  | nil => rfl
  | cons c value ih =>
    have hc : escape (c :: value) = escapeByte c ++ escape value := rfl
    have hb : backslash ≠ quote := by decide
    rw [hc, List.append_assoc, escapeByte]
    split
    · next h =>
      subst h
      simp [readQuoted, unescape?, hb, ih]
    split
    · next h =>
      subst h
      simp [readQuoted, unescape?, hb, hb.symm, ih]
    split
    · next h =>
      subst h
      have hn : unescape? 110 = some newline := by decide
      simp [readQuoted, hn, hb, ih]
    · next h92 h34 _ => simp [readQuoted, h92, h34, ih]

/-- A name is read up to the first byte that is none of its own. -/
theorem takeWhile_name {name rest : Bytes} {c : UInt8} (hn : IsName name)
    (hc : isNameByte c = false) : (name ++ c :: rest).takeWhile isNameByte = name := by
  rw [List.takeWhile_append_of_pos hn.2]
  simp [hc]

private theorem readLabel_labelText {l : Bytes × Bytes} (hl : IsName l.1) (rest : Bytes) :
    readLabel (labelText l ++ rest) = some (l, rest) := by
  have ht : labelText l ++ rest = l.1 ++ 61 :: quote :: (escape l.2 ++ quote :: rest) := by
    simp [labelText]
  rw [ht]
  have htake : (l.1 ++ 61 :: quote :: (escape l.2 ++ quote :: rest)).takeWhile isNameByte = l.1 :=
    takeWhile_name hl (by decide)
  simp only [readLabel, htake, hl.1, if_false, List.drop_left, readQuoted_escape]
  simp

private theorem readLabels_moreLabels {l : Bytes × Bytes} {more : Labels} (hl : IsName l.1)
    (hm : ∀ l ∈ more, IsName l.1) (rest : Bytes) {fuel : Nat} (hf : more.length < fuel) :
    readLabels fuel (labelText l ++ (moreLabels more ++ rest)) = some (l :: more, rest) := by
  induction more generalizing l fuel with
  | nil =>
    obtain ⟨fuel, rfl⟩ := Nat.exists_eq_succ_of_ne_zero (Nat.ne_of_gt hf)
    simp [readLabels, readLabel_labelText hl, moreLabels]
  | cons m more ih =>
    obtain ⟨fuel, rfl⟩ := Nat.exists_eq_succ_of_ne_zero (Nat.ne_of_gt (Nat.zero_lt_of_lt hf))
    have hfuel : more.length < fuel := by simpa using hf
    have hrec := ih (hm m (by simp)) (fun l h ↦ hm l (by simp [h])) hfuel
    have ht : moreLabels (m :: more) ++ rest =
        comma :: (labelText m ++ (moreLabels more ++ rest)) := by simp [moreLabels]
    rw [readLabels, readLabel_labelText hl, ht]
    simp [hrec]
    decide

private theorem length_moreLabels (more : Labels) : more.length < (moreLabels more).length := by
  induction more with
  | nil => simp [moreLabels]
  | cons l more ih =>
    simp only [moreLabels, List.length_cons, List.length_append]
    omega

/-- A well-formed sample is read back from its text. -/
theorem readSample_text {s : Sample} (h : (Line.sample s).WellFormed) :
    readSample s.text = some s := by
  obtain ⟨hn, hl, -⟩ := h
  obtain ⟨name, labels, value⟩ := s
  cases labels with
  | nil =>
    simp only [Sample.text, labelsText, List.nil_append, readSample, takeWhile_name hn
      (show isNameByte blank = false by decide), hn.1, if_false, List.drop_left, if_true]
  | cons l more =>
    have ht : (Sample.mk name (l :: more) value).text =
        name ++ openBrace :: (labelText l ++ (moreLabels more ++ blank :: value)) := by
      simp [Sample.text, labelsText]
    have hf : more.length < (labelText l ++ (moreLabels more ++ blank :: value)).length := by
      have := length_moreLabels more
      simp only [List.length_append]
      omega
    have hr := readLabels_moreLabels (hl l (by simp)) (fun l h ↦ hl l (by simp [h]))
      (blank :: value) hf
    rw [ht]
    simp only [readSample, takeWhile_name hn (show isNameByte openBrace = false by decide), hn.1,
      if_false, List.drop_left, hr]
    simp
    decide

private theorem lines_append {line : Bytes} (h : newline ∉ line) (rest : Bytes) :
    lines (line ++ newline :: rest) = line :: lines rest := by
  induction line with
  | nil => simp [lines]
  | cons c line ih =>
    have hc : c ≠ newline := fun hc ↦ h (by simp [hc])
    rw [List.cons_append, lines, if_neg hc, ih (fun hm ↦ h (by simp [hm]))]

private theorem newline_not_mem_name {name : Bytes} (h : IsName name) : newline ∉ name :=
  fun hm ↦ absurd (h.2 _ hm) (by decide)

private theorem newline_not_mem_escape (value : Bytes) : newline ∉ escape value := by
  simp only [escape, List.mem_flatMap, not_exists, not_and]
  intro c _ hm
  unfold escapeByte at hm
  split at hm
  · simp at hm
    exact absurd hm (by decide)
  split at hm
  · simp at hm
    rcases hm with hm | hm <;> exact absurd hm (by decide)
  split at hm
  · simp at hm
    rcases hm with hm | hm <;> exact absurd hm (by decide)
  · next h => simp at hm; exact h hm.symm

private theorem newline_not_mem_labelText {l : Bytes × Bytes} (h : IsName l.1) :
    newline ∉ labelText l := by
  have h1 := newline_not_mem_name h
  have h2 := newline_not_mem_escape l.2
  simp only [labelText, List.mem_append, List.mem_cons, List.not_mem_nil, or_false, not_or]
  exact ⟨h1, by decide, by decide, h2, by decide⟩

private theorem newline_not_mem_moreLabels {more : Labels} (h : ∀ l ∈ more, IsName l.1) :
    newline ∉ moreLabels more := by
  induction more with
  | nil => decide
  | cons l more ih =>
    have hl := newline_not_mem_labelText (h l (by simp))
    have hm := ih (fun l hl ↦ h l (by simp [hl]))
    simp only [moreLabels, List.mem_cons, List.mem_append, not_or]
    exact ⟨by decide, hl, hm⟩

private theorem newline_not_mem_text {l : Line} (h : l.WellFormed) : newline ∉ l.text := by
  cases l with
  | comment text =>
    have h : newline ∉ text := h
    simp only [Line.text, List.mem_cons, not_or]
    exact ⟨by decide, by decide, h⟩
  | sample s =>
    obtain ⟨hn, hl, hv⟩ := h
    have hname := newline_not_mem_name hn
    have hlabels : newline ∉ labelsText s.labels := by
      cases hs : s.labels with
      | nil => decide
      | cons l more =>
        rw [hs] at hl
        have h1 := newline_not_mem_labelText (hl l (by simp))
        have h2 : newline ∉ moreLabels more :=
          newline_not_mem_moreLabels (fun l h ↦ hl l (by simp [h]))
        simp only [labelsText, List.mem_cons, List.mem_append, not_or]
        exact ⟨by decide, h1, h2⟩
    simp only [Line.text, Sample.text, List.mem_append, List.mem_cons, not_or]
    exact ⟨hname, hlabels, by decide, hv⟩

/-- A sample does not start like a comment. -/
theorem exists_text_cons {s : Sample} (h : (Line.sample s).WellFormed) :
    ∃ b rest, s.text = b :: rest ∧ b ≠ 35 := by
  obtain ⟨b, rest, hb⟩ := List.exists_cons_of_ne_nil h.1.1
  refine ⟨b, rest ++ (labelsText s.labels ++ blank :: s.value), by simp [Sample.text, hb], ?_⟩
  rintro rfl
  exact absurd (h.1.2 35 (by simp [hb])) (by decide)

private theorem readLine_text {l : Line} (h : l.WellFormed) :
    readLine l.text = some (samples [l]) := by
  cases l with
  | comment text => rfl
  | sample s =>
    obtain ⟨b, rest, ht, hne⟩ := exists_text_cons h
    rw [Line.text, readLine.eq_def, ht]
    simp only [hne, if_false]
    rw [← ht, readSample_text h]
    rfl

/-- The lines written are the lines of the text. -/
theorem lines_exposition {ls : List Line} (h : ∀ l ∈ ls, l.WellFormed) :
    lines (exposition ls) = ls.map Line.text := by
  induction ls with
  | nil => rfl
  | cons l ls ih =>
    obtain ⟨hl, hls⟩ := List.forall_mem_cons.mp h
    have ht : exposition (l :: ls) = l.text ++ newline :: exposition ls := by
      simp [exposition]
    rw [ht, lines_append (newline_not_mem_text hl), ih hls, List.map_cons]

/-- Well-formed lines read back as their samples. -/
theorem read_exposition {ls : List Line} (h : ∀ l ∈ ls, l.WellFormed) :
    read (exposition ls) = some (samples ls) := by
  have hread : (ls.map Line.text).mapM readLine = some (ls.map (fun l ↦ samples [l])) := by
    induction ls with
    | nil => rfl
    | cons l ls ih =>
      have hrest := ih (fun l hl ↦ h l (by simp [hl]))
      simp [readLine_text (h l (by simp)), hrest]
  have hflat : (ls.map (fun l ↦ samples [l])).flatten = samples ls := by
    clear hread h
    induction ls with
    | nil => rfl
    | cons l ls ih => cases l <;> simp_all [samples]
  rw [read, lines_exposition h, hread, Option.map_some, hflat]

end Prometheus
