import MarketData.Exporter.Lookup

/-!
# The snapshot of a JSON tree

The readers of the exporter restated on values instead of positions: what they return
depends only on the value that stands at the position. A text that presents the members
of a value is therefore parsed exactly as the value itself.
-/

namespace MarketData.Exporter

open ByteText Cpp Json

/-! ### Readers of one value -/

/-- `is_null` on a value: it starts with the word. -/
def nullOf (v : Value) : Bool := (ascii "null").isPrefixOf v.text

/-- `bool_at` on a value: only the first letters count. -/
def boolOf (v : Value) : Checked Bool :=
  if (ascii "true").isPrefixOf v.text then .ok true
  else if (ascii "false").isPrefixOf v.text then .ok false
  else .error (.exception (ascii "expected a JSON boolean"))

/-- `number_at` on a value: the finite number that its text spells as a whole. -/
def numberOf (v : Value) : Checked Double :=
  match Ieee.finiteToken? (v.text.takeWhile (fun b ↦ !isDelimiter b)) with
  | some x => .ok x
  | none => .error (.exception (ascii "expected a finite JSON number"))

/-- `string_at` on a value: what a string is decoded to. -/
def stringOf : Value → Checked Bytes
  | .string l => stringAtLoop l.text []
  | _ => .error (.exception (ascii "expected a JSON string"))

/-- `object_at` on a value: it is an object. -/
def objectOf (v : Value) : Checked Value :=
  if v.isObject then .ok v else .error (.exception (ascii "expected a JSON object"))

/-! ### A value in its document -/

section Inside

variable (before after : Bytes) (v : Value)

private theorem skipSpace_value :
    skipSpace (before ++ (v.text ++ after)) before.length = before.length :=
  skipWhile_stop (by rw [drop_before]; exact v.head_not_space after)

/-- Whether a value is null does not depend on its document. -/
theorem isNull_inside (ha : Delimited after) :
    isNull (before ++ (v.text ++ after)) before.length = .ok (nullOf v) := by
  have h := v.take_beq (ascii "null") (by decide) ha
  rw [isNull, skipSpace_value, substr_append]
  exact congrArg Except.ok h

/-- The boolean at a position is that of the value there. -/
theorem boolAt_inside (ha : Delimited after) :
    boolAt (before ++ (v.text ++ after)) before.length = boolOf v := by
  have ht : ((v.text ++ after).take 4 == ascii "true") = (ascii "true").isPrefixOf v.text :=
    v.take_beq (ascii "true") (by decide) ha
  have hf : ((v.text ++ after).take 5 == ascii "false") = (ascii "false").isPrefixOf v.text :=
    v.take_beq (ascii "false") (by decide) ha
  rw [boolAt, skipSpace_value, substr_append, substr_append, boolOf, ← ht, ← hf]
  rfl

private theorem takeWhile_delimited (ha : Delimited after) (text : Bytes) :
    (text ++ after).takeWhile (fun b ↦ !isDelimiter b) =
      text.takeWhile (fun b ↦ !isDelimiter b) := by
  have hn : after.takeWhile (fun b ↦ !isDelimiter b) = [] := by
    cases after with
    | nil => rfl
    | cons b rest => simp [ha b rfl]
  rw [List.takeWhile_append, hn, List.append_nil]
  split
  · next h => exact (List.IsPrefix.eq_of_length (List.takeWhile_prefix _) h).symm
  · rfl

/-- The number at a position is that of the value there. -/
theorem numberAt_inside (ha : Delimited after) :
    numberAt (before ++ (v.text ++ after)) before.length = numberOf v := by
  have hs : scalarEnd (before ++ (v.text ++ after)) before.length - before.length =
      (v.text.takeWhile (fun b ↦ !isDelimiter b)).length := by
    rw [scalarEnd, skipWhile, drop_before, takeWhile_delimited after ha]
    omega
  have ht : (v.text ++ after).take (v.text.takeWhile (fun b ↦ !isDelimiter b)).length =
      v.text.takeWhile (fun b ↦ !isDelimiter b) := by
    rw [← takeWhile_delimited after ha]
    exact (List.prefix_iff_eq_take.mp (List.takeWhile_prefix _)).symm
  simp only [numberAt, skipSpace_value, hs, substr_append, ht, numberOf]
  rfl

end Inside

private theorem stringEndLoop_text (l : Literal) (after : Bytes) (cursor : Nat) :
    stringEndLoop (l.text ++ quote :: after) cursor false = .ok (cursor + l.text.length) := by
  induction l generalizing cursor with
  | nil => rfl
  | cons p l ih =>
    have ht : Literal.text (p :: l) = p.text ++ Literal.text l := rfl
    cases p with
    | plain b hb =>
      rw [ht, Piece.text, List.append_assoc, List.singleton_append, stringEndLoop]
      simp only [Bool.not_false, Bool.true_and, beq_iff_eq, hb.1, if_false,
        beq_false_of_ne hb.2, ih]
      simp
      omega
    | escape letter hl =>
      rw [ht, Piece.text, List.append_assoc]
      simp only [List.cons_append, List.nil_append, stringEndLoop]
      simp [show (backslash == quote) = false from rfl, ih]
      omega
    | unicode a b c d hx =>
      have hne : ∀ x ∈ [a, b, c, d], (x == quote) = false ∧ (x == backslash) = false := by
        intro x hm
        have := hx x hm
        constructor <;> refine beq_false_of_ne (fun he ↦ ?_) <;> subst he <;>
          exact absurd this (by decide)
      rw [ht, Piece.text, List.append_assoc]
      simp only [List.cons_append, List.nil_append, stringEndLoop]
      simp [show (backslash == quote) = false from rfl, hne, ih]
      omega

/-- A string ends at its closing quote. -/
theorem stringEnd_quoted (before after : Bytes) (l : Literal) :
    stringEnd (before ++ (l.quoted ++ after)) before.length =
      .ok (before.length + 1 + l.text.length) := by
  have hd : (before ++ (l.quoted ++ after)).drop before.length =
      quote :: (l.text ++ quote :: after) := by
    rw [drop_before]
    simp [Literal.quoted]
  rw [stringEnd, hd]
  exact stringEndLoop_text l after _

private theorem exists_stringAtLoop (l : Literal) (value : Bytes) :
    ∃ s, stringAtLoop l.text value = .ok s := by
  induction l generalizing value with
  | nil => exact ⟨value, rfl⟩
  | cons p l ih =>
    have ht : Literal.text (p :: l) = p.text ++ Literal.text l := rfl
    rw [ht]
    cases p with
    | plain b hb =>
      obtain ⟨s, hs⟩ := ih (value ++ [b])
      refine ⟨s, ?_⟩
      rw [← hs, Piece.text, List.singleton_append, stringAtLoop.eq_def]
      simp only [hb.2, ne_eq, not_false_eq_true, if_true]
    | escape letter hl =>
      obtain ⟨b, hb⟩ := Option.isSome_iff_exists.mp hl
      obtain ⟨s, hs⟩ := ih (value ++ [b])
      refine ⟨s, ?_⟩
      rw [← hs, Piece.text, List.cons_append, List.singleton_append, stringAtLoop.eq_def]
      simp only [ne_eq, not_true_eq_false, if_false, hb]
    | unicode x y z w hx =>
      obtain ⟨s, hs⟩ := ih (value ++ [63])
      exact ⟨s, hs⟩

/-- Every string is decoded. -/
theorem exists_stringOf_string (l : Literal) : ∃ s, stringOf (.string l) = .ok s :=
  exists_stringAtLoop l []

/-- Only a string is read as one. -/
theorem stringOf_other {v : Value} (h : ∀ l, v ≠ .string l) :
    stringOf v = .error (.exception (ascii "expected a JSON string")) := by
  unfold stringOf
  split
  · next l => exact absurd rfl (h l)
  · rfl

/-- The string at a position is that of the value there. -/
theorem stringAt_inside (before after : Bytes) (v : Value) :
    stringAt (before ++ (v.text ++ after)) before.length = stringOf v := by
  rw [stringAt, skipSpace_value]
  by_cases h : ∃ l, v = .string l
  · obtain ⟨l, rfl⟩ := h
    have hd : (before ++ (l.quoted ++ after)).drop (before.length + 1) =
        l.text ++ quote :: after := by
      rw [← List.drop_drop, drop_before]
      simp [Literal.quoted]
    simp only [Value.text, stringEnd_quoted, hd]
    simp [bind, Except.bind, stringOf]
  · rw [not_exists] at h
    obtain ⟨b, rest, hv, hb⟩ := Value.head_ne_quote h
    rw [stringOf_other h, stringEnd, drop_before, hv, List.cons_append]
    simp only [hb, if_false]
    rfl

-- The brace counter of `matching_container`, offset by the object it is in.
private def braceLoop (depth : Nat) (before rest : Bytes) : Checked Nat :=
  matchingContainerLoop (before ++ rest) rest before.length 0 (depth + 1)

-- A brace opens a level, a bracket does not.
private def pushBrace (b : UInt8) (depth : Nat) : Nat := if b = openBrace then depth + 1 else depth

@[simp] private theorem pushBrace_openBrace (depth : Nat) :
    pushBrace openBrace depth = depth + 1 := if_pos rfl

@[simp] private theorem pushBrace_openBracket (depth : Nat) :
    pushBrace openBracket depth = depth := if_neg (by decide)

private theorem braceLoop_other (depth : Nat) (before after : Bytes) {b : UInt8} (hq : b ≠ quote)
    (ho : b ≠ openBrace) (hc : b ≠ closeBrace) :
    braceLoop depth before (b :: after) = braceLoop depth (before ++ [b]) after := by
  rw [braceLoop, braceLoop, matchingContainerLoop, if_neg hq, if_neg ho, if_neg hc]
  simp

private theorem braceLoop_openBrace (depth : Nat) (before after : Bytes) :
    braceLoop depth before (openBrace :: after) =
      braceLoop (depth + 1) (before ++ [openBrace]) after := by
  rw [braceLoop, braceLoop, matchingContainerLoop, if_neg (by decide), if_pos rfl]
  simp

private theorem braceLoop_closeBrace (depth : Nat) (before after : Bytes) :
    braceLoop (depth + 1) before (closeBrace :: after) =
      braceLoop depth (before ++ [closeBrace]) after := by
  rw [braceLoop, braceLoop, matchingContainerLoop, if_neg (by decide), if_neg (by decide),
    if_pos rfl]
  simp

private theorem matchingContainerLoop_skip (document run rest : Bytes) (cursor depth : Nat) :
    matchingContainerLoop document (run ++ rest) cursor run.length depth =
      matchingContainerLoop document rest (cursor + run.length) 0 depth := by
  induction run generalizing cursor with
  | nil => rfl
  | cons c run ih =>
    rw [List.cons_append, List.length_cons, matchingContainerLoop, ih]
    congr 1
    omega

private theorem braceLoop_string (depth : Nat) (before after : Bytes) (l : Literal) :
    Moves (braceLoop depth) before l.quoted after := by
  have hlast : before.length + 1 + l.text.length - before.length =
      (l.text ++ [quote]).length := by
    simp
    omega
  have hb : before.length + 1 + (l.text ++ [quote]).length = (before ++ l.quoted).length := by
    simp [Literal.quoted]
    omega
  have hstep := matchingContainerLoop.eq_3 (before ++ (l.quoted ++ after)) before.length
    (depth + 1) quote (l.text ++ [quote] ++ after)
  rw [if_pos rfl, stringEnd_quoted] at hstep
  simp only [bind, Except.bind, hlast, matchingContainerLoop_skip, hb] at hstep
  exact hstep.trans (by simp only [braceLoop, List.append_assoc])

private theorem braceLoop_opened (depth : Nat) (before after : Bytes) (b : UInt8)
    (hb : b = openBrace ∨ b = openBracket) :
    braceLoop depth before (b :: after) =
      braceLoop (pushBrace b depth) (before ++ [b]) after := by
  rcases hb with rfl | rfl
  · rw [pushBrace_openBrace, braceLoop_openBrace]
  · rw [pushBrace_openBracket, braceLoop_other] <;> decide

private theorem braceLoop_plain (depth : Nat) (before after : Bytes) (b : UInt8)
    (hb : isPlain b = true) :
    braceLoop depth before (b :: after) = braceLoop depth (before ++ [b]) after := by
  simp only [isPlain, Bool.not_eq_true', Bool.or_eq_false_iff, beq_eq_false_iff_ne] at hb
  obtain ⟨⟨⟨⟨hq, ho⟩, -⟩, hc⟩, -⟩ := hb
  exact braceLoop_other depth before after hq ho hc

private theorem braceLoop_closedBrace (depth : Nat) (before after : Bytes) :
    braceLoop (pushBrace openBrace depth) before (closeBrace :: after) =
      braceLoop depth (before ++ [closeBrace]) after := by
  rw [pushBrace_openBrace, braceLoop_closeBrace]

private theorem braceLoop_closedBracket (depth : Nat) (before after : Bytes) :
    braceLoop (pushBrace openBracket depth) before (closeBracket :: after) =
      braceLoop depth (before ++ [closeBracket]) after := by
  rw [pushBrace_openBracket, braceLoop_other] <;> decide

private def braceWalker : Walker Nat (Checked Nat) where
  loop := braceLoop
  push := pushBrace
  plain := braceLoop_plain
  string := braceLoop_string
  opened := braceLoop_opened
  closedBrace := braceLoop_closedBrace
  closedBracket := braceLoop_closedBracket

private theorem matchingContainer_closed (front behind : Bytes) {inside : Bytes}
    (hi : Balanced inside) :
    matchingContainer (front ++ (openBrace :: (inside ++ [closeBrace]) ++ behind)) front.length =
      .ok (front.length + 1 + inside.length) := by
  have hc : front ++ (openBrace :: (inside ++ [closeBrace]) ++ behind) =
      (front ++ [openBrace]) ++ (inside ++ closeBrace :: behind) := by simp
  have hd : (front ++ (openBrace :: (inside ++ [closeBrace]) ++ behind)).drop front.length =
      openBrace :: (inside ++ closeBrace :: behind) := by
    rw [drop_before]
    simp
  have hl : (front ++ [openBrace]).length = front.length + 1 := by simp
  rw [matchingContainer, hd]
  simp only [if_true, ← hl]
  rw [hc]
  have h := braceWalker.moves_balanced hi 0 (front ++ [openBrace]) (closeBrace :: behind)
  exact h.trans (by
    simp [braceWalker, braceLoop, matchingContainerLoop, show closeBrace ≠ quote by decide,
      show closeBrace ≠ openBrace by decide]
    omega)

private theorem objectAt_closed (before after : Bytes) {inside : Bytes} (hi : Balanced inside) :
    objectAt (before ++ (openBrace :: (inside ++ [closeBrace]) ++ after)) before.length =
      .ok (openBrace :: (inside ++ [closeBrace])) := by
  have hs : skipSpace (before ++ (openBrace :: (inside ++ [closeBrace]) ++ after)) before.length =
      before.length := skipWhile_stop (by rw [drop_before]; simp; decide)
  have hn : before.length + 1 + inside.length - before.length + 1 =
      (openBrace :: (inside ++ [closeBrace])).length := by
    simp
    omega
  rw [objectAt, hs, matchingContainer_closed before after hi]
  simp only [bind, Except.bind, hn, substr_append, List.take_left]

/-- The object at a position is the value there, when it is an object. -/
theorem objectAt_inside (before after : Bytes) (v : Value) :
    objectAt (before ++ (v.text ++ after)) before.length = Value.text <$> objectOf v := by
  by_cases h : v.isObject = true
  · rw [objectOf, if_pos h]
    cases v with
    | emptyObject w => exact objectAt_closed before after w.balanced
    | object members => exact objectAt_closed before after members.balanced
    | scalar t => cases h
    | string l => cases h
    | emptyArray w => cases h
    | array items => cases h
  · rw [objectOf, if_neg h]
    obtain ⟨b, rest, hv, hbrace⟩ := v.head_openBrace
    have hb : b ≠ openBrace := fun hopen ↦ h (hbrace.mp hopen)
    rw [objectAt, skipSpace_value, matchingContainer, drop_before, hv, List.cons_append]
    simp only [hb, if_false]
    rfl

/-! ### Fields of an object -/

/-- `required_value` on a value: the member that the search leads to. -/
def required (v : Value) (key : Bytes) : Checked Value :=
  match under v key with
  | some w => .ok w
  | none => .error (missingField key)

/-- `string_value` on a value: the string under a key. -/
def stringIn (v : Value) (key : Bytes) : Checked Bytes := required v key >>= stringOf

/-- `number_value` on a value: the number under a key. -/
def numberIn (v : Value) (key : Bytes) : Checked Double := required v key >>= numberOf

/-- `bool_value` on a value: the truth value under a key. -/
def boolIn (v : Value) (key : Bytes) : Checked Bool := required v key >>= boolOf

/-- `object_value` on a value: the object under a key. -/
def objectIn (v : Value) (key : Bytes) : Checked Value := required v key >>= objectOf

/-- `unsigned_value` on a value: the unsigned integer under a key. -/
def unsignedIn (v : Value) (key : Bytes) : Checked UInt64 := numberIn v key >>= unsignedOf key

/-- `parse_distribution` on a value: the statistics under their keys. -/
def distributionOf (v : Value) : Checked Distribution := do
  return {
    samples := ← unsignedIn v (ascii "samples")
    mean := ← numberIn v (ascii "mean")
    minimum := ← numberIn v (ascii "min")
    p50 := ← numberIn v (ascii "p50")
    p90 := ← numberIn v (ascii "p90")
    p95 := ← numberIn v (ascii "p95")
    p99 := ← numberIn v (ascii "p99")
    maximum := ← numberIn v (ascii "max")
    stddev := ← numberIn v (ascii "stddev") }

/-- The device distribution of a latency value. -/
def deviceComputeOf (latency : Value) : Checked (Option Distribution) := do
  let w ← required latency (ascii "device_compute")
  if nullOf w then return none
  else return some (← distributionOf (← objectOf w))

/-- The validation verdict and element count of a value. -/
def validationOf (v : Value) : Checked (Option Bool × Option UInt64) := do
  let w ← required v (ascii "validation")
  if nullOf w then return (none, none)
  else
    let validation ← objectOf w
    let passed ← boolIn validation (ascii "passed")
    match under validation (ascii "checked_elements") with
    | none => return (some passed, none)
    | some _ => return (some passed, some (← unsignedIn validation (ascii "checked_elements")))

/-- A field that may be absent or null. -/
def optionalIn {α : Type} (v : Value) (key : Bytes) (read : Value → Checked α) :
    Checked (Option α) :=
  match under v key with
  | none => .ok none
  | some w => if nullOf w then .ok none else some <$> read w

/-- `parse_snapshot` on a value: the fields in the order of the source. -/
def snapshotOf (v : Value) : Checked Snapshot := do
  let schemaVersion ← unsignedIn v (ascii "schema_version")
  throwUnless (schemaVersion = 2) (ascii "unsupported metrics schema version")
  let build ← objectIn v (ascii "build")
  let environment ← objectIn v (ascii "environment")
  let latency ← objectIn v (ascii "latency_us")
  let endToEnd ← objectIn latency (ascii "end_to_end")
  let deviceCompute ← deviceComputeOf latency
  let validation ← validationOf v
  let slo ← objectIn v (ascii "slo")
  let sloPassed ← optionalIn slo (ascii "passed") boolOf
  return {
    version := ← stringIn build (ascii "version")
    revision := ← stringIn build (ascii "revision")
    model := ← stringIn v (ascii "model")
    backend := ← stringIn v (ascii "backend")
    backendVersion :=
      (← optionalIn environment (ascii "backend_version") stringOf).getD (ascii "unknown")
    device := ← stringIn environment (ascii "device")
    samples := ← unsignedIn v (ascii "samples")
    inputSize := ← unsignedIn v (ascii "input_size")
    batchSize := ← unsignedIn v (ascii "batch_size")
    fallbackUsed := ← boolIn v (ascii "fallback_used")
    cudaGraph := ← boolIn v (ascii "cuda_graph")
    throughputIps := ← numberIn v (ascii "throughput_ips")
    throughputSamplesPerSecond := ← numberIn v (ascii "throughput_samples_per_second")
    endToEnd := ← distributionOf endToEnd
    deviceCompute := deviceCompute
    validationPassed := validation.1
    validationElements := validation.2
    sloScope := ← stringIn slo (ascii "scope")
    sloTargetUs := ← optionalIn slo (ascii "target_us") numberOf
    sloObservedP99Us := ← optionalIn slo (ascii "observed_p99_us") numberOf
    sloPassed := sloPassed }

/-! ### Fields of a text -/

section Fields

variable {document : Bytes} {v : Value} {key : Bytes}

private theorem found (h : Presents document (under v)) (hk : IsKey key) :
    (under v key = none ∧ findValue document key = none) ∨
      ∃ before after w, under v key = some w ∧ document = before ++ (w.text ++ after) ∧
        Follows after ∧ findValue document key = some before.length := by
  have hp := h key hk
  cases hu : under v key with
  | none =>
    rw [hu] at hp
    exact .inl ⟨rfl, hp⟩
  | some w =>
    rw [hu] at hp
    obtain ⟨before, after, hd, ha, hf⟩ := hp
    exact .inr ⟨before, after, w, rfl, hd, ha, hf⟩

private theorem required_bind {α : Type} (h : Presents document (under v)) (hk : IsKey key)
    {f : Nat → Checked α} {g : Value → Checked α}
    (hfg : ∀ before after w, document = before ++ (w.text ++ after) → Follows after →
      f before.length = g w) :
    (requiredValue document key >>= f) = required v key >>= g := by
  unfold requiredValue required
  rcases found h hk with ⟨hu, hf⟩ | ⟨before, after, w, hu, hd, ha, hf⟩
  · rw [hu, hf]
    rfl
  · rw [hu, hf]
    exact hfg before after w hd ha

private theorem stringValue_eq (h : Presents document (under v)) (hk : IsKey key) :
    stringValue document key = stringIn v key :=
  required_bind h hk (fun before after w hd _ ↦ by rw [hd, stringAt_inside])

private theorem numberValue_eq (h : Presents document (under v)) (hk : IsKey key) :
    numberValue document key = numberIn v key :=
  required_bind h hk (fun before after w hd ha ↦ by rw [hd, numberAt_inside _ _ _ ha.delimited])

private theorem boolValue_eq (h : Presents document (under v)) (hk : IsKey key) :
    boolValue document key = boolIn v key :=
  required_bind h hk (fun before after w hd ha ↦ by rw [hd, boolAt_inside _ _ _ ha.delimited])

private theorem objectValue_eq (h : Presents document (under v)) (hk : IsKey key) :
    objectValue document key = Value.text <$> objectIn v key := by
  rw [objectIn, map_bind]
  exact required_bind h hk (fun before after w hd _ ↦ by rw [hd, objectAt_inside])

private theorem unsignedValue_eq (h : Presents document (under v)) (hk : IsKey key) :
    unsignedValue document key = unsignedIn v key := by
  rw [unsignedValue, numberValue_eq h hk, unsignedIn]

private theorem parseDistribution_eq (h : Presents document (under v)) :
    parseDistribution document = distributionOf v := by
  simp (disch := decide) only [parseDistribution, distributionOf, unsignedValue_eq h,
    numberValue_eq h]

private theorem parseDeviceCompute_eq (h : Presents document (under v)) :
    parseDeviceCompute document = deviceComputeOf v := by
  apply required_bind h (by decide)
  intro before after w hd ha
  rw [hd, isNull_inside _ _ _ ha.delimited, objectAt_inside]
  simp only [bind_map_left, parseDistribution_eq (presents_value _)]
  rfl

private theorem parseValidation_eq (h : Presents document (under v)) :
    parseValidation document = validationOf v := by
  apply required_bind h (by decide)
  intro before after w hd ha
  rw [hd, isNull_inside _ _ _ ha.delimited, objectAt_inside]
  cases nullOf w with
  | true => rfl
  | false =>
    cases objectOf w with
    | error e => rfl
    | ok validation =>
      have hv := presents_value validation
      have hpassed := boolValue_eq hv (show IsKey (ascii "passed") by decide)
      have hkey : IsKey (ascii "checked_elements") := by decide
      simp only [Functor.map, Except.map, bind, Except.bind, pure, Except.pure, Bool.false_eq_true,
        if_false, hpassed, unsignedValue_eq hv hkey]
      cases boolIn validation (ascii "passed") with
      | error e => rfl
      | ok passed =>
        rcases found hv hkey with ⟨hu, hf⟩ | ⟨_, _, _, hu, -, -, hf⟩ <;> simp only [hu, hf]

private theorem optional_eq {α : Type} (h : Presents document (under v)) (hk : IsKey key)
    {f : Nat → Checked α} {read : Value → Checked α}
    (hfr : ∀ before after w, document = before ++ (w.text ++ after) → Follows after →
      f before.length = read w) :
    (match findValue document key with
      | none => .ok none
      | some position => do
        if ← isNull document position then return none
        else return some (← f position)) = optionalIn v key read := by
  unfold optionalIn
  rcases found h hk with ⟨hu, hf⟩ | ⟨before, after, w, hu, hd, ha, hf⟩
  · rw [hu, hf]
  · have hn : isNull document before.length = .ok (nullOf w) := by
      rw [hd, isNull_inside _ _ _ ha.delimited]
    rw [hu, hf]
    simp only [hn, hfr before after w hd ha]
    cases nullOf w
    · cases read w <;> rfl
    · rfl

private theorem optionalStringValue_eq (h : Presents document (under v)) (hk : IsKey key) :
    optionalStringValue document key = optionalIn v key stringOf :=
  optional_eq h hk (fun before after w hd _ ↦ by rw [hd, stringAt_inside])

private theorem optionalNumberValue_eq (h : Presents document (under v)) (hk : IsKey key) :
    optionalNumberValue document key = optionalIn v key numberOf :=
  optional_eq h hk (fun before after w hd ha ↦ by rw [hd, numberAt_inside _ _ _ ha.delimited])

private theorem parseSloPassed_eq (h : Presents document (under v)) :
    parseSloPassed document = optionalIn v (ascii "passed") boolOf :=
  optional_eq h (by decide)
    (fun before after w hd ha ↦ by rw [hd, boolAt_inside _ _ _ ha.delimited])

/-- A text is parsed as the value whose members it presents. -/
theorem parseSnapshot_eq (h : Presents document (under v)) :
    parseSnapshot document = snapshotOf v := by
  simp (disch := decide) only [parseSnapshot, snapshotOf, unsignedValue_eq h, objectValue_eq h,
    bind_map_left, objectValue_eq (presents_value _), parseDeviceCompute_eq (presents_value _),
    parseValidation_eq h, parseSloPassed_eq (presents_value _), stringValue_eq h,
    stringValue_eq (presents_value _), optionalStringValue_eq (presents_value _), boolValue_eq h,
    numberValue_eq h, parseDistribution_eq (presents_value _),
    optionalNumberValue_eq (presents_value _)]

end Fields

end MarketData.Exporter
