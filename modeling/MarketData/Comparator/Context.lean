import MarketData.Comparator.Gate
import MarketData.Comparator.Metrics
import MarketData.Engine.WellFormed
import MarketData.Json.Numbers
import MarketData.Json.Strings

/-!
# What the comparability guard compares

The guard compares what the reader made of the context: strings in which a unicode escape
stands for the characters that write it, and sizes rounded to the nearest `double`. It is
exact for two documents unless one of these two readings changes the answer.
-/

namespace MarketData.Comparator

open ByteText Cpp Json

/-! ### The context of a document -/

/-- The device member of a document. -/
def deviceMember (v : Value) : Option Value :=
  (member v (ascii "environment")).bind (fun environment ↦ member environment (ascii "device"))

/-- Two members are strings, related by what they denote or how they are read. -/
def AlikeStrings (read : Literal → Bytes) (a b : Option Value) : Prop :=
  ∃ l l', a = some (.string l) ∧ b = some (.string l') ∧ read l = read l'

/-- Two members are numbers with related values. -/
def AlikeNumbers (related : ℚ → ℚ → Prop) (a b : Option Value) : Prop :=
  ∃ (t t' : Token) (x y : ℚ), a = some (.scalar t) ∧ b = some (.scalar t') ∧
    Denotes t.val x ∧ Denotes t'.val y ∧ related x y

/-- The text of a boolean. -/
def booleanText (flag : Bool) : Bytes := if flag then ascii "true" else ascii "false"

/-- Two members are the same boolean. -/
def SameBooleans (a b : Option Value) : Prop :=
  ∃ (flag : Bool) (t t' : Token), a = some (.scalar t) ∧ b = some (.scalar t') ∧
    t.val = booleanText flag ∧ t'.val = booleanText flag

/-- What a literal denotes when its unicode escapes are left as they are written. -/
def valueAsWritten (l : Literal) : Bytes := l.asWritten.value

/-- The context members of two documents are alike. -/
structure AlikeContexts (read : Literal → Bytes) (related : ℚ → ℚ → Prop) (v w : Value) :
    Prop where
  backend : AlikeStrings read (member v (ascii "backend")) (member w (ascii "backend"))
  device : AlikeStrings read (deviceMember v) (deviceMember w)
  inputSize : AlikeNumbers related (member v (ascii "input_size")) (member w (ascii "input_size"))
  batchSize : AlikeNumbers related (member v (ascii "batch_size")) (member w (ascii "batch_size"))
  cudaGraph : SameBooleans (member v (ascii "cuda_graph")) (member w (ascii "cuda_graph"))

/-- The documents have the same context: their strings denote the same string, their sizes the
same integer, and the graph members are the same boolean. -/
def SameContext : Value → Value → Prop :=
  AlikeContexts Literal.value (fun x y ↦ x = y ∧ ∃ n : ℤ, x = n)

/-- The contexts are alike once unicode escapes are left as they are written and the sizes are
rounded to the nearest `double`. -/
def AlikeAsRead : Value → Value → Prop :=
  AlikeContexts valueAsWritten (fun x y ↦ nearest x = nearest y)

/-- One context, of which a string is spelled with unicode escapes in one document and in another
way in the other. -/
def Respelled (v w : Value) : Prop :=
  SameContext v w ∧
    ¬ (AlikeStrings valueAsWritten (member v (ascii "backend")) (member w (ascii "backend")) ∧
      AlikeStrings valueAsWritten (deviceMember v) (deviceMember w))

/-- Two contexts whose difference is lost in reading. -/
def Conflated (v w : Value) : Prop := ¬ SameContext v w ∧ AlikeAsRead v w

/-! ### Readers of strict values -/

/-- The reader leaves a unicode escape as it is written. -/
theorem decoded_eq (l : Literal) : decoded l = valueAsWritten l := by
  induction l with
  | nil => rfl
  | cons p l ih =>
    have hd : decoded (p :: l) = decodedPiece p ++ decoded l := rfl
    have hw : valueAsWritten (p :: l) = Literal.value (p.asWritten ++ Literal.asWritten l) := rfl
    rw [hd, hw, ih]
    cases p with
    | plain b hb => rfl
    | escape letter hs => rfl
    | unicode a b c d hx => rfl

private theorem stringOf_ok {w : Value} {s : Bytes} (h : stringOf w = .ok s) :
    ∃ l, w = .string l ∧ decoded l = s := by
  cases w with
  | string l => exact ⟨l, rfl, Except.ok.inj h⟩
  | scalar t => cases h
  | emptyArray s => cases h
  | array items => cases h
  | emptyObject s => cases h
  | object members => cases h

private theorem scalar_or_other (w : Value) :
    (∃ t, w = .scalar t) ∨ ∃ b rest, w.text = b :: rest ∧ b ∈ [quote, openBracket, openBrace] := by
  cases w with
  | scalar t => exact .inl ⟨t, rfl⟩
  | string l => exact .inr ⟨quote, _, rfl, by decide⟩
  | emptyArray s => exact .inr ⟨openBracket, _, rfl, by decide⟩
  | array items => exact .inr ⟨openBracket, _, rfl, by decide⟩
  | emptyObject s => exact .inr ⟨openBrace, _, rfl, by decide⟩
  | object members => exact .inr ⟨openBrace, _, rfl, by decide⟩

private theorem numberOf_ok {w : Value} {y : Double} (hs : w.Strict) (h : numberOf w = .ok y) :
    ∃ t x, w = .scalar t ∧ Denotes t.val x ∧ y.toRat = nearest x := by
  unfold numberOf at h
  cases hf : Ieee.finiteToken? w.text with
  | none =>
    rw [hf] at h
    cases h
  | some z =>
    rw [hf] at h
    obtain rfl := Except.ok.inj h
    rcases scalar_or_other w with ⟨t, rfl⟩ | ⟨b, rest, hb, hmem⟩
    · have hf : Ieee.finiteToken? t.val = some z := hf
      rcases hs with ht | ht | ht | ht
      · have hnull : Ieee.finiteToken? (ascii "null") = none := by decide +kernel
        rw [ht, hnull] at hf
        cases hf
      · rw [ht, show ascii "true" = 116 :: ascii "rue" from rfl,
          Ieee.finiteToken_other (by decide)] at hf
        cases hf
      · rw [ht, show ascii "false" = 102 :: ascii "alse" from rfl,
          Ieee.finiteToken_other (by decide)] at hf
        cases hf
      · obtain ⟨x, hx⟩ := exists_denotes ht
        exact ⟨t, x, rfl, hx, toRat_finiteToken hx hf⟩
    · have hstart : ∀ b ∈ [quote, openBracket, openBrace], Ieee.startsNumber b = false := by decide
      rw [hb, Ieee.finiteToken_other (hstart b hmem)] at hf
      cases hf

private theorem boolOf_ok {w : Value} {flag : Bool} (hs : w.Strict) (h : boolOf w = .ok flag) :
    ∃ t, w = .scalar t ∧ t.val = booleanText flag := by
  have hother : ∀ {b : UInt8} {rest : Bytes}, b ≠ 116 → b ≠ 102 → w.text = b :: rest → False := by
    intro b rest ht hf hw
    have htrue : (ascii "true").isPrefixOf (b :: rest) = false := by
      rw [show ascii "true" = 116 :: ascii "rue" from rfl, List.isPrefixOf,
        beq_false_of_ne ht.symm, Bool.false_and]
    have hfalse : (ascii "false").isPrefixOf (b :: rest) = false := by
      rw [show ascii "false" = 102 :: ascii "alse" from rfl, List.isPrefixOf,
        beq_false_of_ne hf.symm, Bool.false_and]
    rw [boolOf, hw, htrue, hfalse] at h
    cases h
  rcases scalar_or_other w with ⟨t, rfl⟩ | ⟨b, rest, hb, hmem⟩
  · refine ⟨t, rfl, ?_⟩
    rcases hs with ht | ht | ht | ht
    · have htext : (Value.scalar t).text = 110 :: ascii "ull" := ht
      exact (hother (by decide) (by decide) htext).elim
    · have hb : boolOf (.scalar t) = .ok true := by
        rw [boolOf, Value.text, ht]
        rfl
      rw [ht, ← Except.ok.inj (hb.symm.trans h)]
      rfl
    · have hb : boolOf (.scalar t) = .ok false := by
        rw [boolOf, Value.text, ht]
        rfl
      rw [ht, ← Except.ok.inj (hb.symm.trans h)]
      rfl
    · obtain ⟨b, rest, hb, -⟩ := Token.text_head t
      have hd := ht.bytes b (by rw [hb]; exact List.mem_cons_self)
      refine (hother (b := b) ?_ ?_ hb).elim
      · rintro rfl
        exact absurd hd (by decide)
      · rintro rfl
        exact absurd hd (by decide)
  · refine (hother (b := b) ?_ ?_ hb).elim
    · rintro rfl
      exact absurd hmem (by decide)
    · rintro rfl
      exact absurd hmem (by decide)

/-! ### What the reader takes from a document -/

/-- The metrics hold the context of a document as it is read. -/
structure ReadsContext (v : Value) (m : RunMetrics) : Prop where
  backend : ∃ l, member v (ascii "backend") = some (.string l) ∧ valueAsWritten l = m.backend
  device : ∃ l, deviceMember v = some (.string l) ∧ valueAsWritten l = m.device
  inputSize : ∃ t x, member v (ascii "input_size") = some (.scalar t) ∧ Denotes t.val x ∧
    nearest x = m.inputSize.toNat
  batchSize : ∃ t x, member v (ascii "batch_size") = some (.scalar t) ∧ Denotes t.val x ∧
    nearest x = m.batchSize.toNat
  cudaGraph : ∃ t, member v (ascii "cuda_graph") = some (.scalar t) ∧
    t.val = booleanText m.cudaGraph

private theorem requiredOf_ok {v w : Value} {key : Bytes} (h : requiredOf v key = .ok w) :
    member v key = some w := by
  unfold requiredOf at h
  cases hm : member v key with
  | none =>
    rw [hm] at h
    cases h
  | some x =>
    rw [hm] at h
    rw [Except.ok.inj h]

private theorem string_ok {v w : Value} {key s : Bytes} (hw : requiredOf v key = .ok w)
    (hs : stringOf w = .ok s) :
    ∃ l, member v key = some (.string l) ∧ valueAsWritten l = s := by
  obtain ⟨l, rfl, hl⟩ := stringOf_ok hs
  exact ⟨l, requiredOf_ok hw, (decoded_eq l).symm.trans hl⟩

private theorem unsigned_ok {v w : Value} {key field : Bytes} {y : Double} {n : UInt64}
    (hv : v.Strict) (hw : requiredOf v key = .ok w) (hy : numberOf w = .ok y)
    (hn : unsignedOf field y = .ok n) :
    ∃ t x, member v key = some (.scalar t) ∧ Denotes t.val x ∧ nearest x = n.toNat := by
  have hm := requiredOf_ok hw
  obtain ⟨t, x, rfl, hx, hnear⟩ := numberOf_ok (hv.directNamed hm) hy
  exact ⟨t, x, hm, hx, by rw [unsignedOf_eq_ok hn, hnear]⟩

-- The members and readers that the metrics of a value come from.
private structure Parsed (v : Value) (scope metric : Bytes) (m : RunMetrics) : Prop where
  statistic : ∃ latency scopeValue w, requiredOf v (ascii "latency_us") = .ok latency ∧
    requiredOf latency (scopeKey scope) = .ok scopeValue ∧
    requiredOf scopeValue metric = .ok w ∧ numberOf w = .ok m.latencyUs
  backend : ∃ w, requiredOf v (ascii "backend") = .ok w ∧ stringOf w = .ok m.backend
  device : ∃ environment w, requiredOf v (ascii "environment") = .ok environment ∧
    requiredOf environment (ascii "device") = .ok w ∧ stringOf w = .ok m.device
  inputSize : ∃ w y, requiredOf v (ascii "input_size") = .ok w ∧ numberOf w = .ok y ∧
    unsignedOf (ascii "input_size") y = .ok m.inputSize
  batchSize : ∃ w y, requiredOf v (ascii "batch_size") = .ok w ∧ numberOf w = .ok y ∧
    unsignedOf (ascii "batch_size") y = .ok m.batchSize
  cudaGraph : ∃ w, requiredOf v (ascii "cuda_graph") = .ok w ∧ boolOf w = .ok m.cudaGraph

private theorem objectOf_ok {v w : Value} (h : objectOf v = .ok w) : v = w := by
  unfold objectOf at h
  split at h
  · exact Except.ok.inj h
  · cases h

private theorem parsed_of_parseMetrics {d : Document} {scope metric : Bytes} {m : RunMetrics}
    (h : parseMetrics d.text scope metric = .ok m) : Parsed d.root scope metric m := by
  obtain ⟨root, hroot, -⟩ := bind_eq_ok.mp h
  rw [parseMetrics_document d (isObject_of_rootObject hroot)] at h
  obtain ⟨v, hv, h⟩ := bind_eq_ok.mp h
  obtain rfl := objectOf_ok hv
  obtain ⟨l, hl, h⟩ := bind_eq_ok.mp h
  obtain ⟨latency, hlatency, h⟩ := bind_eq_ok.mp h
  obtain rfl := objectOf_ok hlatency
  obtain ⟨s, hs, h⟩ := bind_eq_ok.mp h
  obtain ⟨_, -, h⟩ := bind_eq_ok.mp h
  obtain ⟨distribution, hdistribution, h⟩ := bind_eq_ok.mp h
  obtain rfl := objectOf_ok hdistribution
  obtain ⟨e, he, h⟩ := bind_eq_ok.mp h
  obtain ⟨environment, henvironment, h⟩ := bind_eq_ok.mp h
  obtain rfl := objectOf_ok henvironment
  obtain ⟨statistic, hstatistic, h⟩ := bind_eq_ok.mp h
  obtain ⟨_, hy, h⟩ := bind_eq_ok.mp h
  obtain ⟨backend, hbackend, h⟩ := bind_eq_ok.mp h
  obtain ⟨_, hb, h⟩ := bind_eq_ok.mp h
  obtain ⟨device, hdevice, h⟩ := bind_eq_ok.mp h
  obtain ⟨_, hd, h⟩ := bind_eq_ok.mp h
  obtain ⟨input, hinput, h⟩ := bind_eq_ok.mp h
  obtain ⟨_, hiy, h⟩ := bind_eq_ok.mp h
  obtain ⟨_, hi, h⟩ := bind_eq_ok.mp h
  obtain ⟨batch, hbatch, h⟩ := bind_eq_ok.mp h
  obtain ⟨_, hby, h⟩ := bind_eq_ok.mp h
  obtain ⟨_, hbn, h⟩ := bind_eq_ok.mp h
  obtain ⟨graph, hgraph, h⟩ := bind_eq_ok.mp h
  obtain ⟨_, hg, h⟩ := bind_eq_ok.mp h
  obtain rfl := Except.ok.inj h
  exact {
    statistic := ⟨l, s, statistic, hl, hs, hstatistic, hy⟩
    backend := ⟨backend, hbackend, hb⟩
    device := ⟨e, device, he, hdevice, hd⟩
    inputSize := ⟨input, _, hinput, hiy, hi⟩
    batchSize := ⟨batch, _, hbatch, hby, hbn⟩
    cudaGraph := ⟨graph, hgraph, hg⟩ }

/-- An accepted document is read by its context members. -/
theorem readsContext {d : Document} {scope metric : Bytes} {m : RunMetrics} (hs : d.root.Strict)
    (h : parseMetrics d.text scope metric = .ok m) : ReadsContext d.root m := by
  have hp := parsed_of_parseMetrics h
  obtain ⟨_, hbackend, hb⟩ := hp.backend
  obtain ⟨environment, _, he, hdevice, hd⟩ := hp.device
  obtain ⟨_, _, hinput, hiy, hi⟩ := hp.inputSize
  obtain ⟨_, _, hbatch, hby, hbn⟩ := hp.batchSize
  obtain ⟨graph, hgraph, hg⟩ := hp.cudaGraph
  refine ⟨string_ok hbackend hb, ?_, unsigned_ok hs hinput hiy hi, unsigned_ok hs hbatch hby hbn,
    ?_⟩
  · rw [deviceMember, requiredOf_ok he]
    exact string_ok hdevice hd
  · have hm := requiredOf_ok hgraph
    obtain ⟨t, rfl, ht⟩ := boolOf_ok (hs.directNamed hm) hg
    exact ⟨t, hm, ht⟩

/-- An accepted document holds the statistic. -/
theorem readsStatistic {d : Document} {scope metric : Bytes} {m : RunMetrics} (hs : d.root.Strict)
    (h : parseMetrics d.text scope metric = .ok m) :
    ∃ latency distribution t x, member d.root (ascii "latency_us") = some latency ∧
      member latency (scopeKey scope) = some distribution ∧
      member distribution metric = some (.scalar t) ∧ Denotes t.val x ∧
      m.latencyUs.toRat = nearest x := by
  obtain ⟨latency, distribution, w, hlatency, hscope, hstatistic, hy⟩ :=
    (parsed_of_parseMetrics h).statistic
  have hlatency := requiredOf_ok hlatency
  have hscope := requiredOf_ok hscope
  have hstatistic := requiredOf_ok hstatistic
  have hstrict := ((hs.directNamed hlatency).directNamed hscope).directNamed hstatistic
  obtain ⟨t, x, rfl, hx, hnear⟩ := numberOf_ok hstrict hy
  exact ⟨latency, distribution, t, x, hlatency, hscope, hstatistic, hx, hnear⟩

/-! ### The guard -/

private theorem alikeStrings_iff (read : Literal → Bytes) {a b : Option Value} {l l' : Literal}
    (ha : a = some (.string l)) (hb : b = some (.string l')) :
    AlikeStrings read a b ↔ read l = read l' := by
  constructor
  · rintro ⟨k, k', hk, hk', h⟩
    rw [ha, Option.some.injEq, Value.string.injEq] at hk
    rw [hb, Option.some.injEq, Value.string.injEq] at hk'
    rwa [hk, hk']
  · intro h
    exact ⟨l, l', ha, hb, h⟩

private theorem alikeNumbers_iff (related : ℚ → ℚ → Prop) {a b : Option Value} {t t' : Token}
    {x y : ℚ} (ha : a = some (.scalar t)) (hb : b = some (.scalar t')) (hx : Denotes t.val x)
    (hy : Denotes t'.val y) : AlikeNumbers related a b ↔ related x y := by
  constructor
  · rintro ⟨u, u', z, z', hu, hu', hz, hz', h⟩
    rw [ha, Option.some.injEq, Value.scalar.injEq] at hu
    rw [hb, Option.some.injEq, Value.scalar.injEq] at hu'
    subst hu hu'
    rwa [hx.unique hz, hy.unique hz']
  · intro h
    exact ⟨t, t', x, y, ha, hb, hx, hy, h⟩

private theorem booleanText_inj {a b : Bool} (h : booleanText a = booleanText b) : a = b := by
  cases a <;> cases b <;> first | rfl | exact absurd h (by decide)

private theorem sameBooleans_iff {a b : Option Value} {t t' : Token} {x y : Bool}
    (ha : a = some (.scalar t)) (hb : b = some (.scalar t')) (hx : t.val = booleanText x)
    (hy : t'.val = booleanText y) : SameBooleans a b ↔ x = y := by
  constructor
  · rintro ⟨flag, u, u', hu, hu', hz, hz'⟩
    rw [ha, Option.some.injEq, Value.scalar.injEq] at hu
    rw [hb, Option.some.injEq, Value.scalar.injEq] at hu'
    subst hu hu'
    exact (booleanText_inj (hx.symm.trans hz)).trans (booleanText_inj (hy.symm.trans hz')).symm
  · rintro rfl
    exact ⟨x, t, t', ha, hb, hx, hy⟩

private theorem toNat_inj {m n : UInt64} : ((m.toNat : ℚ) = n.toNat) ↔ m = n := by
  rw [Nat.cast_inj, UInt64.toNat_inj]

section

variable {v w : Value} {a b : RunMetrics}

/-- The guard compares the contexts as they are read. -/
theorem ReadsContext.differences_eq_nil (hv : ReadsContext v a) (hw : ReadsContext w b) :
    contextDifferences a b = [] ↔ AlikeAsRead v w := by
  obtain ⟨l, hl, hlv⟩ := hv.backend
  obtain ⟨l', hl', hlv'⟩ := hw.backend
  obtain ⟨k, hk, hkv⟩ := hv.device
  obtain ⟨k', hk', hkv'⟩ := hw.device
  obtain ⟨i, x, hi, hx, hxn⟩ := hv.inputSize
  obtain ⟨i', x', hi', hx', hxn'⟩ := hw.inputSize
  obtain ⟨j, y, hj, hy, hyn⟩ := hv.batchSize
  obtain ⟨j', y', hj', hy', hyn'⟩ := hw.batchSize
  obtain ⟨g, hg, hgv⟩ := hv.cudaGraph
  obtain ⟨g', hg', hgv'⟩ := hw.cudaGraph
  have hinput : (nearest x = nearest x') ↔ a.inputSize = b.inputSize := by
    rw [hxn, hxn', toNat_inj]
  have hbatch : (nearest y = nearest y') ↔ a.batchSize = b.batchSize := by
    rw [hyn, hyn', toNat_inj]
  rw [contextDifferences_eq_nil, ← hlv, ← hlv', ← hkv, ← hkv', ← hinput, ← hbatch,
    ← sameBooleans_iff hg hg' hgv hgv', ← alikeStrings_iff _ hl hl', ← alikeStrings_iff _ hk hk',
    ← alikeNumbers_iff (fun x y ↦ nearest x = nearest y) hi hi' hx hx',
    ← alikeNumbers_iff (fun x y ↦ nearest x = nearest y) hj hj' hy hy']
  exact ⟨fun ⟨h1, h2, h3, h4, h5⟩ ↦ ⟨h1, h2, h3, h4, h5⟩,
    fun h ↦ ⟨h.backend, h.device, h.inputSize, h.batchSize, h.cudaGraph⟩⟩

private theorem AlikeNumbers.mono {p q : ℚ → ℚ → Prop} {a b : Option Value}
    (h : AlikeNumbers p a b) (hpq : ∀ x y, p x y → q x y) : AlikeNumbers q a b := by
  obtain ⟨t, t', x, y, ht, ht', hx, hy, hp⟩ := h
  exact ⟨t, t', x, y, ht, ht', hx, hy, hpq x y hp⟩

/-- A context spelled alike is read alike. -/
theorem SameContext.alikeAsRead (h : SameContext v w)
    (hb : AlikeStrings valueAsWritten (member v (ascii "backend")) (member w (ascii "backend")))
    (hd : AlikeStrings valueAsWritten (deviceMember v) (deviceMember w)) : AlikeAsRead v w where
  backend := hb
  device := hd
  inputSize := h.inputSize.mono (fun x y hxy ↦ by rw [hxy.1])
  batchSize := h.batchSize.mono (fun x y hxy ↦ by rw [hxy.1])
  cudaGraph := h.cudaGraph

end

/-- The guard is exact for two accepted documents unless they spell one context with and without
unicode escapes, or differ in their context in a way that is lost in reading. -/
theorem guard_exact {d d' : Document} {scope metric : Bytes} {a b : RunMetrics}
    (hd : d.root.Strict) (hd' : d'.root.Strict) (ha : parseMetrics d.text scope metric = .ok a)
    (hb : parseMetrics d'.text scope metric = .ok b) :
    (contextDifferences a b = [] ↔ SameContext d.root d'.root) ↔
      ¬ Respelled d.root d'.root ∧ ¬ Conflated d.root d'.root := by
  rw [(readsContext hd ha).differences_eq_nil (readsContext hd' hb)]
  constructor
  · intro h
    constructor
    · rintro ⟨hsame, hstrings⟩
      have hread := h.mpr hsame
      exact hstrings ⟨hread.backend, hread.device⟩
    · rintro ⟨hother, hread⟩
      exact hother (h.mp hread)
  · rintro ⟨hrespelled, hconflated⟩
    constructor
    · intro hread
      by_contra hother
      exact hconflated ⟨hother, hread⟩
    · intro hsame
      by_contra hread
      exact hrespelled ⟨hsame, fun hstrings ↦ hread (hsame.alikeAsRead hstrings.1 hstrings.2)⟩

/-- A document with the given backend and input size. -/
def contextDocument (backend : Literal) (inputSize : Token) : Document where
  before := noSpace
  root := .object (block 2 (lineBreak 0) (key "backend" isKey_backend) (.string backend) [
    (key "environment" isKey_environment,
      .object (block 4 (lineBreak 2) (key "device" isKey_device) (stringNode (ascii "cpu")) [])),
    (key "input_size" isKey_inputSize, .scalar inputSize),
    (key "batch_size" isKey_batchSize, unsignedNode 1),
    (key "cuda_graph" isKey_cudaGraph, boolNode false),
    (key "latency_us" isKey_latencyUs,
      .object (block 4 (lineBreak 2) (key "end_to_end" isKey_endToEnd)
        (.object (block 6 (lineBreak 4) (key "p99" isKey_p99) (unsignedNode 3) [])) []))])
  after := lineBreak 0

/-- The metrics of such a document. -/
def contextMetrics (backend : Bytes) (inputSize : UInt64) : RunMetrics :=
  ⟨doubleOf 3, backend, ascii "cpu", inputSize, 1, false⟩

/-- The letter `A` in a document with a size that a `double` holds. -/
def plainDocument : Document :=
  contextDocument [.plain 65 (by decide)] ⟨ascii "9007199254740992", by decide⟩

/-- The same context, the letter as a unicode escape. -/
def escapedDocument : Document :=
  contextDocument [.unicode 48 48 52 49 (by decide)] ⟨ascii "9007199254740992", by decide⟩

/-- The letter with a size that is rounded to the other one. -/
def roundedDocument : Document :=
  contextDocument [.plain 65 (by decide)] ⟨ascii "9007199254740993", by decide⟩

/-- The letter with a small size. -/
def smallDocument : Document := contextDocument [.plain 65 (by decide)] ⟨ascii "8", by decide⟩

private theorem members_contextDocument (backend : Literal) (inputSize : Token) :
    member (contextDocument backend inputSize).root (ascii "backend") = some (.string backend) ∧
      deviceMember (contextDocument backend inputSize).root = some (stringNode (ascii "cpu")) ∧
      member (contextDocument backend inputSize).root (ascii "input_size") =
        some (.scalar inputSize) ∧
      member (contextDocument backend inputSize).root (ascii "batch_size") =
        some (unsignedNode 1) ∧
      member (contextDocument backend inputSize).root (ascii "cuda_graph") =
        some (boolNode false) := by
  simp [contextDocument, deviceMember, key]

private theorem strict_contextDocument {backend : Literal} {inputSize : Token}
    (hb : backend.Strict) (hi : inputSize.Strict) :
    (contextDocument backend inputSize).root.Strict := by
  simp only [contextDocument, Value.Strict, strict_block_cons, strict_block_nil,
    strict_stringNode, strict_unsignedNode, strict_boolNode, hb, hi, and_self]

private theorem denotes_digits {digits : Bytes} {n : ℕ} (h0 : digits.head? ≠ some 48)
    (hne : digits ≠ []) (hd : ∀ b ∈ digits, isDigit b = true) (hn : numeral digits = n) :
    Denotes digits n := by
  obtain ⟨b, rest, rfl⟩ := List.exists_cons_of_ne_nil hne
  refine ⟨[], b :: rest, [], [], by simp, .inl rfl, .inr ⟨b, rest, rfl, by simpa using h0, hd⟩,
    .inl rfl, .inl rfl, ?_⟩
  simp [magnitude, exponentValue, hn]

private theorem sameContext_iff {l l' : Literal} {t t' : Token} {m n : ℕ} (hm : Denotes t.val m)
    (hn : Denotes t'.val n) :
    SameContext (contextDocument l t).root (contextDocument l' t').root ↔
      l.value = l'.value ∧ m = n := by
  obtain ⟨hb, hd, hi, hs, hg⟩ := members_contextDocument l t
  obtain ⟨hb', hd', hi', hs', hg'⟩ := members_contextDocument l' t'
  have hone : Denotes (decimal 1) ((1 : ℕ) : ℚ) :=
    denotes_digits (by decide) (by decide) (by decide) (by decide)
  have hsize := alikeNumbers_iff (fun x y ↦ x = y ∧ ∃ n : ℤ, x = n) hi hi' hm hn
  have hbackend := alikeStrings_iff Literal.value hb hb'
  constructor
  · intro h
    exact ⟨hbackend.mp h.backend, by exact_mod_cast (hsize.mp h.inputSize).1⟩
  · rintro ⟨hl, rfl⟩
    refine ⟨hbackend.mpr hl, ⟨_, _, hd, hd', rfl⟩, hsize.mpr ⟨rfl, m, by norm_cast⟩,
      ⟨_, _, _, _, hs, hs', hone, hone, rfl, 1, by norm_num⟩, ⟨false, _, _, hg, hg', rfl, rfl⟩⟩

private theorem denotes_nearest : Denotes (ascii "9007199254740992") (9007199254740992 : ℕ) :=
  denotes_digits (by decide) (by decide) (by decide) (by decide)

private theorem denotes_rounded : Denotes (ascii "9007199254740993") (9007199254740993 : ℕ) :=
  denotes_digits (by decide) (by decide) (by decide) (by decide)

private theorem denotes_small : Denotes (ascii "8") (8 : ℕ) :=
  denotes_digits (by decide) (by decide) (by decide) (by decide)

private theorem strict_letter : Literal.Strict [.plain 65 (by decide)] := by
  intro p hp
  obtain rfl := List.mem_singleton.mp hp
  exact (by decide : (32 : UInt8) ≤ 65)

private theorem strict_plainDocument : plainDocument.root.Strict :=
  strict_contextDocument strict_letter (.inr (.inr (.inr denotes_nearest.isNumber)))

private theorem strict_smallDocument : smallDocument.root.Strict :=
  strict_contextDocument strict_letter (.inr (.inr (.inr denotes_small.isNumber)))

private theorem strict_roundedDocument : roundedDocument.root.Strict :=
  strict_contextDocument strict_letter (.inr (.inr (.inr denotes_rounded.isNumber)))

private theorem strict_escapedDocument : escapedDocument.root.Strict := by
  apply strict_contextDocument
  · intro p hp
    obtain rfl := List.mem_singleton.mp hp
    trivial
  · exact .inr (.inr (.inr denotes_nearest.isNumber))

/-- Two documents of different sizes, which the guard tells apart, are neither respelled nor
conflated. -/
theorem guard_exact_plain :
    contextDifferences (contextMetrics (ascii "A") 9007199254740992)
        (contextMetrics (ascii "A") 8) = [ascii "input_size"] ∧
      ¬ Respelled plainDocument.root smallDocument.root ∧
      ¬ Conflated plainDocument.root smallDocument.root := by
  have hplain : parseMetrics plainDocument.text (ascii "e2e") (ascii "p99") =
      .ok (contextMetrics (ascii "A") 9007199254740992) := by decide +kernel
  have hsmall : parseMetrics smallDocument.text (ascii "e2e") (ascii "p99") =
      .ok (contextMetrics (ascii "A") 8) := by decide +kernel
  have hother : ¬ SameContext plainDocument.root smallDocument.root := by
    intro hsame
    exact absurd ((sameContext_iff denotes_nearest denotes_small).mp hsame).2 (by decide)
  exact ⟨by decide, (guard_exact strict_plainDocument strict_smallDocument hplain hsmall).mp
    (iff_of_false (by decide) hother)⟩

/-- Two spellings of one backend differ to the guard, and two sizes do not. -/
theorem guard_inexact :
    (plainDocument.root.Strict ∧ escapedDocument.root.Strict ∧ roundedDocument.root.Strict) ∧
      (parseMetrics plainDocument.text (ascii "e2e") (ascii "p99") =
        .ok (contextMetrics (ascii "A") 9007199254740992) ∧
      parseMetrics escapedDocument.text (ascii "e2e") (ascii "p99") =
        .ok (contextMetrics (ascii "\\u0041") 9007199254740992) ∧
      parseMetrics roundedDocument.text (ascii "e2e") (ascii "p99") =
        .ok (contextMetrics (ascii "A") 9007199254740992)) ∧
      SameContext plainDocument.root escapedDocument.root ∧
      contextDifferences (contextMetrics (ascii "A") 9007199254740992)
        (contextMetrics (ascii "\\u0041") 9007199254740992) = [ascii "backend"] ∧
      ¬ SameContext plainDocument.root roundedDocument.root ∧
      contextDifferences (contextMetrics (ascii "A") 9007199254740992)
        (contextMetrics (ascii "A") 9007199254740992) = [] := by
  refine ⟨⟨strict_plainDocument, strict_escapedDocument, strict_roundedDocument⟩,
    by decide +kernel, ?_, by decide, ?_, by decide⟩
  · exact (sameContext_iff denotes_nearest denotes_nearest).mpr ⟨by decide, rfl⟩
  · rw [plainDocument, roundedDocument, sameContext_iff denotes_nearest denotes_rounded]
    decide

/-! ### Plain contexts -/

/-- The context of a document is written without unicode escapes, and its sizes are integers that
a `double` holds exactly. -/
structure PlainContext (v : Value) : Prop where
  backend : ∀ l, member v (ascii "backend") = some (.string l) → l.NoUnicode
  device : ∀ l, deviceMember v = some (.string l) → l.NoUnicode
  sizes : ∀ key ∈ [ascii "input_size", ascii "batch_size"], ∀ t x,
    member v key = some (.scalar t) → Denotes t.val x → ∃ n : ℕ, x = n ∧ n ≤ 2 ^ 53

private theorem nearest_natCast {n : ℕ} (h : n ≤ 2 ^ 53) : nearest n = n :=
  (Ieee.Number.ofNat_eq (F := Ieee.binary64) h (by decide)).2

/-- The guard is exact for plain contexts. -/
theorem guard_plain {d d' : Document} {scope metric : Bytes} {a b : RunMetrics}
    (hd : d.root.Strict) (hd' : d'.root.Strict) (ha : parseMetrics d.text scope metric = .ok a)
    (hb : parseMetrics d'.text scope metric = .ok b) (hp : PlainContext d.root)
    (hp' : PlainContext d'.root) :
    contextDifferences a b = [] ↔ SameContext d.root d'.root := by
  have hstrings : ∀ {x y : Option Value}, (∀ l, x = some (.string l) → l.NoUnicode) →
      (∀ l, y = some (.string l) → l.NoUnicode) →
      (AlikeStrings valueAsWritten x y ↔ AlikeStrings Literal.value x y) := by
    intro x y hx hy
    constructor <;> rintro ⟨l, l', hl, hl', h⟩ <;> refine ⟨l, l', hl, hl', ?_⟩
    · rwa [valueAsWritten, valueAsWritten, Literal.asWritten_eq (hx l hl),
        Literal.asWritten_eq (hy l' hl')] at h
    · rwa [valueAsWritten, valueAsWritten, Literal.asWritten_eq (hx l hl),
        Literal.asWritten_eq (hy l' hl')]
  have hnumbers : ∀ key ∈ [ascii "input_size", ascii "batch_size"],
      AlikeNumbers (fun x y ↦ nearest x = nearest y) (member d.root key) (member d'.root key) →
      AlikeNumbers (fun x y ↦ x = y ∧ ∃ n : ℤ, x = n) (member d.root key) (member d'.root key) := by
    rintro key hk ⟨t, t', x, y, ht, ht', hx, hy, h⟩
    obtain ⟨m, rfl, hm⟩ := hp.sizes key hk t x ht hx
    obtain ⟨n, rfl, hn⟩ := hp'.sizes key hk t' y ht' hy
    rw [nearest_natCast hm, nearest_natCast hn] at h
    exact ⟨t, t', m, n, ht, ht', hx, hy, h, m, by norm_cast⟩
  rw [(readsContext hd ha).differences_eq_nil (readsContext hd' hb)]
  constructor
  · intro h
    exact ⟨(hstrings hp.backend hp'.backend).mp h.backend,
      (hstrings hp.device hp'.device).mp h.device, hnumbers _ (by simp) h.inputSize,
      hnumbers _ (by simp) h.batchSize, h.cudaGraph⟩
  · intro h
    exact h.alikeAsRead ((hstrings hp.backend hp'.backend).mpr h.backend)
      ((hstrings hp.device hp'.device).mpr h.device)

end MarketData.Comparator
