import MarketData.Json.Syntax

/-!
# Balanced stretches

A reader that only follows delimiters passes every text in which strings end and containers are
closed by their own delimiters, whatever else stands there. JSON values are such texts, and so
is much that is no JSON.
-/

namespace Json

open ByteText

/-- A byte that neither opens nor closes anything. -/
def isPlain (b : UInt8) : Bool :=
  !(b == quote || b == openBrace || b == openBracket || b == closeBrace || b == closeBracket)

/-- Every string ends and every container is closed. -/
inductive Balanced : Bytes → Prop
  | nil : Balanced []
  | plain {b : UInt8} {rest : Bytes} (hb : isPlain b = true) (hr : Balanced rest) :
      Balanced (b :: rest)
  | string (l : Literal) {rest : Bytes} (hr : Balanced rest) : Balanced (l.quoted ++ rest)
  | braces {inside rest : Bytes} (hi : Balanced inside) (hr : Balanced rest) :
      Balanced (openBrace :: (inside ++ closeBrace :: rest))
  | brackets {inside rest : Bytes} (hi : Balanced inside) (hr : Balanced rest) :
      Balanced (openBracket :: (inside ++ closeBracket :: rest))

/-- What is passed over in the place of a value: a string, a container with balanced contents, or
a run up to a delimiter. -/
inductive Passed : Bytes → Prop
  | string (l : Literal) : Passed l.quoted
  | braces {inside : Bytes} (h : Balanced inside) : Passed (openBrace :: (inside ++ [closeBrace]))
  | brackets {inside : Bytes} (h : Balanced inside) :
      Passed (openBracket :: (inside ++ [closeBracket]))
  | run {b : UInt8} {rest : Bytes} (hb : b ≠ quote ∧ b ≠ openBrace ∧ b ≠ openBracket)
      (hr : ∀ c ∈ b :: rest, isDelimiter c = false) : Passed (b :: rest)

/-- A lookup reaches a member: past the members before it, the rest from its value on. -/
inductive Leads (wanted : Literal → Prop) : Bytes → Bytes → Prop
  | here (n : Name) {rest : Bytes} (hn : wanted n.key)
      (hr : ∀ b ∈ rest.head?, isSpace b = false) : Leads wanted (n.text ++ rest) rest
  | later (n : Name) {v : Bytes} (w : Space) {rest field : Bytes} (hn : ¬ wanted n.key)
      (hv : Passed v) (h : Leads wanted rest field) :
      Leads wanted (n.text ++ (v ++ (w.val ++ comma :: rest))) field

/-! ### Rules -/

section

variable {s t : Bytes}

/-- Balanced stretches one after the other. -/
theorem Balanced.append (hs : Balanced s) (ht : Balanced t) : Balanced (s ++ t) := by
  induction hs with
  | nil => exact ht
  | plain hb _ ih => exact .plain hb ih
  | string l _ ih =>
    rw [List.append_assoc]
    exact .string l ih
  | braces hi _ _ ih =>
    rw [List.cons_append, List.append_assoc]
    exact .braces hi ih
  | brackets hi _ _ ih =>
    rw [List.cons_append, List.append_assoc]
    exact .brackets hi ih

/-- A run of plain bytes. -/
theorem balanced_run (h : ∀ b ∈ s, isPlain b = true) : Balanced s := by
  induction s with
  | nil => exact .nil
  | cons b s ih => exact .plain (h b (by simp)) (ih fun c hc ↦ h c (by simp [hc]))

/-- A string alone. -/
theorem Literal.balanced (l : Literal) : Balanced l.quoted := by
  rw [← List.append_nil l.quoted]
  exact .string l .nil

private theorem isPlain_of_isSpace {b : UInt8} (h : isSpace b = true) : isPlain b = true := by
  simp only [isSpace, Bool.or_eq_true, beq_iff_eq] at h
  rcases h with ((rfl | rfl) | rfl) | rfl <;> decide

private theorem isPlain_of_isScalarByte {b : UInt8} (h : isScalarByte b = true) :
    isPlain b = true := by
  simp only [isScalarByte, isDelimiter, Bool.not_eq_true', Bool.or_eq_false_iff] at h
  simp [isPlain, h]

/-- Whitespace is balanced. -/
theorem Space.balanced (w : Space) : Balanced w.val :=
  balanced_run fun b hb ↦ isPlain_of_isSpace (w.property b hb)

private theorem Name.balanced (n : Name) : Balanced n.text :=
  n.before.balanced.append (.string _ (n.gap.balanced.append (.plain (by decide) n.after.balanced)))

/-- What is passed over starts with a byte that neither delimits nor is whitespace. -/
theorem Passed.head {v : Bytes} (h : Passed v) :
    ∃ b rest, v = b :: rest ∧ isDelimiter b = false := by
  cases h with
  | string l => exact ⟨quote, _, rfl, by decide⟩
  | braces hi => exact ⟨openBrace, _, rfl, by decide⟩
  | brackets hi => exact ⟨openBracket, _, rfl, by decide⟩
  | @run b rest hb hr => exact ⟨b, rest, rfl, hr b (by simp)⟩

/-- What is passed over does not start with whitespace. -/
theorem Passed.head_not_space {v : Bytes} (h : Passed v) (after : Bytes) :
    ∀ b ∈ (v ++ after).head?, isSpace b = false := by
  obtain ⟨b, rest, rfl, hb⟩ := h.head
  simpa using isSpace_of_not_isDelimiter hb

variable {wanted : Literal → Prop} {rest : Bytes}

/-- A lookup ends inside the text. -/
theorem Leads.suffix (h : Leads wanted t rest) : rest <:+ t := by
  induction h with
  | here n => exact List.suffix_append _ _
  | @later n v w rest field hn hv h ih =>
    exact ih.trans ⟨n.text ++ v ++ w.val ++ [comma], by simp⟩

/-- A lookup ends behind the whitespace in front of a value. -/
theorem Leads.head_not_space (h : Leads wanted t rest) : ∀ b ∈ rest.head?, isSpace b = false := by
  induction h with
  | here n hn hr => exact hr
  | later n w hn hv h ih => exact ih

end

/-! ### Values -/

mutual

/-- A value is balanced. -/
theorem Value.balanced (v : Value) : Balanced v.text := by
  cases v with
  | scalar t => exact balanced_run fun b hb ↦ isPlain_of_isScalarByte (t.property.2 b hb)
  | string l => exact l.balanced
  | emptyArray w => exact .brackets w.balanced .nil
  | array items => exact .brackets items.balanced .nil
  | emptyObject w => exact .braces w.balanced .nil
  | object members => exact .braces members.balanced .nil

/-- The items of an array are balanced. -/
theorem Items.balanced (items : Items) : Balanced items.text := by
  cases items with
  | last w v w' => exact w.balanced.append (v.balanced.append w'.balanced)
  | cons w v w' rest =>
    refine w.balanced.append (v.balanced.append (w'.balanced.append ?_))
    exact .plain (by decide) rest.balanced

/-- The members of an object are balanced. -/
theorem Members.balanced (members : Members) : Balanced members.text := by
  cases members with
  | last n v w => exact n.balanced.append (v.balanced.append w.balanced)
  | cons n v w rest =>
    refine n.balanced.append (v.balanced.append (w.balanced.append ?_))
    exact .plain (by decide) rest.balanced

end

/-- A value can be passed over. -/
theorem Value.passed (v : Value) : Passed v.text := by
  cases v with
  | scalar t =>
    obtain ⟨b, rest, ht, hb⟩ := Token.text_head t
    have hopens : b ≠ quote ∧ b ≠ openBrace ∧ b ≠ openBracket := by
      simp only [isScalarByte, Bool.not_eq_true', Bool.or_eq_false_iff, beq_eq_false_iff_ne] at hb
      exact ⟨hb.1.1.2, hb.1.2, hb.2⟩
    have hrun : ∀ c ∈ t.val, isDelimiter c = false :=
      fun c hc ↦ isDelimiter_of_isScalarByte (t.property.2 c hc)
    rw [Value.text, ht]
    rw [ht] at hrun
    exact .run hopens hrun
  | string l => exact .string l
  | emptyArray w => exact .brackets w.balanced
  | array items => exact .brackets items.balanced
  | emptyObject w => exact .braces w.balanced
  | object members => exact .braces members.balanced

/-- An object is balanced between its braces. -/
theorem Value.exists_inside {v : Value} (h : v.isObject = true) :
    ∃ inside, Balanced inside ∧ v.text = openBrace :: (inside ++ [closeBrace]) := by
  cases v with
  | emptyObject w => exact ⟨w.val, w.balanced, rfl⟩
  | object members => exact ⟨members.text, members.balanced, rfl⟩
  | scalar t => cases h
  | string l => cases h
  | emptyArray w => cases h
  | array items => cases h

end Json
