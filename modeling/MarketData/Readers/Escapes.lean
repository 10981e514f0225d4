import MarketData.Comparator.Metrics
import MarketData.Exporter.Metrics

/-!
# Strings between the writer and the two readers

The writer has five escapes by name and writes every other control character as a unicode
escape, which neither reader decodes: the comparator keeps its six characters and the
exporter puts a question mark. Every other string comes back as it was.
-/

namespace MarketData

open ByteText Cpp Json

/-- A string as it stands in a document. -/
def written (s : Bytes) : Bytes := quote :: (escapeJson s ++ [quote])

/-- What the comparator reads for a written string. -/
def comparedAs (s : Bytes) : Checked Bytes := Prod.fst <$> Comparator.parseString (written s) 0

/-- What the exporter reads for a written string. -/
def exportedAs (s : Bytes) : Checked Bytes := Exporter.stringAt (written s) 0

/-- The only control characters are backspace, tab, line feed, form feed and carriage return. -/
def NamedControls (s : Bytes) : Prop := ∀ b ∈ s, 32 ≤ b ∨ b ∈ [8, 9, 10, 12, 13]

/-- The bytes of a string are checked one by one. -/
instance (s : Bytes) : Decidable (NamedControls s) :=
  inferInstanceAs (Decidable (∀ b ∈ s, 32 ≤ b ∨ b ∈ [8, 9, 10, 12, 13]))

private theorem quoted_escapeLiteral (s : Bytes) :
    [] ++ ((escapeLiteral s).quoted ++ []) = written s := by
  rw [Literal.quoted, text_escapeLiteral, List.append_nil, List.nil_append, written]

private theorem comparedAs_eq (s : Bytes) : comparedAs s = .ok (Comparator.readString s) := by
  have hparse := Comparator.parseString_quoted [] [] (escapeLiteral s)
  rw [quoted_escapeLiteral, List.length_nil] at hparse
  have hstring : comparedAs s = Comparator.stringOf (stringNode s) := by
    rw [comparedAs, hparse]
    rfl
  rw [hstring, Comparator.stringOf_stringNode]

private theorem exportedAs_eq (s : Bytes) : exportedAs s = .ok (Exporter.readString s) := by
  have hat := Exporter.stringAt_inside [] [] (stringNode s)
  rw [stringNode, Value.text, quoted_escapeLiteral, List.length_nil] at hat
  rw [exportedAs, hat, ← Exporter.stringOf_stringNode, stringNode]

private theorem named_iff (b : UInt8) : (32 ≤ b ∨ b ∈ [8, 9, 10, 12, 13]) ↔
    ¬ (b < 32 ∧ b ≠ 8 ∧ b ≠ 9 ∧ b ≠ 10 ∧ b ≠ 12 ∧ b ≠ 13) := by
  rw [← UInt8.not_lt]
  simp only [List.mem_cons, List.not_mem_nil, or_false]
  tauto

-- A map that replaces bytes by texts leaves a string alone only if it leaves every byte alone,
-- when no text is empty.
private theorem flatMap_eq_self {f : UInt8 → Bytes} (hf : ∀ b, f b ≠ []) {s : Bytes} :
    s.flatMap f = s ↔ ∀ b ∈ s, f b = [b] := by
  have hlen : ∀ s : Bytes, s.length ≤ (s.flatMap f).length := by
    intro s
    induction s with
    | nil => exact Nat.zero_le _
    | cons b s ih =>
      have hb := List.length_pos_iff.mpr (hf b)
      rw [List.flatMap_cons, List.length_append, List.length_cons]
      omega
  induction s with
  | nil => simp
  | cons b s ih =>
    rw [List.flatMap_cons, List.forall_mem_cons]
    constructor
    · intro h
      have hone : (f b).length = [b].length := by
        have hall := congrArg List.length h
        have hpos := List.length_pos_iff.mpr (hf b)
        have hrest := hlen s
        rw [List.length_append, List.length_cons] at hall
        rw [List.length_singleton]
        omega
      obtain ⟨hb, hs⟩ := List.append_inj (h.trans List.singleton_append.symm) hone
      exact ⟨hb, ih.mp hs⟩
    · rintro ⟨hb, hs⟩
      rw [hb, ih.mpr hs, List.singleton_append]

private theorem readString_comparator (s : Bytes) :
    Comparator.readString s = s ↔ NamedControls s := by
  have hsix : ∀ {b : UInt8}, b < 32 ∧ b ≠ 8 ∧ b ≠ 9 ∧ b ≠ 10 ∧ b ≠ 12 ∧ b ≠ 13 →
      (escapeByte b).length = 6 := by
    rintro b ⟨hlt, h8, h9, h10, h12, h13⟩
    have hquote : b ≠ quote := by
      rintro rfl
      exact absurd hlt (by decide)
    have hslash : b ≠ backslash := by
      rintro rfl
      exact absurd hlt (by decide)
    rw [escapeByte, if_neg hquote, if_neg hslash, if_neg h8, if_neg h12, if_neg h10, if_neg h13,
      if_neg h9, if_pos hlt]
    rfl
  rw [Comparator.readString, flatMap_eq_self]
  · refine forall₂_congr fun b _ ↦ ?_
    rw [named_iff]
    split
    · next h =>
      refine iff_of_false (fun heq ↦ ?_) (not_not.mpr h)
      have := hsix h
      rw [heq] at this
      cases this
    · next h => exact iff_of_true rfl h
  · intro b
    split
    · next h =>
      intro hnil
      have := hsix h
      rw [hnil] at this
      cases this
    · exact List.cons_ne_nil b []

private theorem readString_exporter (s : Bytes) :
    Exporter.readString s = s ↔ NamedControls s := by
  rw [Exporter.readString, List.map_eq_flatMap, flatMap_eq_self fun _ ↦ List.cons_ne_nil _ _]
  refine forall₂_congr fun b _ ↦ ?_
  rw [named_iff, List.singleton_inj, Exporter.readByte]
  split
  · next h =>
    refine iff_of_false (fun heq ↦ ?_) (not_not.mpr h)
    rw [← heq] at h
    exact absurd h.1 (by decide)
  · next h => exact iff_of_true rfl h

/-- Each reader returns a written string exactly when its only control characters are the named
ones. Two strings read alike when they agree with the others spelled out, or replaced by a question
mark; two strings that have only named control characters never do. -/
theorem strings_survive_iff (s : Bytes) :
    (comparedAs s = .ok s ↔ NamedControls s) ∧ (exportedAs s = .ok s ↔ NamedControls s) ∧
      ∀ t, (comparedAs t = comparedAs s ↔ Comparator.readString t = Comparator.readString s) ∧
        (exportedAs t = exportedAs s ↔ Exporter.readString t = Exporter.readString s) ∧
        (t ≠ s → NamedControls s → NamedControls t →
          comparedAs t ≠ comparedAs s ∧ exportedAs t ≠ exportedAs s) := by
  have hcompared : ∀ s, comparedAs s = .ok s ↔ NamedControls s := by
    intro s
    rw [comparedAs_eq, Except.ok.injEq, readString_comparator]
  have hexported : ∀ s, exportedAs s = .ok s ↔ NamedControls s := by
    intro s
    rw [exportedAs_eq, Except.ok.injEq, readString_exporter]
  refine ⟨hcompared s, hexported s, fun t ↦ ⟨?_, ?_, fun hne hs ht ↦ ⟨fun heq ↦ ?_, fun heq ↦ ?_⟩⟩⟩
  · rw [comparedAs_eq, comparedAs_eq, Except.ok.injEq]
  · rw [exportedAs_eq, exportedAs_eq, Except.ok.injEq]
  · rw [(hcompared t).mpr ht, (hcompared s).mpr hs] at heq
    exact hne (Except.ok.inj heq)
  · rw [(hexported t).mpr ht, (hexported s).mpr hs] at heq
    exact hne (Except.ok.inj heq)

/-- Strings with every named control character, a quote and a backslash. -/
theorem strings_survive_named :
    comparedAs [8, 9, 10, 12, 13, quote, backslash] = .ok [8, 9, 10, 12, 13, quote, backslash] ∧
      exportedAs [8, 9, 10, 12, 13, quote, backslash] =
        .ok [8, 9, 10, 12, 13, quote, backslash] ∧
      comparedAs [9] ≠ comparedAs [8, 9, 10, 12, 13, quote, backslash] :=
  have h := strings_survive_iff [8, 9, 10, 12, 13, quote, backslash]
  ⟨h.1.mpr (by decide), h.2.1.mpr (by decide),
    ((h.2.2 [9]).2.2 (by decide) (by decide) (by decide)).1⟩

/-- The byte one is lost by both readers: the comparator takes it for the six characters of its
escape and the exporter for the byte two. -/
theorem control_byte_lost :
    comparedAs [1] ≠ .ok [1] ∧ exportedAs [1] ≠ .ok [1] ∧
      comparedAs [1] = comparedAs (ascii "\\u0001") ∧ exportedAs [1] = exportedAs [2] := by
  decide +kernel

end MarketData
