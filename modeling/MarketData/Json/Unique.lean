import MarketData.Json.Lookup

/-!
# A text has one tree

A tree is determined by its text. Read from the left, the first byte of a value fixes its
form, whitespace and scalar tokens are maximal runs, and every piece of a string ends
where the next one starts. So a text that some tree spells is well formed exactly when
that tree is strict.
-/

namespace Json

open ByteText

private theorem run_unique {p : UInt8 → Bool} {r r' after after' : Bytes}
    (hr : ∀ b ∈ r, p b = true) (hr' : ∀ b ∈ r', p b = true)
    (ha : ∀ b ∈ after.head?, p b = false) (ha' : ∀ b ∈ after'.head?, p b = false)
    (h : r ++ after = r' ++ after') : r = r' ∧ after = after' := by
  have htake : ∀ {r after : Bytes}, (∀ b ∈ r, p b = true) → (∀ b ∈ after.head?, p b = false) →
      (r ++ after).takeWhile p = r := by
    intro r after hr ha
    rw [List.takeWhile_append_of_pos hr]
    cases after with
    | nil => simp
    | cons b rest => simp [ha b rfl]
  have heq : r = r' := by rw [← htake hr ha, h, htake hr' ha']
  subst heq
  exact ⟨rfl, List.append_cancel_left h⟩

private theorem not_space_cons {b : UInt8} {rest : Bytes} (h : isSpace b = false) :
    ∀ c ∈ (b :: rest).head?, isSpace c = false := by simpa using h

/-- Whitespace ends where something else starts. -/
theorem Space.append_injective {w w' : Space} {after after' : Bytes}
    (ha : ∀ b ∈ after.head?, isSpace b = false) (ha' : ∀ b ∈ after'.head?, isSpace b = false)
    (h : w.val ++ after = w'.val ++ after') : w = w' ∧ after = after' := by
  obtain ⟨hw, hafter⟩ := run_unique w.property w'.property ha ha' h
  exact ⟨Subtype.ext hw, hafter⟩

/-- A scalar token ends where the text is delimited. -/
theorem Token.append_injective {t t' : Token} {after after' : Bytes} (ha : Delimited after)
    (ha' : Delimited after') (h : t.val ++ after = t'.val ++ after') :
    t = t' ∧ after = after' := by
  have hd : ∀ {after : Bytes}, Delimited after → ∀ b ∈ after.head?, isScalarByte b = false := by
    intro after ha b hb
    simp [isScalarByte, ha b hb]
  obtain ⟨ht, hafter⟩ := run_unique t.property.2 t'.property.2 (hd ha) (hd ha') h
  exact ⟨Subtype.ext ht, hafter⟩

private theorem simpleEscape_unicode : simpleEscape? 117 = none := by decide

private theorem Piece.append_injective {p p' : Piece} {after after' : Bytes}
    (h : p.text ++ after = p'.text ++ after') : p = p' ∧ after = after' := by
  cases p with
  | plain b hb =>
    cases p' with
    | plain b' hb' =>
      obtain ⟨rfl, rfl⟩ := List.cons.inj h
      exact ⟨rfl, rfl⟩
    | escape letter hl => exact absurd (List.cons.inj h).1 hb.2
    | unicode _ _ _ _ hd => exact absurd (List.cons.inj h).1 hb.2
  | escape letter hl =>
    cases p' with
    | plain b' hb' => exact absurd (List.cons.inj h).1.symm hb'.2
    | escape letter' hl' =>
      obtain ⟨rfl, rfl⟩ := List.cons.inj (List.cons.inj h).2
      exact ⟨rfl, rfl⟩
    | unicode _ _ _ _ hd =>
      rw [(List.cons.inj (List.cons.inj h).2).1, simpleEscape_unicode] at hl
      cases hl
  | unicode a b c d hd =>
    cases p' with
    | plain b' hb' => exact absurd (List.cons.inj h).1.symm hb'.2
    | escape letter' hl' =>
      rw [← (List.cons.inj (List.cons.inj h).2).1, simpleEscape_unicode] at hl'
      cases hl'
    | unicode a' b' c' d' hd' =>
      simp only [Piece.text, List.cons_append, List.nil_append, List.cons.injEq, true_and] at h
      obtain ⟨rfl, rfl, rfl, rfl, rfl⟩ := h
      exact ⟨rfl, rfl⟩

private theorem Piece.ne_quote (p : Piece) {x y : Bytes} : quote :: x ≠ p.text ++ y := by
  cases p with
  | plain b hb => exact fun h ↦ hb.1 (List.cons.inj h).1.symm
  | escape letter hl => exact fun h ↦ absurd (List.cons.inj h).1 (by decide)
  | unicode _ _ _ _ hd => exact fun h ↦ absurd (List.cons.inj h).1 (by decide)

/-- A string ends at its closing quote. -/
theorem Literal.append_injective {l l' : Literal} {after after' : Bytes}
    (h : l.quoted ++ after = l'.quoted ++ after') : l = l' ∧ after = after' := by
  have htext : ∀ {l l' : Literal}, l.text ++ quote :: after = l'.text ++ quote :: after' →
      l = l' ∧ after = after' := by
    intro l
    induction l with
    | nil =>
      intro l' h
      cases l' with
      | nil => exact ⟨rfl, (List.cons.inj h).2⟩
      | cons p' l' =>
        rw [Literal.text, Literal.text, List.flatMap_cons, List.append_assoc] at h
        exact absurd h p'.ne_quote
    | cons p l ih =>
      intro l' h
      cases l' with
      | nil =>
        rw [Literal.text, Literal.text, List.flatMap_cons, List.append_assoc] at h
        exact absurd h.symm p.ne_quote
      | cons p' l' =>
        rw [Literal.text, Literal.text, List.flatMap_cons, List.flatMap_cons, List.append_assoc,
          List.append_assoc] at h
        obtain ⟨rfl, hrest⟩ := Piece.append_injective h
        obtain ⟨rfl, hafter⟩ := ih hrest
        exact ⟨rfl, hafter⟩
  apply htext
  simpa [Literal.quoted] using h

/-- The colon behind a member name ends the name. -/
theorem Name.append_injective {n n' : Name} {after after' : Bytes}
    (ha : ∀ b ∈ after.head?, isSpace b = false) (ha' : ∀ b ∈ after'.head?, isSpace b = false)
    (h : n.text ++ after = n'.text ++ after') : n = n' ∧ after = after' := by
  obtain ⟨before, key, gap, space⟩ := n
  obtain ⟨before', key', gap', space'⟩ := n'
  simp only [Name.text, List.append_assoc, List.cons_append] at h
  obtain ⟨rfl, hkey⟩ := Space.append_injective (not_space_cons rfl) (not_space_cons rfl) h
  obtain ⟨rfl, hgap⟩ := Literal.append_injective hkey
  obtain ⟨rfl, hcolon⟩ := Space.append_injective (not_space_cons rfl) (not_space_cons rfl) hgap
  obtain ⟨rfl, hafter⟩ := Space.append_injective ha ha' (List.cons.inj hcolon).2
  exact ⟨rfl, hafter⟩

/-! ### Values -/

private theorem Value.head_ne_close (v : Value) {b : UInt8} {x y : Bytes}
    (hb : isDelimiter b = true) : v.text ++ x ≠ b :: y := by
  obtain ⟨c, rest, hv, hc⟩ := v.text_head
  rw [hv]
  intro h
  rw [(List.cons.inj h).1, hb] at hc
  cases hc

private theorem Space.ne_items (w : Space) (items : Items) {x y : Bytes} :
    w.val ++ closeBracket :: x ≠ items.text ++ y := by
  intro h
  cases items with
  | last before value after =>
    simp only [Items.text, List.append_assoc] at h
    exact value.head_ne_close (by decide)
      (Space.append_injective (not_space_cons rfl) (value.head_not_space _) h).2.symm
  | cons before value after rest =>
    simp only [Items.text, List.append_assoc] at h
    exact value.head_ne_close (by decide)
      (Space.append_injective (not_space_cons rfl) (value.head_not_space _) h).2.symm

private theorem Space.ne_name (w : Space) (n : Name) {x y : Bytes} :
    w.val ++ closeBrace :: x ≠ n.text ++ y := by
  intro h
  simp only [Name.text, Literal.quoted, List.append_assoc, List.cons_append] at h
  have := (Space.append_injective (not_space_cons rfl) (not_space_cons rfl) h).2
  exact absurd (List.cons.inj this).1 (by decide)

private theorem Space.ne_members (w : Space) (members : Members) {x y : Bytes} :
    w.val ++ closeBrace :: x ≠ members.text ++ y := by
  cases members with
  | last name value after =>
    rw [Members.text, List.append_assoc]
    exact w.ne_name name
  | cons name value after rest =>
    rw [Members.text, List.append_assoc]
    exact w.ne_name name

private theorem Token.ne_open (t : Token) {b : UInt8} {x y : Bytes} (hb : isScalarByte b = false) :
    t.val ++ x ≠ b :: y := by
  obtain ⟨c, rest, ht, hc⟩ := Token.text_head t
  intro h
  rw [ht] at h
  rw [(List.cons.inj h).1, hb] at hc
  cases hc

private theorem slot_unique {v v' : Value} {s s' : Space} {b b' : UInt8} {rest rest' : Bytes}
    (unique : ∀ {after after' : Bytes}, Delimited after → Delimited after' →
      v.text ++ after = v'.text ++ after' → v = v' ∧ after = after')
    (hb : (isDelimiter b && !isSpace b) = true) (hb' : (isDelimiter b' && !isSpace b') = true)
    (h : v.text ++ (s.val ++ b :: rest) = v'.text ++ (s'.val ++ b' :: rest')) :
    v = v' ∧ s = s' ∧ b = b' ∧ rest = rest' := by
  simp only [Bool.and_eq_true, Bool.not_eq_true'] at hb hb'
  obtain ⟨hv, hs⟩ := unique (s.delimited_append (delimited_cons hb.1 _))
    (s'.delimited_append (delimited_cons hb'.1 _)) h
  obtain ⟨hs, hrest⟩ := Space.append_injective (not_space_cons hb.2) (not_space_cons hb'.2) hs
  exact ⟨hv, hs, List.cons.inj hrest⟩

mutual

/-- A value is determined by a delimited text that starts with it. -/
theorem Value.append_injective {v v' : Value} {after after' : Bytes} (ha : Delimited after)
    (ha' : Delimited after') (h : v.text ++ after = v'.text ++ after') :
    v = v' ∧ after = after' := by
  cases v with
  | scalar t =>
    cases v' with
    | scalar t' =>
      obtain ⟨rfl, hafter⟩ := Token.append_injective ha ha' h
      exact ⟨rfl, hafter⟩
    | string _ | emptyArray _ | array _ | emptyObject _ | object _ =>
      exact absurd h (t.ne_open (by decide))
  | string l =>
    cases v' with
    | scalar t' => exact absurd h.symm (t'.ne_open (by decide))
    | string l' =>
      obtain ⟨rfl, hafter⟩ := Literal.append_injective h
      exact ⟨rfl, hafter⟩
    | emptyArray _ | array _ | emptyObject _ | object _ =>
      exact absurd (List.cons.inj h).1 (by decide)
  | emptyArray w =>
    simp only [Value.text, List.cons_append, List.append_assoc, List.nil_append] at h
    cases v' with
    | scalar t' => exact absurd h.symm (t'.ne_open (by decide))
    | string _ => exact absurd (List.cons.inj h).1 (by decide)
    | emptyArray w' =>
      simp only [Value.text, List.cons_append, List.append_assoc, List.nil_append] at h
      obtain ⟨rfl, hclose⟩ := Space.append_injective (not_space_cons rfl) (not_space_cons rfl)
        (List.cons.inj h).2
      exact ⟨rfl, (List.cons.inj hclose).2⟩
    | array items' =>
      simp only [Value.text, List.cons_append, List.append_assoc] at h
      exact absurd (List.cons.inj h).2 (w.ne_items items')
    | emptyObject _ | object _ => exact absurd (List.cons.inj h).1 (by decide)
  | array items =>
    simp only [Value.text, List.cons_append, List.append_assoc, List.nil_append] at h
    cases v' with
    | scalar t' => exact absurd h.symm (t'.ne_open (by decide))
    | string _ => exact absurd (List.cons.inj h).1 (by decide)
    | emptyArray w' =>
      simp only [Value.text, List.cons_append, List.append_assoc, List.nil_append] at h
      exact absurd (List.cons.inj h).2.symm (w'.ne_items items)
    | array items' =>
      simp only [Value.text, List.cons_append, List.append_assoc, List.nil_append] at h
      obtain ⟨rfl, hafter⟩ := Items.append_injective (List.cons.inj h).2
      exact ⟨rfl, hafter⟩
    | emptyObject _ | object _ => exact absurd (List.cons.inj h).1 (by decide)
  | emptyObject w =>
    simp only [Value.text, List.cons_append, List.append_assoc, List.nil_append] at h
    cases v' with
    | scalar t' => exact absurd h.symm (t'.ne_open (by decide))
    | string _ | emptyArray _ | array _ => exact absurd (List.cons.inj h).1 (by decide)
    | emptyObject w' =>
      simp only [Value.text, List.cons_append, List.append_assoc, List.nil_append] at h
      obtain ⟨rfl, hclose⟩ := Space.append_injective (not_space_cons rfl) (not_space_cons rfl)
        (List.cons.inj h).2
      exact ⟨rfl, (List.cons.inj hclose).2⟩
    | object members' =>
      simp only [Value.text, List.cons_append, List.append_assoc] at h
      exact absurd (List.cons.inj h).2 (w.ne_members members')
  | object members =>
    simp only [Value.text, List.cons_append, List.append_assoc, List.nil_append] at h
    cases v' with
    | scalar t' => exact absurd h.symm (t'.ne_open (by decide))
    | string _ | emptyArray _ | array _ => exact absurd (List.cons.inj h).1 (by decide)
    | emptyObject w' =>
      simp only [Value.text, List.cons_append, List.append_assoc, List.nil_append] at h
      exact absurd (List.cons.inj h).2.symm (w'.ne_members members)
    | object members' =>
      simp only [Value.text, List.cons_append, List.append_assoc, List.nil_append] at h
      obtain ⟨rfl, hafter⟩ := Members.append_injective (List.cons.inj h).2
      exact ⟨rfl, hafter⟩

/-- The items of an array are determined up to its closing bracket. -/
theorem Items.append_injective {items items' : Items} {after after' : Bytes}
    (h : items.text ++ closeBracket :: after = items'.text ++ closeBracket :: after') :
    items = items' ∧ after = after' := by
  cases items with
  | last w v s =>
    cases items' with
    | last w' v' s' =>
      simp only [Items.text, List.append_assoc] at h
      obtain ⟨rfl, hv⟩ := Space.append_injective (v.head_not_space _) (v'.head_not_space _) h
      obtain ⟨rfl, rfl, -, rfl⟩ := slot_unique (Value.append_injective (v := v)) rfl rfl hv
      exact ⟨rfl, rfl⟩
    | cons w' v' s' rest' =>
      simp only [Items.text, List.append_assoc, List.cons_append] at h
      obtain ⟨rfl, hv⟩ := Space.append_injective (v.head_not_space _) (v'.head_not_space _) h
      obtain ⟨-, -, hb, -⟩ := slot_unique (Value.append_injective (v := v)) rfl rfl hv
      exact absurd hb (by decide)
  | cons w v s rest =>
    cases items' with
    | last w' v' s' =>
      simp only [Items.text, List.append_assoc, List.cons_append] at h
      obtain ⟨rfl, hv⟩ := Space.append_injective (v.head_not_space _) (v'.head_not_space _) h
      obtain ⟨-, -, hb, -⟩ := slot_unique (Value.append_injective (v := v)) rfl rfl hv
      exact absurd hb (by decide)
    | cons w' v' s' rest' =>
      simp only [Items.text, List.append_assoc, List.cons_append] at h
      obtain ⟨rfl, hv⟩ := Space.append_injective (v.head_not_space _) (v'.head_not_space _) h
      obtain ⟨rfl, rfl, -, hrest⟩ := slot_unique (Value.append_injective (v := v)) rfl rfl hv
      obtain ⟨rfl, hafter⟩ := Items.append_injective hrest
      exact ⟨rfl, hafter⟩

/-- The members of an object are determined up to its closing brace. -/
theorem Members.append_injective {members members' : Members} {after after' : Bytes}
    (h : members.text ++ closeBrace :: after = members'.text ++ closeBrace :: after') :
    members = members' ∧ after = after' := by
  cases members with
  | last n v s =>
    cases members' with
    | last n' v' s' =>
      simp only [Members.text, List.append_assoc] at h
      obtain ⟨rfl, hv⟩ := Name.append_injective (v.head_not_space _) (v'.head_not_space _) h
      obtain ⟨rfl, rfl, -, rfl⟩ := slot_unique (Value.append_injective (v := v)) rfl rfl hv
      exact ⟨rfl, rfl⟩
    | cons n' v' s' rest' =>
      simp only [Members.text, List.append_assoc, List.cons_append] at h
      obtain ⟨rfl, hv⟩ := Name.append_injective (v.head_not_space _) (v'.head_not_space _) h
      obtain ⟨-, -, hb, -⟩ := slot_unique (Value.append_injective (v := v)) rfl rfl hv
      exact absurd hb (by decide)
  | cons n v s rest =>
    cases members' with
    | last n' v' s' =>
      simp only [Members.text, List.append_assoc, List.cons_append] at h
      obtain ⟨rfl, hv⟩ := Name.append_injective (v.head_not_space _) (v'.head_not_space _) h
      obtain ⟨-, -, hb, -⟩ := slot_unique (Value.append_injective (v := v)) rfl rfl hv
      exact absurd hb (by decide)
    | cons n' v' s' rest' =>
      simp only [Members.text, List.append_assoc, List.cons_append] at h
      obtain ⟨rfl, hv⟩ := Name.append_injective (v.head_not_space _) (v'.head_not_space _) h
      obtain ⟨rfl, rfl, -, hrest⟩ := slot_unique (Value.append_injective (v := v)) rfl rfl hv
      obtain ⟨rfl, hafter⟩ := Members.append_injective hrest
      exact ⟨rfl, hafter⟩

end

/-- Two documents with one text are the same document. -/
theorem Document.text_injective {d d' : Document} (h : d.text = d'.text) : d = d' := by
  obtain ⟨before, root, after⟩ := d
  obtain ⟨before', root', after'⟩ := d'
  have hend : ∀ w : Space, Delimited w.val := by
    intro w
    simpa using w.delimited_append delimited_nil
  simp only [Document.text] at h
  obtain ⟨rfl, hroot⟩ := Space.append_injective (root.head_not_space _) (root'.head_not_space _) h
  obtain ⟨rfl, hafter⟩ := Value.append_injective (hend after) (hend after') hroot
  obtain rfl := Subtype.ext hafter
  rfl

/-- The text of a tree is well formed exactly when the tree is strict. -/
theorem isObjectText_text (d : Document) :
    IsObjectText d.text ↔ d.root.Strict ∧ d.root.isObject = true := by
  constructor
  · rintro ⟨d', ht, hs, ho⟩
    obtain rfl := Document.text_injective ht
    exact ⟨hs, ho⟩
  · rintro ⟨hs, ho⟩
    exact ⟨d, rfl, hs, ho⟩

/-! ### Members of a text -/

/-- The text spells an object, and this is the text of its first member of this name. -/
def HasMember (text name value : Bytes) : Prop :=
  ∃ d : Document, d.text = text ∧
    (d.root.directNamed (fun l ↦ l.text == name)).map Value.text = some value

variable {name value value' : Bytes}

/-- The members of a text are those of its tree. -/
theorem hasMember_text {d : Document} : HasMember d.text name value ↔
    (d.root.directNamed (fun l ↦ l.text == name)).map Value.text = some value := by
  constructor
  · rintro ⟨d', ht, hmember⟩
    obtain rfl := Document.text_injective ht
    exact hmember
  · exact fun hmember ↦ ⟨d, rfl, hmember⟩

/-- A name has one value in a text. -/
theorem HasMember.unique {text : Bytes} (h : HasMember text name value)
    (h' : HasMember text name value') : value = value' := by
  obtain ⟨d, rfl, hmember⟩ := h
  rw [hasMember_text, hmember] at h'
  exact Option.some.inj h'

end Json
