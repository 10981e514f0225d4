import MarketData.Json.Lookup

/-!
# Objects laid out in blocks

An object whose members stand on lines of their own, under keys that need no escapes.
A lookup in such an object is a comparison of key names.
-/

namespace Json

open ByteText

/-! ### Keys -/

/-- A byte of a key: a lower-case letter, a digit or an underscore. -/
def isKeyByte (b : UInt8) : Bool := isDigit b || (97 ≤ b && b ≤ 122) || b == 95

/-- A key: not empty, and without a byte that needs an escape. -/
def IsKey (key : Bytes) : Prop := key ≠ [] ∧ ∀ b ∈ key, isKeyByte b = true

/-- The bytes of a key are checked one by one. -/
instance (key : Bytes) : Decidable (IsKey key) := inferInstanceAs (Decidable (_ ∧ _))

/-- A key byte is neither a quote nor a backslash. -/
theorem keyByte_ne {b : UInt8} (h : isKeyByte b = true) : b ≠ quote ∧ b ≠ backslash := by
  constructor
  · rintro rfl
    exact absurd h (by decide)
  · rintro rfl
    exact absurd h (by decide)

/-- A name that a search for its quoted text can look for: no byte of it needs an escape, and it
does not start like the text behind a string. -/
def IsPlainName (name : Bytes) : Prop :=
  (∀ b ∈ name, b ≠ quote ∧ b ≠ backslash) ∧
    ∀ b ∈ name.head?, isDelimiter b = false ∧ b ≠ colon

/-- The bytes of a name are checked one by one. -/
instance (name : Bytes) : Decidable (IsPlainName name) := inferInstanceAs (Decidable (_ ∧ _))

/-- A key is a plain name. -/
theorem IsKey.isPlainName {key : Bytes} (h : IsKey key) : IsPlainName key := by
  refine ⟨fun b hb ↦ keyByte_ne (h.2 b hb), ?_⟩
  intro b hb
  have hk := h.2 b (List.mem_of_mem_head? hb)
  constructor
  · rw [Bool.eq_false_iff]
    intro hd
    simp only [isDelimiter, isSpace, Bool.or_eq_true, beq_iff_eq] at hd
    rcases hd with ((rfl | rfl) | rfl) | ((rfl | rfl) | rfl) | rfl <;> exact absurd hk (by decide)
  · rintro rfl
    exact absurd hk (by decide)

/-- A key given by its name. -/
structure Key where
  name : String
  plain : IsKey (ascii name)

/-- The literal that spells a key. -/
def Key.literal (k : Key) : Literal :=
  (ascii k.name).pmap Piece.plain (fun b hb ↦ keyByte_ne (k.plain.2 b hb))

private theorem text_pmap_plain (bytes : Bytes) (h : ∀ b ∈ bytes, b ≠ quote ∧ b ≠ backslash) :
    Literal.text (bytes.pmap Piece.plain h) = bytes := by
  induction bytes with
  | nil => rfl
  | cons b bytes ih =>
    have ht := ih (fun c hc ↦ h c (by simp [hc]))
    simpa [Literal.text, Piece.text] using ht

/-- A key spells its name. -/
theorem Key.text_literal (k : Key) : k.literal.text = ascii k.name := text_pmap_plain _ _

/-! ### Blocks -/

/-- No whitespace. -/
def noSpace : Space := ⟨[], by simp⟩

/-- A line break and the indentation of the next line. -/
def lineBreak (indent : Nat) : Space :=
  ⟨newline :: List.replicate indent blank, by
    intro b hb
    rcases List.mem_cons.mp hb with rfl | hb
    · decide
    · rw [List.eq_of_mem_replicate hb]
      decide⟩

/-- A key at the start of a line. -/
def fieldName (indent : Nat) (k : Key) : Name :=
  ⟨lineBreak indent, k.literal, noSpace, ⟨[blank], by decide⟩⟩

/-- Members on lines of their own, with `close` before the closing brace. -/
def block (indent : Nat) (close : Space) (k : Key) (v : Value) : List (Key × Value) → Members
  | [] => .last (fieldName indent k) v close
  | (k', v') :: rest => .cons (fieldName indent k) v noSpace (block indent close k' v' rest)

/-- The text of a key at the start of a line. -/
theorem text_fieldName (indent : Nat) (k : Key) :
    (fieldName indent k).text =
      newline :: (List.replicate indent blank ++
        (ascii "\"" ++ (ascii k.name ++ ascii "\": "))) := by
  simp only [Name.text, fieldName, Literal.quoted, k.text_literal, noSpace, lineBreak,
    List.cons_append, List.nil_append, List.append_assoc]
  rfl

/-- The text of the last member of a block. -/
theorem text_block_nil (indent : Nat) (close : Space) (k : Key) (v : Value) :
    (block indent close k v []).text = (fieldName indent k).text ++ (v.text ++ close.val) := rfl

/-- The text of a block of several members. -/
theorem text_block_cons (indent : Nat) (close : Space) (k k' : Key) (v v' : Value)
    (rest : List (Key × Value)) :
    (block indent close k v ((k', v') :: rest)).text =
      (fieldName indent k).text ++ (v.text ++ comma :: (block indent close k' v' rest).text) := rfl

/-- The whitespace before the closing brace ends the text of a block. -/
theorem text_block_close (indent : Nat) (close : Space) (k : Key) (v : Value)
    (rest : List (Key × Value)) :
    (block indent close k v rest).text = (block indent noSpace k v rest).text ++ close.val := by
  induction rest generalizing k v with
  | nil =>
    rw [text_block_nil, text_block_nil]
    simp [noSpace]
  | cons field rest ih =>
    rw [text_block_cons, text_block_cons, ih]
    simp

/-- The last member of a block comes behind the others. -/
theorem text_block_concat (indent : Nat) (close : Space) (k k' : Key) (v v' : Value)
    (rest : List (Key × Value)) :
    (block indent close k v (rest ++ [(k', v')])).text =
      (block indent noSpace k v rest).text ++
        comma :: ((fieldName indent k').text ++ (v'.text ++ close.val)) := by
  induction rest generalizing k v with
  | nil =>
    rw [List.nil_append, text_block_cons, text_block_nil, text_block_nil]
    simp [noSpace]
  | cons field rest ih =>
    rw [List.cons_append, text_block_cons, text_block_cons, ih]
    simp

/-! ### Strict blocks -/

/-- A key is strict. -/
theorem Key.strict_literal (k : Key) : k.literal.Strict := by
  intro p hp
  obtain ⟨b, hb, rfl⟩ := List.mem_pmap.mp hp
  have hk := k.plain.2 b hb
  simp only [isKeyByte, isDigit, Bool.or_eq_true, Bool.and_eq_true, decide_eq_true_eq,
    beq_iff_eq] at hk
  simp only [Piece.Strict]
  rcases hk with (hk | hk) | rfl
  · exact UInt8.le_trans (by decide) hk.1
  · exact UInt8.le_trans (by decide) hk.1
  · decide

/-- A block of one member is strict when its value is. -/
theorem strict_block_nil (indent : Nat) (close : Space) (k : Key) (v : Value) :
    (block indent close k v []).Strict ↔ v.Strict := by
  simp [block, Members.Strict, fieldName, k.strict_literal]

/-- A block is strict when its first value and the block of the others are. -/
theorem strict_block_cons (indent : Nat) (close : Space) (k k' : Key) (v v' : Value)
    (rest : List (Key × Value)) :
    (block indent close k v ((k', v') :: rest)).Strict ↔
      v.Strict ∧ (block indent close k' v' rest).Strict := by
  simp [block, Members.Strict, fieldName, k.strict_literal]

/-! ### Lookups in blocks -/

private theorem literal_beq (k : Key) (name : String) :
    (k.literal.text == ascii name) = decide (k.name = name) := by
  rw [k.text_literal, Bool.eq_iff_iff, beq_iff_eq, ascii_inj, decide_eq_true_eq]

/-- What stands under a name in a block of one member. -/
@[simp] theorem under_block_nil (indent : Nat) (close : Space) (k : Key) (v : Value)
    (name : String) :
    under (.object (block indent close k v [])) (ascii name) =
      if k.name = name then some v else under v (ascii name) := by
  simp [under, Value.firstNamed, block, Members.firstNamed, fieldName, literal_beq]

/-- What stands under a name in a block of several members. -/
@[simp] theorem under_block_cons (indent : Nat) (close : Space) (k k' : Key) (v v' : Value)
    (rest : List (Key × Value)) (name : String) :
    under (.object (block indent close k v ((k', v') :: rest))) (ascii name) =
      if k.name = name then some v
      else (under v (ascii name)).or
        (under (.object (block indent close k' v' rest)) (ascii name)) := by
  simp [under, Value.firstNamed, block, Members.firstNamed, fieldName, literal_beq]

/-- The direct members of a block of one member. -/
theorem directNamed_block_nil (p : Literal → Bool) (indent : Nat) (close : Space) (k : Key)
    (v : Value) :
    (Value.object (block indent close k v [])).directNamed p =
      if p k.literal then some v else none := rfl

/-- The direct members of a block of several members. -/
theorem directNamed_block_cons (p : Literal → Bool) (indent : Nat) (close : Space) (k k' : Key)
    (v v' : Value) (rest : List (Key × Value)) :
    (Value.object (block indent close k v ((k', v') :: rest))).directNamed p =
      if p k.literal then some v
      else (Value.object (block indent close k' v' rest)).directNamed p := rfl

/-- Every member of a block with distinct keys is found under its own key. -/
theorem directNamed_block_of_mem {indent : Nat} {close : Space} {k k' : Key} {v v' : Value}
    {rest : List (Key × Value)} (hnames : (((k, v) :: rest).map (fun m ↦ m.1.name)).Nodup)
    (h : (k', v') ∈ (k, v) :: rest) :
    (Value.object (block indent close k v rest)).directNamed
      (fun l ↦ l.text == ascii k'.name) = some v' := by
  induction rest generalizing k v with
  | nil =>
    obtain ⟨rfl, rfl⟩ := Prod.mk.inj (List.mem_singleton.mp h)
    rw [directNamed_block_nil, literal_beq, decide_eq_true rfl, if_pos rfl]
  | cons m rest ih =>
    obtain ⟨k₁, v₁⟩ := m
    rw [directNamed_block_cons, literal_beq]
    rw [List.map_cons, List.nodup_cons] at hnames
    rcases List.mem_cons.mp h with hfirst | hlater
    · obtain ⟨rfl, rfl⟩ := Prod.mk.inj hfirst
      rw [decide_eq_true rfl, if_pos rfl]
    · have hne : k.name ≠ k'.name := fun heq ↦
        hnames.1 (List.mem_map.mpr ⟨(k', v'), hlater, heq.symm⟩)
      rw [decide_eq_false hne, if_neg Bool.false_ne_true]
      exact ih hnames.2 hlater

/-- The whitespace before the closing brace does not matter to a lookup. -/
theorem firstNamed_block_close (p : Literal → Bool) (indent : Nat) (close : Space) (k : Key)
    (v : Value) (rest : List (Key × Value)) :
    (block indent close k v rest).firstNamed p = (block indent noSpace k v rest).firstNamed p := by
  induction rest generalizing k v with
  | nil => rfl
  | cons field rest ih =>
    simp only [block, Members.firstNamed]
    rw [ih]

end Json
