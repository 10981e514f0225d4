import MarketData.Json.Syntax

/-!
# Members by name

Two readings of a name: the first member of that name anywhere below a value, in text
order and each name before what it names, and the first direct member of an object.
-/

namespace Json

open ByteText

mutual

/-- The first value below `v` whose member name satisfies `p`, in text order. -/
def Value.firstNamed (p : Literal → Bool) : Value → Option Value
  | .array items => items.firstNamed p
  | .object members => members.firstNamed p
  | _ => none

/-- The first named value below an item. -/
def Items.firstNamed (p : Literal → Bool) : Items → Option Value
  | .last _ value _ => value.firstNamed p
  | .cons _ value _ rest => (value.firstNamed p).or (rest.firstNamed p)

/-- The first named value among members and below them. -/
def Members.firstNamed (p : Literal → Bool) : Members → Option Value
  | .last name value _ => if p name.key then some value else value.firstNamed p
  | .cons name value _ rest =>
    if p name.key then some value else (value.firstNamed p).or (rest.firstNamed p)

end

/-- The first value under `key` anywhere below a value. -/
def under (v : Value) (key : Bytes) : Option Value := v.firstNamed (fun l ↦ l.text == key)

/-- The direct members of an object that starts at `start`: offset of the value, name, value. -/
def Members.direct (start : Nat) : Members → List (Nat × Literal × Value)
  | .last name value _ => [(start + name.text.length, name.key, value)]
  | .cons name value after rest =>
    (start + name.text.length, name.key, value) ::
      rest.direct (start + name.text.length + value.text.length + after.val.length + 1)

/-- The direct members of a value at offset `start`; only an object has any. -/
def Value.direct (start : Nat) : Value → List (Nat × Literal × Value)
  | .object members => members.direct (start + 1)
  | _ => []

/-- The first direct member whose name satisfies `p`. -/
def Members.directNamed (p : Literal → Bool) : Members → Option Value
  | .last name value _ => if p name.key then some value else none
  | .cons name value _ rest => if p name.key then some value else rest.directNamed p

/-- The first direct member of an object whose name satisfies `p`. -/
def Value.directNamed (p : Literal → Bool) : Value → Option Value
  | .object members => members.directNamed p
  | _ => none

private theorem Members.find?_direct (p : Literal → Bool) (start : Nat) (members : Members) :
    ((members.direct start).find? (fun m ↦ p m.2.1)).map (fun m ↦ m.2.2) =
      members.directNamed p := by
  cases members with
  | last n v w =>
    rw [Members.direct, Members.directNamed, List.find?_cons]
    cases p n.key <;> rfl
  | cons n v w rest =>
    rw [Members.direct, Members.directNamed, List.find?_cons]
    cases p n.key
    · exact rest.find?_direct p _
    · rfl

/-- A lookup among the listed members finds the first direct member. -/
theorem Value.find?_direct (p : Literal → Bool) (start : Nat) (v : Value) :
    ((v.direct start).find? (fun m ↦ p m.2.1)).map (fun m ↦ m.2.2) = v.directNamed p := by
  cases v with
  | object members => exact members.find?_direct p _
  | scalar t => rfl
  | string l => rfl
  | emptyArray w => rfl
  | array items => rfl
  | emptyObject w => rfl

private theorem Members.Strict.directNamed {p : Literal → Bool} {w : Value} {members : Members}
    (h : members.Strict) (hw : members.directNamed p = some w) : w.Strict := by
  cases members with
  | last n v s =>
    rw [Members.directNamed] at hw
    split at hw
    · obtain rfl := Option.some.inj hw
      exact h.2
    · cases hw
  | cons n v s rest =>
    rw [Members.directNamed] at hw
    split at hw
    · obtain rfl := Option.some.inj hw
      exact h.2.1
    · exact Members.Strict.directNamed h.2.2 hw

/-- The members of a strict value are strict. -/
theorem Value.Strict.directNamed {p : Literal → Bool} {v w : Value} (h : v.Strict)
    (hw : v.directNamed p = some w) : w.Strict := by
  cases v with
  | object members => exact Members.Strict.directNamed h hw
  | scalar t => cases hw
  | string l => cases hw
  | emptyArray s => cases hw
  | array items => cases hw
  | emptyObject s => cases hw

mutual

/-- Every value inside a value at offset `start`, itself included, with its offset. -/
def Value.inner (start : Nat) : Value → List (Nat × Value)
  | .array items => (start, .array items) :: items.inner (start + 1)
  | .object members => (start, .object members) :: members.inner (start + 1)
  | v => [(start, v)]

/-- Every value inside the items of an array. -/
def Items.inner (start : Nat) : Items → List (Nat × Value)
  | .last before value _ => value.inner (start + before.val.length)
  | .cons before value after rest =>
    value.inner (start + before.val.length) ++
      rest.inner (start + before.val.length + value.text.length + after.val.length + 1)

/-- Every value inside the members of an object. -/
def Members.inner (start : Nat) : Members → List (Nat × Value)
  | .last name value _ => value.inner (start + name.text.length)
  | .cons name value after rest =>
    value.inner (start + name.text.length) ++
      rest.inner (start + name.text.length + value.text.length + after.val.length + 1)

end

/-! ### What may follow a value -/

/-- After whitespace the text ends, or a comma or a closing delimiter comes. -/
def Follows (after : Bytes) : Prop :=
  ∀ b ∈ (after.dropWhile isSpace).head?, b = comma ∨ b = closeBrace ∨ b = closeBracket

/-- Only the first byte behind the whitespace counts. -/
instance (after : Bytes) : Decidable (Follows after) := inferInstanceAs (Decidable (∀ _ ∈ _, _))

/-- Nothing may follow. -/
theorem follows_nil : Follows [] := by simp [Follows]

/-- A comma or a closing delimiter may follow. -/
theorem follows_cons {b : UInt8} (h : b = comma ∨ b = closeBrace ∨ b = closeBracket)
    (rest : Bytes) : Follows (b :: rest) := by
  have hs : isSpace b = false := by
    rcases h with rfl | rfl | rfl <;> decide
  simpa [Follows, List.dropWhile_cons, hs] using h

/-- Whitespace may stand in front of what follows. -/
theorem Space.follows_append (w : Space) {after : Bytes} (h : Follows after) :
    Follows (w.val ++ after) := by
  rw [Follows, List.dropWhile_append_of_pos w.property]
  exact h

/-- What may follow a value delimits it. -/
theorem Follows.delimited {after : Bytes} (h : Follows after) : Delimited after := by
  intro b hb
  cases after with
  | nil => simp at hb
  | cons c rest =>
    obtain rfl : c = b := by simpa using hb
    by_cases hs : isSpace c = true
    · simp [isDelimiter, hs]
    · have hc := h c (by simp [hs])
      rcases hc with rfl | rfl | rfl <;> decide

/-! ### Where the values stand -/

/-- A value stands at an offset of a text, with what may follow a value behind it. -/
def Stands (text : Bytes) (offset : Nat) (v : Value) : Prop :=
  ∃ before after, text = before ++ (v.text ++ after) ∧ before.length = offset ∧ Follows after

private theorem Stands.of_eq {text before after : Bytes} {offset : Nat} {v : Value}
    (ht : text = before ++ (v.text ++ after)) (ho : before.length = offset) (ha : Follows after) :
    Stands text offset v := ⟨before, after, ht, ho, ha⟩

mutual

private theorem Value.stands_inner {text : Bytes} (before after : Bytes) {start o : Nat}
    {w : Value} (v : Value) (ht : text = before ++ (v.text ++ after)) (hs : before.length = start)
    (ha : Follows after) (h : (o, w) ∈ v.inner start) : Stands text o w := by
  have hself : (o, w) = (start, v) → Stands text o w := by
    rintro ⟨⟩
    exact .of_eq ht hs ha
  cases v with
  | scalar t => exact hself (List.mem_singleton.mp h)
  | string l => exact hself (List.mem_singleton.mp h)
  | emptyArray s => exact hself (List.mem_singleton.mp h)
  | emptyObject s => exact hself (List.mem_singleton.mp h)
  | array items =>
    rcases List.mem_cons.mp h with h | h
    · exact hself h
    · exact Items.stands_inner (before ++ [openBracket]) (closeBracket :: after) items
        (by simp [ht, Value.text]) (by simp [hs])
        (follows_cons (by decide) _) h
  | object members =>
    rcases List.mem_cons.mp h with h | h
    · exact hself h
    · exact Members.stands_inner (before ++ [openBrace]) (closeBrace :: after) members
        (by simp [ht, Value.text]) (by simp [hs])
        (follows_cons (by decide) _) h

private theorem Items.stands_inner {text : Bytes} (before after : Bytes) {start o : Nat}
    {w : Value} (items : Items) (ht : text = before ++ (items.text ++ after))
    (hs : before.length = start) (ha : Follows after) (h : (o, w) ∈ items.inner start) :
    Stands text o w := by
  cases items with
  | last s v s' =>
    exact Value.stands_inner (before ++ s.val) (s'.val ++ after) v
      (by simp [ht, Items.text]) (by simp [hs]) (s'.follows_append ha) h
  | cons s v s' rest =>
    rcases List.mem_append.mp h with h | h
    · exact Value.stands_inner (before ++ s.val) (s'.val ++ comma :: (rest.text ++ after)) v
        (by simp [ht, Items.text])
        (by simp [hs]) (s'.follows_append (follows_cons (.inl rfl) _)) h
    · exact Items.stands_inner (before ++ (s.val ++ (v.text ++ (s'.val ++ [comma])))) after
        rest (by simp [ht, Items.text]) (by simp [hs]; omega) ha h

private theorem Members.stands_inner {text : Bytes} (before after : Bytes) {start o : Nat}
    {w : Value} (members : Members) (ht : text = before ++ (members.text ++ after))
    (hs : before.length = start) (ha : Follows after) (h : (o, w) ∈ members.inner start) :
    Stands text o w := by
  cases members with
  | last n v s' =>
    exact Value.stands_inner (before ++ n.text) (s'.val ++ after) v
      (by simp [ht, Members.text]) (by simp [hs]) (s'.follows_append ha) h
  | cons n v s' rest =>
    rcases List.mem_append.mp h with h | h
    · exact Value.stands_inner (before ++ n.text) (s'.val ++ comma :: (rest.text ++ after)) v
        (by simp [ht, Members.text])
        (by simp [hs]) (s'.follows_append (follows_cons (.inl rfl) _)) h
    · exact Members.stands_inner (before ++ (n.text ++ (v.text ++ (s'.val ++ [comma])))) after
        rest (by simp [ht, Members.text]) (by simp [hs]; omega) ha h

end

/-- Every value inside a value stands where it is listed. -/
theorem Stands.inner {text : Bytes} {start o : Nat} {v w : Value} (hv : Stands text start v)
    (h : (o, w) ∈ v.inner start) : Stands text o w := by
  obtain ⟨before, after, ht, hs, ha⟩ := hv
  exact Value.stands_inner _ _ v ht hs ha h

private theorem Value.self_mem_inner (v : Value) (start : Nat) : (start, v) ∈ v.inner start := by
  cases v <;> simp [Value.inner]

private theorem Members.mem_inner_of_direct {o start : Nat} {l : Literal} {w : Value}
    (members : Members) (h : (o, l, w) ∈ members.direct start) : (o, w) ∈ members.inner start := by
  cases members with
  | last n v s =>
    obtain ⟨rfl, rfl, rfl⟩ : o = start + n.text.length ∧ l = n.key ∧ w = v := by
      simpa [Members.direct] using h
    exact w.self_mem_inner _
  | cons n v s rest =>
    rcases List.mem_cons.mp h with h | h
    · obtain ⟨rfl, rfl, rfl⟩ : o = start + n.text.length ∧ l = n.key ∧ w = v := by
        simpa using h
      exact List.mem_append_left _ (w.self_mem_inner _)
    · exact List.mem_append_right _ (rest.mem_inner_of_direct h)

/-- Every direct member of an object stands where it is listed. -/
theorem Stands.direct {text : Bytes} {start o : Nat} {v w : Value} {l : Literal}
    (hv : Stands text start v) (h : (o, l, w) ∈ v.direct start) : Stands text o w := by
  apply hv.inner
  cases v with
  | object members => exact List.mem_cons_of_mem _ (members.mem_inner_of_direct h)
  | scalar t => cases h
  | string l => cases h
  | emptyArray s => cases h
  | array items => cases h
  | emptyObject s => cases h

/-- A word without delimiters is cut from a delimited text exactly as from the text before. -/
theorem isPrefixOf_append {word text after : Bytes} (hw : ∀ b ∈ word, isDelimiter b = false)
    (ha : Delimited after) : word.isPrefixOf (text ++ after) = word.isPrefixOf text := by
  induction word generalizing text with
  | nil => simp
  | cons b word ih =>
    cases text with
    | nil =>
      cases after with
      | nil => rfl
      | cons c rest =>
        have hc : isDelimiter c = true := ha c rfl
        have hne : b ≠ c := by
          rintro rfl
          rw [hw b (by simp)] at hc
          cases hc
        simp [List.isPrefixOf, hne]
    | cons c text =>
      simp only [List.cons_append, List.isPrefixOf]
      rw [ih (fun x hx ↦ hw x (by simp [hx]))]

/-- The bytes at a value are a word without delimiters exactly when the value starts with it. -/
theorem Value.take_beq (v : Value) (word : Bytes) {after : Bytes}
    (hw : ∀ b ∈ word, isDelimiter b = false) (ha : Delimited after) :
    ((v.text ++ after).take word.length == word) = word.isPrefixOf v.text := by
  rw [← isPrefixOf_append hw ha, Bool.eq_iff_iff, List.isPrefixOf_iff_prefix,
    List.prefix_iff_eq_take, beq_iff_eq, eq_comm]

end Json
