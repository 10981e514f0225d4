import MarketData.Json.Lookup

/-!
# Names and nesting

Where the first value under a name stands, at any depth, and when it is a direct member.
-/

namespace Json

open ByteText

mutual

/-- `firstNamed` with the offset of the value it finds, below a value at offset `start`. -/
def Value.firstAt (p : Literal → Bool) (start : Nat) : Value → Option (Nat × Value)
  | .array items => items.firstAt p (start + 1)
  | .object members => members.firstAt p (start + 1)
  | _ => none

/-- The first named value below the items of an array. -/
def Items.firstAt (p : Literal → Bool) (start : Nat) : Items → Option (Nat × Value)
  | .last before value _ => value.firstAt p (start + before.val.length)
  | .cons before value after rest =>
    (value.firstAt p (start + before.val.length)).or
      (rest.firstAt p (start + before.val.length + value.text.length + after.val.length + 1))

/-- The first named value among members and below them. -/
def Members.firstAt (p : Literal → Bool) (start : Nat) : Members → Option (Nat × Value)
  | .last name value _ =>
    if p name.key then some (start + name.text.length, value)
    else value.firstAt p (start + name.text.length)
  | .cons name value after rest =>
    if p name.key then some (start + name.text.length, value)
    else (value.firstAt p (start + name.text.length)).or
      (rest.firstAt p (start + name.text.length + value.text.length + after.val.length + 1))

end

/-- Before the first member whose name satisfies `p`, no value holds such a member. -/
def Members.firstIsDirect (p : Literal → Bool) : Members → Bool
  | .last name value _ => p name.key || (value.firstNamed p).isNone
  | .cons name value _ rest =>
    p name.key || ((value.firstNamed p).isNone && rest.firstIsDirect p)

/-- The first value under a name satisfying `p` belongs to a direct member. -/
def Value.firstIsDirect (p : Literal → Bool) : Value → Bool
  | .object members => members.firstIsDirect p
  | v => (v.firstNamed p).isNone

section

variable {p : Literal → Bool}

mutual

/-- The value found with its offset is the first named value. -/
theorem Value.snd_firstAt (start : Nat) (v : Value) :
    (v.firstAt p start).map Prod.snd = v.firstNamed p := by
  cases v with
  | array items => exact items.snd_firstAt _
  | object members => exact members.snd_firstAt _
  | scalar t => rfl
  | string l => rfl
  | emptyArray w => rfl
  | emptyObject w => rfl

/-- The same below items. -/
theorem Items.snd_firstAt (start : Nat) (items : Items) :
    (items.firstAt p start).map Prod.snd = items.firstNamed p := by
  cases items with
  | last w v w' => exact v.snd_firstAt _
  | cons w v w' rest =>
    rw [Items.firstAt, Items.firstNamed, Option.map_or, v.snd_firstAt, rest.snd_firstAt]

/-- The same among members. -/
theorem Members.snd_firstAt (start : Nat) (members : Members) :
    (members.firstAt p start).map Prod.snd = members.firstNamed p := by
  cases members with
  | last n v w =>
    rw [Members.firstAt, Members.firstNamed]
    split
    · rfl
    · exact v.snd_firstAt _
  | cons n v w rest =>
    rw [Members.firstAt, Members.firstNamed]
    split
    · rfl
    · rw [Option.map_or, v.snd_firstAt, rest.snd_firstAt]

end

/-- Nothing is found with an offset where nothing is named. -/
theorem Value.firstAt_eq_none {v : Value} (start : Nat) :
    v.firstAt p start = none ↔ v.firstNamed p = none := by
  rw [← v.snd_firstAt start, Option.map_eq_none_iff]

mutual

/-- A value found below another one lies inside it. -/
theorem Value.firstAt_bounds {start o : Nat} (v : Value) {w : Value}
    (h : v.firstAt p start = some (o, w)) :
    start < o ∧ o + w.text.length ≤ start + v.text.length := by
  cases v with
  | array items =>
    have hb := items.firstAt_bounds h
    simp only [Value.text, List.length_cons, List.length_append, List.length_nil]
    omega
  | object members =>
    have hb := members.firstAt_bounds h
    simp only [Value.text, List.length_cons, List.length_append, List.length_nil]
    omega
  | scalar t => cases h
  | string l => cases h
  | emptyArray w => cases h
  | emptyObject w => cases h

/-- A value found below items lies inside them. -/
theorem Items.firstAt_bounds {start o : Nat} {w : Value} (items : Items)
    (h : items.firstAt p start = some (o, w)) :
    start ≤ o ∧ o + w.text.length ≤ start + items.text.length := by
  cases items with
  | last s v s' =>
    have hb := v.firstAt_bounds h
    simp only [Items.text, List.length_append]
    omega
  | cons s v s' rest =>
    simp only [Items.text, List.length_append, List.length_cons]
    rcases Option.or_eq_some_iff.mp h with h | ⟨-, h⟩
    · have hb := v.firstAt_bounds h
      omega
    · have hb := rest.firstAt_bounds h
      omega

/-- A value found among members lies inside them. -/
theorem Members.firstAt_bounds {start o : Nat} {w : Value} (members : Members)
    (h : members.firstAt p start = some (o, w)) :
    start ≤ o ∧ o + w.text.length ≤ start + members.text.length := by
  cases members with
  | last n v s =>
    simp only [Members.text, List.length_append]
    rw [Members.firstAt] at h
    split at h
    · cases h
      omega
    · have hb := v.firstAt_bounds h
      omega
  | cons n v s rest =>
    simp only [Members.text, List.length_append, List.length_cons]
    rw [Members.firstAt] at h
    split at h
    · cases h
      omega
    · rcases Option.or_eq_some_iff.mp h with h | ⟨-, h⟩
      · have hb := v.firstAt_bounds h
        omega
      · have hb := rest.firstAt_bounds h
        omega

end

private theorem Members.le_of_mem_direct {start : Nat} {m : Nat × Literal × Value}
    (members : Members) (h : m ∈ members.direct start) : start ≤ m.1 := by
  cases members with
  | last n v s =>
    obtain rfl := List.mem_singleton.mp h
    omega
  | cons n v s rest =>
    rcases List.mem_cons.mp h with rfl | h
    · omega
    · have hle := rest.le_of_mem_direct h
      omega

private theorem Members.firstAt_direct (start : Nat) (members : Members)
    (h : members.firstIsDirect p = true) :
    members.firstAt p start =
      ((members.direct start).find? (fun m ↦ p m.2.1)).map (fun m ↦ (m.1, m.2.2)) := by
  cases members with
  | last n v s =>
    rw [Members.firstIsDirect] at h
    rw [Members.firstAt, Members.direct, List.find?_cons]
    cases hp : p n.key with
    | true => rfl
    | false =>
      rw [hp, Bool.false_or, Option.isNone_iff_eq_none] at h
      exact (Value.firstAt_eq_none _).mpr h
  | cons n v s rest =>
    rw [Members.firstIsDirect] at h
    rw [Members.firstAt, Members.direct, List.find?_cons]
    cases hp : p n.key with
    | true => rfl
    | false =>
      rw [hp, Bool.false_or, Bool.and_eq_true, Option.isNone_iff_eq_none] at h
      simp only [Bool.false_eq_true, if_false, (Value.firstAt_eq_none _).mpr h.1, Option.none_or]
      exact rest.firstAt_direct _ h.2

/-- When the first value under a name belongs to a direct member, it is found there. -/
theorem Value.firstAt_direct (start : Nat) {v : Value} (h : v.firstIsDirect p = true) :
    v.firstAt p start =
      ((v.direct start).find? (fun m ↦ p m.2.1)).map (fun m ↦ (m.1, m.2.2)) := by
  cases v with
  | object members => exact members.firstAt_direct _ h
  | array items =>
    exact (Value.firstAt_eq_none (v := .array items) start).mpr (Option.isNone_iff_eq_none.mp h)
  | scalar t => rfl
  | string l => rfl
  | emptyArray w => rfl
  | emptyObject w => rfl

private theorem Members.firstAt_nested (start : Nat) (members : Members)
    (h : members.firstIsDirect p = false) :
    ∃ o w, members.firstAt p start = some (o, w) ∧ ∀ m ∈ members.direct start, m.1 ≠ o := by
  have hinside : ∀ (v : Value) (o : Nat), v.firstNamed p ≠ none →
      ∃ o' w, v.firstAt p o = some (o', w) := by
    intro v o hv
    obtain ⟨⟨o', w⟩, hf⟩ :=
      Option.ne_none_iff_exists'.mp (mt (Value.firstAt_eq_none (p := p) o).mp hv)
    exact ⟨o', w, hf⟩
  cases members with
  | last n v s =>
    simp only [Members.firstIsDirect, Bool.or_eq_false_iff, Option.isNone_eq_false_iff,
      Option.isSome_iff_ne_none] at h
    obtain ⟨o, w, hf⟩ := hinside v (start + n.text.length) h.2
    refine ⟨o, w, ?_, ?_⟩
    · rw [Members.firstAt, h.1]
      exact hf
    · intro m hm
      obtain rfl := List.mem_singleton.mp hm
      exact (v.firstAt_bounds hf).1.ne
  | cons n v s rest =>
    simp only [Members.firstIsDirect, Bool.or_eq_false_iff, Bool.and_eq_false_iff,
      Option.isNone_eq_false_iff, Option.isSome_iff_ne_none] at h
    rw [Members.firstAt, h.1]
    simp only [Bool.false_eq_true, if_false, Members.direct]
    by_cases hv : v.firstNamed p = none
    · -- The first value under the name is behind this member.
      obtain ⟨o, w, hf, hne⟩ := rest.firstAt_nested
        (start + n.text.length + v.text.length + s.val.length + 1)
        (h.2.resolve_left (fun hn ↦ hn hv))
      refine ⟨o, w, by rw [(Value.firstAt_eq_none _).mpr hv, Option.none_or, hf], ?_⟩
      intro m hm
      rcases List.mem_cons.mp hm with rfl | hm
      · have hb := (rest.firstAt_bounds hf).1
        simp only
        omega
      · exact hne m hm
    · -- It is inside the value of this member.
      obtain ⟨o, w, hf⟩ := hinside v (start + n.text.length) hv
      have hb := v.firstAt_bounds hf
      have hw : 0 < w.text.length := by
        obtain ⟨b, text, ht, -⟩ := w.text_head
        simp [ht]
      refine ⟨o, w, by rw [hf, Option.some_or], ?_⟩
      intro m hm
      rcases List.mem_cons.mp hm with rfl | hm
      · exact hb.1.ne
      · have hle := rest.le_of_mem_direct hm
        omega

/-- Otherwise the value found first is none of the direct members. -/
theorem Value.firstAt_nested (start : Nat) {v : Value} (ho : v.isObject = true)
    (h : v.firstIsDirect p = false) :
    ∃ o w, v.firstAt p start = some (o, w) ∧ ∀ m ∈ v.direct start, m.1 ≠ o := by
  cases v with
  | object members => exact members.firstAt_nested _ h
  | emptyObject w => cases h
  | scalar t => cases ho
  | string l => cases ho
  | emptyArray w => cases ho
  | array items => cases ho

/-- When the first value under a name belongs to a direct member, it is the first of these. -/
theorem Value.firstNamed_direct {v : Value} (h : v.firstIsDirect p = true) :
    v.firstNamed p = v.directNamed p := by
  rw [← v.snd_firstAt 0, v.firstAt_direct 0 h, Option.map_map]
  exact v.find?_direct p 0

end

end Json
