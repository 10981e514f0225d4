import MarketData.Json.Lookup
import MarketData.Json.Strings
import Mathlib.Data.Option.Basic

/-!
# Permuted members

Two trees that differ only in the order of the members of their objects, at any depth.
Where no two members of an object have a name that is looked up, the lookup does not see the
order.
-/

namespace Json

open ByteText

/-- A member of an object: its name, its value and the whitespace behind it. -/
abbrev Member : Type := Name × Value × Space

/-- The members of an object in text order. -/
def Members.toList : Members → List Member
  | .last name value after => [(name, value, after)]
  | .cons name value after rest => (name, value, after) :: rest.toList

mutual

/-- The second value is the first one with the members of its objects in another order. -/
def Value.Permuted : Value → Value → Prop
  | .array items, w => ∃ others, w = .array others ∧ items.Permuted others
  | .object members, w => ∃ others : Members, w = .object others ∧ members.Permuted others.toList
  | v, w => w = v

/-- The items keep their order. -/
def Items.Permuted : Items → Items → Prop
  | .last before value after, others =>
    ∃ value', others = .last before value' after ∧ value.Permuted value'
  | .cons before value after rest, others =>
    ∃ value' rest', others = .cons before value' after rest' ∧ value.Permuted value' ∧
      rest.Permuted rest'

/-- Every member stands somewhere among the others. -/
def Members.Permuted : Members → List Member → Prop
  | .last name value after, others =>
    ∃ value', others = [(name, value', after)] ∧ value.Permuted value'
  | .cons name value after rest, others =>
    ∃ front value' back, others = front ++ (name, value', after) :: back ∧
      value.Permuted value' ∧ rest.Permuted (front ++ back)

end

mutual

/-- The members may stay where they are. -/
theorem Value.Permuted.refl (v : Value) : v.Permuted v := by
  cases v with
  | array items => exact ⟨items, rfl, Items.Permuted.refl items⟩
  | object members => exact ⟨members, rfl, Members.Permuted.refl members⟩
  | scalar t => rfl
  | string l => rfl
  | emptyArray w => rfl
  | emptyObject w => rfl

/-- The same for items. -/
theorem Items.Permuted.refl (items : Items) : items.Permuted items := by
  cases items with
  | last s v s' => exact ⟨v, rfl, Value.Permuted.refl v⟩
  | cons s v s' rest => exact ⟨v, rest, rfl, Value.Permuted.refl v, Items.Permuted.refl rest⟩

/-- The same for members. -/
theorem Members.Permuted.refl (members : Members) : members.Permuted members.toList := by
  cases members with
  | last n v s => exact ⟨v, rfl, Value.Permuted.refl v⟩
  | cons n v s rest =>
    exact ⟨[], v, rest.toList, rfl, Value.Permuted.refl v, Members.Permuted.refl rest⟩

end

/-- Members in another order are permuted members. -/
theorem Members.Permuted.of_perm {members : Members} {others : List Member}
    (h : members.toList.Perm others) : members.Permuted others := by
  induction members using Members.toList.induct generalizing others with
  | case1 n v s =>
    obtain rfl := List.singleton_perm.mp h
    exact ⟨v, rfl, Value.Permuted.refl v⟩
  | case2 n v s rest ih =>
    obtain ⟨front, back, rfl⟩ := List.append_of_mem (h.subset (List.mem_cons_self ..))
    refine ⟨front, v, back, rfl, Value.Permuted.refl v, ih ?_⟩
    exact (List.perm_cons _).mp (h.trans List.perm_middle)

/-! ### Lookups -/

/-- The names of the direct members of a value. -/
def Value.names : Value → List Literal
  | .object members => members.toList.map (fun m ↦ m.1.key)
  | _ => []

/-- At most one direct member has such a name. -/
def Value.NamedOnce (v : Value) (p : Literal → Bool) : Prop := v.names.countP p ≤ 1

/-- The members are counted. -/
instance (v : Value) (p : Literal → Bool) : Decidable (v.NamedOnce p) :=
  inferInstanceAs (Decidable (_ ≤ _))

private theorem eq_of_countP_le_one {α : Type} {p : α → Bool} {xs : List α} {x y : α}
    (h : xs.countP p ≤ 1) (hx : x ∈ xs) (hy : y ∈ xs) (hpx : p x = true) (hpy : p y = true) :
    x = y := by
  obtain ⟨front, back, rfl⟩ := List.append_of_mem hx
  have hrest : (front ++ back).countP p = 0 := by
    simp only [List.countP_append, List.countP_cons_of_pos hpx] at h ⊢
    omega
  have hnone := List.countP_eq_zero.mp hrest
  rcases List.mem_append.mp hy with hfront | hback
  · exact absurd hpy (hnone y (List.mem_append_left _ hfront))
  · rcases List.mem_cons.mp hback with rfl | hback
    · rfl
    · exact absurd hpy (hnone y (List.mem_append_right _ hback))

private theorem Members.directNamed_toList (p : Literal → Bool) (members : Members) :
    members.directNamed p = (members.toList.find? (fun m ↦ p m.1.key)).map (fun m ↦ m.2.1) := by
  induction members using Members.toList.induct with
  | case1 n v s =>
    rw [Members.directNamed, Members.toList, List.find?_cons]
    cases p n.key <;> rfl
  | case2 n v s rest ih =>
    rw [Members.directNamed, Members.toList, List.find?_cons]
    cases p n.key
    · exact ih
    · rfl

private theorem Members.Permuted.perm_names {members : Members} {others : List Member}
    (h : members.Permuted others) :
    (members.toList.map Prod.fst).Perm (others.map Prod.fst) := by
  induction members using Members.toList.induct generalizing others with
  | case1 n v s =>
    obtain ⟨v', rfl, -⟩ := h
    exact .refl _
  | case2 n v s rest ih =>
    obtain ⟨front, v', back, rfl, -, hrest⟩ := h
    simpa [Members.toList] using ((ih hrest).cons n).trans (by simp [List.perm_middle.symm])

private theorem Members.Permuted.exists_mem {members : Members} {others : List Member}
    (h : members.Permuted others) {m : Member} (hm : m ∈ members.toList) :
    ∃ v', (m.1, v', m.2.2) ∈ others ∧ m.2.1.Permuted v' := by
  induction members using Members.toList.induct generalizing others with
  | case1 n v s =>
    obtain ⟨v', rfl, hv⟩ := h
    obtain rfl := List.mem_singleton.mp hm
    exact ⟨v', List.mem_singleton_self _, hv⟩
  | case2 n v s rest ih =>
    obtain ⟨front, v', back, rfl, hv, hrest⟩ := h
    rcases List.mem_cons.mp hm with rfl | hm
    · exact ⟨v', by simp, hv⟩
    · obtain ⟨w, hw, hp⟩ := ih hrest hm
      refine ⟨w, ?_, hp⟩
      rcases List.mem_append.mp hw with hw | hw
      · exact List.mem_append_left _ hw
      · exact List.mem_append_right _ (List.mem_cons_of_mem _ hw)

/-- Permuted objects hold permuted values under a name that no two members have. -/
theorem Value.Permuted.directNamed {v w : Value} {p : Literal → Bool} (h : v.Permuted w)
    (hd : v.NamedOnce p) :
    Option.Rel Value.Permuted (v.directNamed p) (w.directNamed p) := by
  cases v with
  | object members =>
    obtain ⟨others, rfl, hm⟩ := h
    have hperm := hm.perm_names
    have honce : others.toList.countP (fun m ↦ p m.1.key) ≤ 1 := by
      have hcount := hperm.countP_eq (fun n ↦ p n.key)
      simp only [List.countP_map, Function.comp_def] at hcount
      rw [Value.NamedOnce, Value.names, List.countP_map] at hd
      exact hcount ▸ hd
    rw [Value.directNamed, Value.directNamed, members.directNamed_toList,
      others.directNamed_toList]
    cases hf : members.toList.find? (fun m ↦ p m.1.key) with
    | none =>
      have hnone : others.toList.find? (fun m ↦ p m.1.key) = none := by
        rw [List.find?_eq_none] at hf ⊢
        intro m hmem
        obtain ⟨m', hm', he⟩ := List.mem_map.mp (hperm.symm.subset (List.mem_map_of_mem hmem))
        rw [← he]
        exact hf m' hm'
      rw [hnone]
      exact .none
    | some m =>
      obtain ⟨v', hv', hrel⟩ := hm.exists_mem (List.mem_of_find?_eq_some hf)
      have hpm : p m.1.key = true := List.find?_some (p := fun m : Member ↦ p m.1.key) hf
      obtain ⟨m', hf'⟩ : ∃ m', others.toList.find? (fun m ↦ p m.1.key) = some m' :=
        Option.isSome_iff_exists.mp (List.find?_isSome.mpr ⟨_, hv', hpm⟩)
      have hpm' : p m'.1.key = true := List.find?_some (p := fun m : Member ↦ p m.1.key) hf'
      obtain rfl : m' = (m.1, v', m.2.2) :=
        eq_of_countP_le_one honce (List.mem_of_find?_eq_some hf') hv' hpm' hpm
      rw [hf']
      exact .some hrel
  | array items =>
    obtain ⟨others, rfl, -⟩ := h
    exact .none
  | scalar t =>
    obtain rfl := h
    exact .none
  | string l =>
    obtain rfl := h
    exact .none
  | emptyArray s =>
    obtain rfl := h
    exact .none
  | emptyObject s =>
    obtain rfl := h
    exact .none

end Json
