import Mathlib.Data.List.Induction
import Mathlib.Data.List.Nodup

/-!
# Ledgers of handles

A ledger lists in order what is created, used and destroyed. It is lawful when no entry names a
handle that is not there, and disciplined when moreover all that it creates is destroyed.
-/

namespace Ledger

variable {ι κ ω : Type}

/-- An entry of a ledger. A use names its handles, none where a null handle is passed. -/
inductive Entry (ι κ ω : Type) where
  | create (id : ι) (what : κ)
  | use (op : ω) (ids : List (Option ι))
  | destroy (id : ι)

/-- The handle that an entry creates. -/
def Entry.created? : Entry ι κ ω → Option ι
  | .create id _ => some id
  | .use _ _ => none
  | .destroy _ => none

/-- The handle that an entry destroys. -/
def Entry.destroyed? : Entry ι κ ω → Option ι
  | .create _ _ => none
  | .use _ _ => none
  | .destroy id => some id

/-- The handles that are created, in order. -/
def created (log : List (Entry ι κ ω)) : List ι := log.filterMap Entry.created?

/-- The handles that are destroyed, in order. -/
def destroyed (log : List (Entry ι κ ω)) : List ι := log.filterMap Entry.destroyed?

/-- A handle was created with a content and is not destroyed. -/
def Live (log : List (Entry ι κ ω)) (id : ι) (what : κ) : Prop :=
  .create id what ∈ log ∧ id ∉ destroyed log

/-- The entry may follow the log: it creates something new, or all that it names is there. -/
def Entry.Follows (log : List (Entry ι κ ω)) : Entry ι κ ω → Prop
  | .create id _ => id ∉ created log
  | .use _ ids => ∀ h ∈ ids, ∃ id what, h = some id ∧ Live log id what
  | .destroy id => ∃ what, Live log id what

/-- Every entry may follow the entries before it. -/
def Lawful (log : List (Entry ι κ ω)) : Prop :=
  ∀ before e after, log = before ++ e :: after → e.Follows before

/-- The log is lawful, and all that it creates is destroyed. -/
structure Disciplined (log : List (Entry ι κ ω)) : Prop where
  lawful : Lawful log
  createdOnce : (created log).Nodup
  destroyedOnce : (destroyed log).Nodup
  balanced : ∀ id, id ∈ created log ↔ id ∈ destroyed log

variable {log : List (Entry ι κ ω)} {e : Entry ι κ ω} {id id' : ι} {what what' : κ}

/-! ### What is there -/

/-- What one more entry creates comes last. -/
theorem created_concat : created (log ++ [e]) = created log ++ e.created?.toList := by
  rw [created, created, List.filterMap_append]
  cases e <;> rfl

/-- What one more entry destroys comes last. -/
theorem destroyed_concat : destroyed (log ++ [e]) = destroyed log ++ e.destroyed?.toList := by
  rw [destroyed, destroyed, List.filterMap_append]
  cases e <;> rfl

/-- An identifier is created when an entry says so. -/
theorem mem_created_iff : id ∈ created log ↔ ∃ what, .create id what ∈ log := by
  rw [created, List.mem_filterMap]
  constructor
  · rintro ⟨e, he, hid⟩
    cases e with
    | create id' what =>
      obtain rfl := Option.some.inj hid
      exact ⟨what, he⟩
    | use op ids => cases hid
    | destroy id' => cases hid
  · rintro ⟨what, h⟩
    exact ⟨_, h, rfl⟩

/-- What is live was created. -/
theorem Live.mem_created (h : Live log id what) : id ∈ created log :=
  mem_created_iff.mpr ⟨what, h.1⟩

/-- A use leaves what is there. -/
theorem live_concat_use {op : ω} {ids : List (Option ι)} :
    Live (log ++ [.use op ids]) id what ↔ Live log id what := by
  simp [Live, destroyed_concat, Entry.destroyed?]

/-- A creation adds one handle to what is there. -/
theorem live_concat_create (h : id' ∉ destroyed log) :
    Live (log ++ [.create id' what']) id what ↔
      Live log id what ∨ (id = id' ∧ what = what') := by
  simp only [Live, destroyed_concat, Entry.destroyed?, Option.toList_none, List.append_nil,
    List.mem_append, List.mem_singleton, Entry.create.injEq]
  constructor
  · rintro ⟨hm | heq, hd⟩
    · exact .inl ⟨hm, hd⟩
    · exact .inr heq
  · rintro (⟨hm, hd⟩ | ⟨rfl, rfl⟩)
    · exact ⟨.inl hm, hd⟩
    · exact ⟨.inr ⟨rfl, rfl⟩, h⟩

/-- A destruction takes one handle from what is there. -/
theorem live_concat_destroy :
    Live (log ++ [.destroy id']) id what ↔ Live log id what ∧ id ≠ id' := by
  simp only [Live, destroyed_concat, Entry.destroyed?, Option.toList_some, List.mem_append,
    List.mem_singleton, reduceCtorEq, or_false, not_or]
  exact and_assoc.symm

/-! ### Lawful ledgers -/

/-- The empty log is lawful. -/
theorem lawful_nil : Lawful ([] : List (Entry ι κ ω)) := by
  intro before e after h
  cases before <;> cases h

/-- A lawful log stays lawful with an entry that may follow it, and only so. -/
theorem lawful_concat : Lawful (log ++ [e]) ↔ Lawful log ∧ e.Follows log := by
  constructor
  · intro h
    refine ⟨?_, h log e [] rfl⟩
    rintro before e' after rfl
    exact h before e' (after ++ [e]) (by simp)
  · rintro ⟨h, he⟩ before e' after heq
    rcases List.eq_nil_or_concat after with rfl | ⟨after, last, rfl⟩
    · obtain ⟨rfl, hlast⟩ := List.append_inj' heq rfl
      obtain rfl := List.singleton_inj.mp hlast
      exact he
    · rw [List.concat_eq_append, ← List.cons_append, ← List.append_assoc] at heq
      exact h before e' after (List.append_inj' heq rfl).1

/-- A lawful log destroys only what it created. -/
theorem Lawful.created_of_destroyed (h : Lawful log) (hd : id ∈ destroyed log) :
    id ∈ created log := by
  induction log using List.reverseRecOn with
  | nil => cases hd
  | append_singleton log e ih =>
    obtain ⟨hlog, he⟩ := lawful_concat.mp h
    rw [destroyed_concat, List.mem_append] at hd
    rw [created_concat, List.mem_append]
    rcases hd with hd | hd
    · exact .inl (ih hlog hd)
    · cases e with
      | create id' what => cases hd
      | use op ids => cases hd
      | destroy id' =>
        obtain rfl := List.mem_singleton.mp hd
        obtain ⟨what, hlive⟩ := he
        exact .inl hlive.mem_created

/-- A lawful log creates no handle twice. -/
theorem Lawful.createdOnce (h : Lawful log) : (created log).Nodup := by
  induction log using List.reverseRecOn with
  | nil => exact List.nodup_nil
  | append_singleton log e ih =>
    obtain ⟨hlog, he⟩ := lawful_concat.mp h
    rw [created_concat]
    cases e with
    | create id' what =>
      rw [Entry.created?, Option.toList_some, ← List.concat_eq_append]
      exact (ih hlog).concat he
    | use op ids => simpa [Entry.created?] using ih hlog
    | destroy id' => simpa [Entry.created?] using ih hlog

/-- A lawful log destroys no handle twice. -/
theorem Lawful.destroyedOnce (h : Lawful log) : (destroyed log).Nodup := by
  induction log using List.reverseRecOn with
  | nil => exact List.nodup_nil
  | append_singleton log e ih =>
    obtain ⟨hlog, he⟩ := lawful_concat.mp h
    rw [destroyed_concat]
    cases e with
    | create id' what => simpa [Entry.destroyed?] using ih hlog
    | use op ids => simpa [Entry.destroyed?] using ih hlog
    | destroy id' =>
      obtain ⟨what, hlive⟩ := he
      rw [Entry.destroyed?, Option.toList_some, ← List.concat_eq_append]
      exact (ih hlog).concat hlive.2

/-- The content of a handle is the one it was created with. -/
theorem Lawful.content_unique (h : Lawful log) (hw : .create id what ∈ log)
    (hw' : .create id what' ∈ log) : what = what' := by
  induction log using List.reverseRecOn with
  | nil => cases hw
  | append_singleton log e ih =>
    obtain ⟨hlog, he⟩ := lawful_concat.mp h
    rw [List.mem_append, List.mem_singleton] at hw hw'
    rcases hw with hw | rfl
    · rcases hw' with hw' | rfl
      · exact ih hlog hw hw'
      · exact absurd (mem_created_iff.mpr ⟨_, hw⟩) he
    · rcases hw' with hw' | hw'
      · exact absurd (mem_created_iff.mpr ⟨_, hw'⟩) he
      · exact (Entry.create.inj hw').2.symm

/-- A lawful log with nothing left is disciplined. -/
theorem Lawful.disciplined (h : Lawful log) (hnone : ∀ id what, ¬ Live log id what) :
    Disciplined log := by
  refine ⟨h, h.createdOnce, h.destroyedOnce, fun id ↦ ⟨?_, h.created_of_destroyed⟩⟩
  intro hc
  obtain ⟨what, hw⟩ := mem_created_iff.mp hc
  by_contra hd
  exact hnone id what ⟨hw, hd⟩

end Ledger
