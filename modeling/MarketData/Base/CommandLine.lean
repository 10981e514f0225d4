import Mathlib.Data.List.Basic

/-!
# Command lines

A program reads its arguments from left to right. An option stands alone, or it takes the argument
behind it as its value, whatever that argument looks like. What the options say at the end follows
from the options that occur.
-/

namespace CommandLine

variable {α ω ε β : Type} {o o' : ω}

/-- What an option does: it ends the reading, changes the options, or does so with a value. -/
inductive Action (α ω ε : Type) where
  | stop
  | switch (set : ω → ω)
  | value (read : α → ω → Except ε ω)

/-- The option is set to what a text reads as. -/
def setting (read : α → Except ε β) (set : β → ω → ω) : Action α ω ε :=
  .value fun text o ↦ (set · o) <$> read text

/-- The option leaves a part of the options as it is. -/
def Action.Keeps (part : ω → β) : Action α ω ε → Prop
  | .stop => True
  | .switch set => ∀ o, part (set o) = part o
  | .value read => ∀ text o o', read text o = .ok o' → part o' = part o

/-- An option that ends the parsing changes nothing. -/
@[simp] theorem keeps_stop (part : ω → β) : (Action.stop : Action α ω ε).Keeps part := trivial

/-- A switch keeps what its setter keeps. -/
@[simp] theorem keeps_switch {part : ω → β} {set : ω → ω} :
    (Action.switch set : Action α ω ε).Keeps part ↔ ∀ o, part (set o) = part o :=
  Iff.rfl

private theorem map_ok {γ : Type} {x : Except ε β} {f : β → γ} {c : γ} (h : f <$> x = .ok c) :
    ∃ b, x = .ok b ∧ f b = c := by
  cases x with
  | error e => cases h
  | ok b => exact ⟨b, rfl, Except.ok.inj h⟩

/-- A setting keeps every part that it does not write. -/
@[simp] theorem keeps_setting {γ : Type} {part : ω → γ} {read : α → Except ε β} {set : β → ω → ω}
    (h : ∀ b o, part (set b o) = part o) : (setting read set : Action α ω ε).Keeps part := by
  intro text o o' hread
  obtain ⟨b, -, rfl⟩ := map_ok hread
  exact h b o

/-- The options of a program, and its errors for a missing value and for an unknown option. -/
structure Grammar (α ω ε : Type) where
  options : List (α × Action α ω ε)
  missing : α → ε
  unknown : α → ε

variable [DecidableEq α] (g : Grammar α ω ε)

/-- What a token does as an option. -/
def Grammar.action (token : α) : Option (Action α ω ε) :=
  (g.options.find? (·.1 = token)).map Prod.snd

/-- The options behind the arguments, unless an option ends the reading. -/
def Grammar.parse : List α → ω → Except ε (Option ω)
  | [], o => .ok (some o)
  | token :: rest, o =>
    match g.action token with
    | none => .error (g.unknown token)
    | some .stop => .ok none
    | some (.switch set) => Grammar.parse rest (set o)
    | some (.value read) =>
      match rest with
      | [] => .error (g.missing token)
      | text :: rest =>
        match read text o with
        | .error e => .error e
        | .ok o => Grammar.parse rest o

/-- The tokens in option position, each with the value that it takes. -/
def Grammar.occurrences : List α → List (α × Option α)
  | [] => []
  | token :: rest =>
    match g.action token with
    | some (.value _) =>
      match rest with
      | [] => [(token, none)]
      | text :: rest => (token, some text) :: Grammar.occurrences rest
    | _ => (token, none) :: Grammar.occurrences rest

/-- The token stands in option position. -/
def Grammar.Given (key : α) (args : List α) : Prop := key ∈ (g.occurrences args).map Prod.fst

/-- The values that a token takes, in their order. -/
def valuesOf (key : α) (occurrences : List (α × Option α)) : List α :=
  occurrences.filterMap fun occurrence ↦ if occurrence.1 = key then occurrence.2 else none

/-- The last value that a token takes. -/
def Grammar.lastValue (key : α) (args : List α) : Option α :=
  (valuesOf key (g.occurrences args)).getLast?

variable {g}

/-- A token that takes no value occurs alone. -/
theorem Grammar.occurrences_alone {token : α} {rest : List α}
    (h : ∀ read, g.action token ≠ some (.value read)) :
    g.occurrences (token :: rest) = (token, none) :: g.occurrences rest := by
  rw [Grammar.occurrences.eq_def]
  cases haction : g.action token with
  | none => simp only [haction]
  | some action =>
    cases action with
    | stop => simp only [haction]
    | switch set => simp only [haction]
    | value read => exact absurd haction (h read)

/-- A token that takes a value occurs with the text behind it. -/
theorem Grammar.occurrences_value {token text : α} {rest : List α}
    {read : α → ω → Except ε ω} (h : g.action token = some (.value read)) :
    g.occurrences (token :: text :: rest) = (token, some text) :: g.occurrences rest := by
  rw [Grammar.occurrences, h]

/-- What holds of the options at the start, and what every option that occurs preserves, holds at
the end of the occurrences. -/
theorem Grammar.parse_invariant {args : List α} {I : List (α × Option α) → ω → Prop}
    (start : I [] o)
    (switch : ∀ past token set o, g.action token = some (.switch set) → I past o →
      I (past ++ [(token, none)]) (set o))
    (value : ∀ past token read text o o', g.action token = some (.value read) →
      read text o = .ok o' → I past o → I (past ++ [(token, some text)]) o')
    (h : g.parse args o = .ok (some o')) : I (g.occurrences args) o' := by
  suffices hrun : ∀ past, I past o → I (past ++ g.occurrences args) o' by
    simpa using hrun [] start
  clear start
  fun_induction Grammar.parse g args o with
  | case1 o =>
    intro past hpast
    obtain rfl := Option.some.inj (Except.ok.inj h)
    rwa [Grammar.occurrences, List.append_nil]
  | case4 token rest o set haction ih =>
    intro past hpast
    have hend := ih h _ (switch past token set o haction hpast)
    rwa [List.append_assoc, List.singleton_append, ← occurrences_alone (by simp [haction])] at hend
  | case7 token o read haction text rest o₁ hread ih =>
    intro past hpast
    have hend := ih h _ (value past token read text o o₁ haction hread hpast)
    rwa [List.append_assoc, List.singleton_append, ← occurrences_value haction] at hend
  | case2 | case3 | case5 | case6 => cases h

/-! ### Single options -/

/-- The options other than the one with this token leave a part of the options as it is. -/
def Grammar.OnlySetBy (g : Grammar α ω ε) (part : ω → β) (key : α) : Prop :=
  ∀ entry ∈ g.options, entry.1 ≠ key → entry.2.Keeps part

variable {key : α} {args : List α}

/-- What a token does is what its entry says. -/
theorem Grammar.mem_of_action {token : α} {action : Action α ω ε}
    (h : g.action token = some action) : (token, action) ∈ g.options := by
  obtain ⟨entry, hentry, rfl⟩ := Option.map_eq_some_iff.mp h
  have htoken : entry.1 = token := by simpa using List.find?_some hentry
  subst htoken
  exact List.mem_of_find?_eq_some hentry

/-- A part that no option writes stays. -/
theorem Grammar.parse_kept {part : ω → β} (hg : ∀ entry ∈ g.options, entry.2.Keeps part)
    (h : g.parse args o = .ok (some o')) : part o' = part o := by
  refine Grammar.parse_invariant (I := fun _ o' ↦ part o' = part o) rfl ?_ ?_ h
  · intro past token set o₁ htoken hpast
    rw [← hpast]
    exact hg _ (Grammar.mem_of_action htoken) o₁
  · intro past token read text o₁ o₂ htoken hread hpast
    rw [← hpast]
    exact hg _ (Grammar.mem_of_action htoken) text o₁ o₂ hread

private theorem keeps_of_action {part : ω → β} (hg : g.OnlySetBy part key) {token : α}
    {action : Action α ω ε} (h : g.action token = some action) (hne : token ≠ key) :
    action.Keeps part :=
  hg _ (Grammar.mem_of_action h) hne

/-- A flag is set when it was set before or its token occurs. -/
theorem Grammar.parse_flag {flag : ω → Bool} {set : ω → ω}
    (haction : g.action key = some (.switch set)) (hset : ∀ o, flag (set o) = true)
    (hg : g.OnlySetBy flag key) (h : g.parse args o = .ok (some o')) :
    flag o' = true ↔ flag o = true ∨ g.Given key args := by
  refine Grammar.parse_invariant
    (I := fun past o' ↦ flag o' = true ↔ flag o = true ∨ key ∈ past.map Prod.fst) (by simp) ?_ ?_ h
  · intro past token set' o₁ htoken hpast
    rw [List.map_append, List.mem_append, ← or_assoc, ← hpast]
    by_cases hkey : token = key
    · subst hkey
      obtain rfl := Action.switch.inj (Option.some.inj (haction.symm.trans htoken))
      simp [hset]
    · simp [show flag (set' o₁) = flag o₁ from keeps_of_action hg htoken hkey o₁, Ne.symm hkey]
  · intro past token read text o₁ o₂ htoken hread hpast
    rw [List.map_append, List.mem_append, ← or_assoc, ← hpast]
    have hkey : token ≠ key := by
      rintro rfl
      cases haction.symm.trans htoken
    simp [show flag o₂ = flag o₁ from keeps_of_action hg htoken hkey text o₁ o₂ hread,
      Ne.symm hkey]

@[simp] private theorem valuesOf_concat (past : List (α × Option α)) (token : α)
    (value : Option α) : valuesOf key (past ++ [(token, value)]) =
      valuesOf key past ++ if token = key then value.toList else [] := by
  rw [valuesOf, List.filterMap_append]
  split
  · cases value <;> simp_all [valuesOf]
  · simp_all [valuesOf]

/-- What an option sets is read from its last value, or stays when there is none. -/
theorem Grammar.parse_lastValue {part : ω → β} {read : α → Except ε β} {set : β → ω → ω}
    (haction : g.action key = some (setting read set)) (hset : ∀ b o, part (set b o) = b)
    (hg : g.OnlySetBy part key) (h : g.parse args o = .ok (some o')) :
    (g.lastValue key args).elim (.ok (part o)) read = .ok (part o') := by
  refine Grammar.parse_invariant (I := fun past o' ↦
    (valuesOf key past).getLast?.elim (.ok (part o)) read = .ok (part o')) rfl ?_ ?_ h
  · intro past token set' o₁ htoken hpast
    have hkey : token ≠ key := by
      rintro rfl
      cases haction.symm.trans htoken
    rw [valuesOf_concat, if_neg hkey, List.append_nil, hpast]
    exact congrArg _ (keeps_of_action hg htoken hkey o₁).symm
  · intro past token read' text o₁ o₂ htoken hread hpast
    rw [valuesOf_concat]
    by_cases hkey : token = key
    · subst hkey
      obtain rfl := Action.value.inj (Option.some.inj (haction.symm.trans htoken))
      obtain ⟨b, hb, rfl⟩ := map_ok hread
      rw [if_pos rfl, Option.toList_some, List.getLast?_concat, Option.elim_some, hb, hset]
    · rw [if_neg hkey, List.append_nil, hpast]
      exact congrArg _ (keeps_of_action hg htoken hkey text o₁ o₂ hread).symm

private theorem Grammar.occurrences_behind {text : α} {read : α → ω → Except ε ω}
    (haction : g.action key = some (.value read)) (htext : g.action text = none)
    (h : g.parse (args ++ [key, text]) o = .ok (some o')) :
    ∃ past, g.occurrences (args ++ [key, text]) = past ++ [(key, some text)] := by
  fun_induction Grammar.parse g args o with
  | case1 o => exact ⟨[], occurrences_value haction⟩
  | case2 token rest o hnone =>
    rw [List.cons_append, Grammar.parse.eq_def] at h
    simp [hnone] at h
  | case3 token rest o hstop =>
    rw [List.cons_append, Grammar.parse.eq_def] at h
    simp [hstop] at h
  | case4 token rest o set hswitch ih =>
    rw [List.cons_append, Grammar.parse.eq_def] at h
    simp only [hswitch] at h
    obtain ⟨past, hpast⟩ := ih h
    exact ⟨(token, none) :: past, by
      rw [List.cons_append, occurrences_alone (by simp [hswitch]), hpast, List.cons_append]⟩
  | case5 token o read' hvalue =>
    -- The last option would take the key as its value, and the text would be unknown.
    simp only [List.cons_append, List.nil_append, Grammar.parse, hvalue, htext] at h
    split at h <;> cases h
  | case6 token o read' hvalue text' rest e hread =>
    simp [Grammar.parse, hvalue, hread] at h
  | case7 token o read' hvalue text' rest o₁ hread ih =>
    simp only [List.cons_append, Grammar.parse, hvalue, hread] at h
    obtain ⟨past, hpast⟩ := ih h
    exact ⟨(token, some text') :: past, by
      rw [List.cons_append, List.cons_append, occurrences_value hvalue, hpast, List.cons_append]⟩

/-- The value of an option behind all other arguments is the last one, when all of them are read and
the value is no option itself. -/
theorem Grammar.lastValue_behind {text : α} {read : α → ω → Except ε ω}
    (haction : g.action key = some (.value read)) (htext : g.action text = none)
    (h : g.parse (args ++ [key, text]) o = .ok (some o')) :
    g.lastValue key (args ++ [key, text]) = some text := by
  obtain ⟨past, hpast⟩ := Grammar.occurrences_behind haction htext h
  rw [Grammar.lastValue, hpast, valuesOf_concat, if_pos rfl, Option.toList_some,
    List.getLast?_concat]

end CommandLine
