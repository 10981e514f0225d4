import MarketData.Comparator.Lookup

/-!
# What the comparator's reader takes for JSON

A container is matched exactly when its contents are balanced, a value is passed over exactly
when it is a string, a container or a run up to a delimiter, and a lookup returns exactly the
values that the members before them lead to. Nothing else is looked at.
-/

namespace MarketData.Comparator

open ByteText Cpp Json

/-! ### Containers -/

-- The open containers are closed in turn, with balanced stretches in between.
private inductive Closes : Bytes → Bytes → Prop
  | nil : Closes [] []
  | cons {c : UInt8} {inside expected rest : Bytes} (hi : Balanced inside)
      (hr : Closes expected rest) : Closes (c :: expected) (inside ++ c :: rest)

section

variable {c b : UInt8} {s t expected : Bytes}

private theorem Closes.prepend (hs : Balanced s) (h : Closes (c :: expected) t) :
    Closes (c :: expected) (s ++ t) := by
  cases h with
  | cons hi hr =>
    rw [← List.append_assoc]
    exact .cons (hs.append hi) hr

private theorem Closes.opened (hb : b = openBrace ∨ b = openBracket)
    (h : Closes (closer b :: c :: expected) t) : Closes (c :: expected) (b :: t) := by
  cases h with
  | @cons _ inside _ rest hi hr =>
    have hcontainer : Balanced (b :: (inside ++ [closer b])) := by
      rcases hb with rfl | rfl
      · exact .braces hi .nil
      · exact .brackets hi .nil
    have h := hr.prepend hcontainer
    rwa [List.cons_append, List.append_assoc] at h

end

-- What the loop of `matching_delimiter` has passed closes the open containers.
private theorem closes_of_loop {text rest outer : Bytes} {cursor last : Nat} {top : UInt8}
    (hat : text.drop cursor = rest)
    (h : matchingDelimiterLoop text rest cursor 0 (top :: outer) = .ok last) :
    ∃ closed behind, rest = closed ++ behind ∧ Closes (top :: outer) closed ∧
      last + 1 = cursor + closed.length := by
  induction hn : rest.length using Nat.strong_induction_on generalizing rest cursor top outer with
  | _ n ih =>
    cases rest with
    | nil => cases h
    | cons c rest =>
      have hgo : ∀ {top : UInt8} {outer : Bytes},
          matchingDelimiterLoop text rest (cursor + 1) 0 (top :: outer) = .ok last →
          ∃ closed behind, rest = closed ++ behind ∧ Closes (top :: outer) closed ∧
            last + 1 = cursor + (c :: closed).length := by
        intro top outer h
        obtain ⟨closed, behind, ht, hc, hl⟩ := ih rest.length
          (by rw [← hn]; exact Nat.lt_succ_self _) (drop_next hat) h rfl
        exact ⟨closed, behind, ht, hc, by rw [hl, List.length_cons]; omega⟩
      rw [matchingDelimiterLoop] at h
      split at h
      · -- a string is skipped whole
        obtain ⟨parsed, hp, h⟩ := bind_eq_ok.mp h
        obtain ⟨before, after, l, htext, hbefore, rfl⟩ := exists_quoted_of_parseString hp
        have hstring : c :: rest = l.quoted ++ after := by
          rw [← hat, htext, ← hbefore, drop_before]
        have hrest : rest = l.text ++ [quote] ++ after := by
          simpa [Literal.quoted] using (List.cons.inj hstring).2
        have hquoted : l.quoted.length = (l.text ++ [quote]).length + 1 := rfl
        have hskip : cursor + l.quoted.length - (cursor + 1) = (l.text ++ [quote]).length := by
          omega
        have hnext : text.drop (cursor + l.quoted.length) = after := by
          rw [← List.drop_drop, hat, hstring, drop_before]
        have hcursor : cursor + 1 + (l.text ++ [quote]).length = cursor + l.quoted.length := by
          omega
        simp only [hskip] at h
        rw [hrest, matchingDelimiterLoop_skip, hcursor] at h
        have hshort : after.length < n := by
          rw [← hn, hstring, List.length_append]
          omega
        obtain ⟨closed, behind, rfl, hc, hl⟩ := ih after.length hshort hnext h rfl
        refine ⟨l.quoted ++ closed, behind, by rw [hstring, List.append_assoc],
          hc.prepend l.balanced, ?_⟩
        rw [hl, List.length_append, Nat.add_assoc]
      split at h
      · next hb =>
        obtain ⟨closed, behind, rfl, hc, hl⟩ := hgo h
        exact ⟨c :: closed, behind, rfl, .opened (.inl hb) (by rwa [hb, closer_openBrace]), hl⟩
      split at h
      · next hb =>
        obtain ⟨closed, behind, rfl, hc, hl⟩ := hgo h
        exact ⟨c :: closed, behind, rfl, .opened (.inr hb) (by rwa [hb, closer_openBracket]), hl⟩
      split at h
      · obtain ⟨popped, hp, h⟩ := bind_eq_ok.mp h
        rw [popDelimiter] at hp
        split at hp
        · cases hp
        next htop =>
        obtain rfl := not_not.mp htop
        obtain rfl := Except.ok.inj hp
        cases outer with
        | nil =>
          rw [if_pos rfl] at h
          obtain rfl := Except.ok.inj h
          exact ⟨[c], rest, rfl, .cons .nil .nil, rfl⟩
        | cons top outer =>
          rw [if_neg (List.cons_ne_nil _ _)] at h
          obtain ⟨closed, behind, rfl, hc, hl⟩ := hgo h
          exact ⟨c :: closed, behind, rfl, .cons .nil hc, hl⟩
      · next hq ho hob hclose =>
        have hplain : isPlain c = true := by
          rw [not_or] at hclose
          simp [isPlain, hq, ho, hob, hclose]
        obtain ⟨closed, behind, rfl, hc, hl⟩ := hgo h
        exact ⟨c :: closed, behind, rfl, hc.prepend (.plain hplain .nil), hl⟩

/-- What is matched is a container with balanced contents. -/
theorem exists_inside_of_matchingDelimiter {text : Bytes} {position last : Nat}
    (h : matchingDelimiter text position = .ok last) :
    ∃ opening inside behind, (opening = openBrace ∨ opening = openBracket) ∧ Balanced inside ∧
      text.drop position = opening :: (inside ++ [closer opening]) ++ behind ∧
      last = position + 1 + inside.length := by
  have hloop : ∀ {opening : UInt8} {rest : Bytes},
      opening = openBrace ∨ opening = openBracket → text.drop position = opening :: rest →
      matchingDelimiterLoop text rest (position + 1) 0 [closer opening] = .ok last →
      ∃ opening inside behind, (opening = openBrace ∨ opening = openBracket) ∧ Balanced inside ∧
        text.drop position = opening :: (inside ++ [closer opening]) ++ behind ∧
        last = position + 1 + inside.length := by
    intro opening rest ho hat h
    obtain ⟨closed, behind, rfl, hc, hl⟩ := closes_of_loop (drop_next hat) h
    cases hc with
    | @cons _ inside _ _ hi hr =>
      cases hr
      refine ⟨opening, inside, behind, ho, hi, hat, ?_⟩
      rw [List.length_append, List.length_singleton] at hl
      omega
  unfold matchingDelimiter at h
  split at h
  · cases h
  next c rest hat =>
  split at h
  · next hc =>
    rw [hc] at hat
    exact hloop (.inl rfl) hat h
  split at h
  · next hc =>
    rw [hc] at hat
    exact hloop (.inr rfl) hat h
  · cases h

/-! ### Values and objects -/

/-- What is passed over is a string, a container or a run up to a delimiter. -/
theorem exists_passed_of_skipValue {text : Bytes} {position last : Nat}
    (h : skipValue text position = .ok last) :
    ∃ v after, Passed v ∧ text.drop (skipSpace text position) = v ++ after ∧
      last = skipSpace text position + v.length := by
  simp only [skipValue] at h
  generalize skipSpace text position = start at h ⊢
  split at h
  · cases h
  next c hat =>
  split at h
  · obtain ⟨r, hp, rfl⟩ := map_eq_ok.mp h
    obtain ⟨before, after, l, rfl, rfl, rfl⟩ := exists_quoted_of_parseString hp
    exact ⟨l.quoted, after, .string l, drop_before _ _, rfl⟩
  split at h
  · obtain ⟨closing, hm, rfl⟩ := map_eq_ok.mp h
    obtain ⟨opening, inside, behind, ho, hi, ht, rfl⟩ := exists_inside_of_matchingDelimiter hm
    refine ⟨opening :: (inside ++ [closer opening]), behind, ?_, ht, ?_⟩
    · rcases ho with rfl | rfl
      · exact .braces hi
      · exact .brackets hi
    · simp
      omega
  split at h
  · cases h
  · next hq ho hne =>
    obtain rfl := Except.ok.inj h
    have hsplit := List.takeWhile_append_dropWhile (p := fun b ↦ !isDelimiter b)
      (l := text.drop start)
    have hrun : ∀ b ∈ (text.drop start).takeWhile (fun b ↦ !isDelimiter b), isDelimiter b = false :=
      fun b hb ↦ by simpa using List.mem_takeWhile_imp hb
    rw [skipWhile] at hne ⊢
    generalize (text.drop start).takeWhile (fun b ↦ !isDelimiter b) = run at hsplit hrun hne ⊢
    cases run with
    | nil => exact absurd rfl hne
    | cons b run =>
      rw [← List.head?_drop, ← hsplit, List.cons_append, List.head?_cons] at hat
      obtain rfl := Option.some.inj hat
      rw [not_or] at ho
      exact ⟨b :: run, _, .run ⟨hq, ho⟩ hrun, hsplit.symm, rfl⟩

/-- An object is a balanced stretch between braces. -/
theorem objectAt_eq_ok {text : Bytes} {position : Nat} {object : Span} :
    objectAt text position = .ok object ↔ ∃ inside behind, Balanced inside ∧
      text.drop (skipSpace text position) = openBrace :: (inside ++ [closeBrace]) ++ behind ∧
      object = ⟨skipSpace text position, skipSpace text position + 1 + inside.length⟩ := by
  have hstart : objectAt text position = objectAt text (skipSpace text position) := by
    simp only [objectAt, skipSpace, skipWhile_skipWhile]
    rfl
  constructor
  · intro h
    simp only [objectAt] at h
    split at h
    · next hat =>
      obtain ⟨closing, hm, rfl⟩ := map_eq_ok.mp h
      obtain ⟨opening, inside, behind, ho, hi, ht, rfl⟩ := exists_inside_of_matchingDelimiter hm
      rw [← List.head?_drop, ht, List.cons_append, List.head?_cons] at hat
      obtain rfl := Option.some.inj hat
      exact ⟨inside, behind, hi, ht, rfl⟩
    · cases h
  · rintro ⟨inside, behind, hi, ht, rfl⟩
    obtain ⟨before, htext, hbefore⟩ := exists_before ht (List.cons_ne_nil _ _)
    rw [hstart, ← hbefore, htext, objectAt_closed before behind hi]

/-! ### Lookups -/

private theorem exists_space (t : Bytes) :
    ∃ (w : Space) (rest : Bytes), t = w.val ++ rest ∧ ∀ b ∈ rest.head?, isSpace b = false := by
  refine ⟨⟨t.takeWhile isSpace, fun b hb ↦ List.mem_takeWhile_imp hb⟩, t.dropWhile isSpace,
    List.takeWhile_append_dropWhile.symm, fun b hb ↦ ?_⟩
  have h := List.head?_dropWhile_not isSpace t
  rw [Option.mem_def] at hb
  rw [hb] at h
  exact h

private theorem exists_behind {a b c d : Bytes} (h : a ++ b = c ++ d) (hl : a.length ≤ c.length) :
    ∃ e, c = a ++ e ∧ b = e ++ d := by
  obtain ⟨e, rfl⟩ := List.prefix_of_prefix_length_le ⟨b, h⟩ ⟨d, rfl⟩ hl
  rw [List.append_assoc] at h
  exact ⟨e, rfl, List.append_cancel_left h⟩

private theorem head_not_space_close {t : Bytes} (behind : Bytes)
    (h : ∀ b ∈ t.head?, isSpace b = false) :
    ∀ b ∈ (t ++ closeBrace :: behind).head?, isSpace b = false := by
  cases t with
  | nil => simp; decide
  | cons b t => exact h

section

variable {behind wanted : Bytes} {object : Span}

-- A lookup that returns has met a name and the whitespace around it.
private theorem exists_name {front t : Bytes} {q : Nat}
    (hc : object.closing = (front ++ t).length)
    (h : findFrom (front ++ (t ++ closeBrace :: behind)) object wanted
      (skipSpace (front ++ (t ++ closeBrace :: behind)) front.length) = .ok (some q)) :
    ∃ (n : Name) (rest : Bytes), t = n.text ++ rest ∧ ∀ b ∈ rest.head?, isSpace b = false := by
  obtain ⟨w₁, t₁, rfl, h₁⟩ := exists_space t
  have htext : front ++ (w₁.val ++ t₁ ++ closeBrace :: behind) =
      front ++ w₁.val ++ (t₁ ++ closeBrace :: behind) := by simp
  have hstart : skipSpace (front ++ (w₁.val ++ t₁ ++ closeBrace :: behind)) front.length =
      (front ++ w₁.val).length := by
    rw [List.append_assoc, skipSpace_space _ _ w₁ (head_not_space_close behind h₁)]
  rw [hstart, htext, findFrom_eq] at h
  split at h
  · cases h
  obtain ⟨⟨key, afterKey⟩, hkey, h⟩ := bind_eq_ok.mp h
  obtain ⟨⟨⟩, hcolon, -⟩ := bind_eq_ok.mp h
  obtain ⟨hlt, hcolon⟩ := throwUnless_eq_ok.mp hcolon
  -- the name is a string that ends in front of the closing brace
  obtain ⟨before, after, l, hquoted, hbefore, hr⟩ := exists_quoted_of_parseString hkey
  obtain ⟨rfl, htail⟩ := List.append_inj hquoted hbefore.symm
  obtain rfl := (Prod.mk.inj hr).2
  rw [hc] at hlt
  have hmoved := le_skipWhile isSpace (front ++ w₁.val ++ (t₁ ++ closeBrace :: behind))
    ((front ++ w₁.val).length + l.quoted.length)
  have hinside : l.quoted.length ≤ t₁.length := by
    have hless := hmoved.trans_lt hlt
    simp only [List.length_append] at hless
    omega
  obtain ⟨t₂, rfl, rfl⟩ := exists_behind htail.symm hinside
  obtain ⟨w₂, t₃, rfl, h₃⟩ := exists_space t₂
  have htext : front ++ w₁.val ++ (l.quoted ++ (w₂.val ++ t₃) ++ closeBrace :: behind) =
      front ++ w₁.val ++ l.quoted ++ (w₂.val ++ (t₃ ++ closeBrace :: behind)) := by simp
  rw [htext, ← List.length_append, skipSpace_space _ _ w₂ (head_not_space_close behind h₃)]
    at hlt hcolon
  cases t₃ with
  | nil => simp at hlt
  | cons c t₄ =>
    rw [← List.append_assoc _ w₂.val, List.cons_append, getElem?_prefix] at hcolon
    obtain rfl := Option.some.inj hcolon
    obtain ⟨w₃, rest, rfl, hrest⟩ := exists_space t₄
    exact ⟨⟨w₁, l, w₂, w₃⟩, rest, by simp [Name.text], hrest⟩

private theorem leads_of_findFrom {front t : Bytes} {q : Nat}
    (hc : object.closing = (front ++ t).length)
    (h : findFrom (front ++ (t ++ closeBrace :: behind)) object wanted
      (skipSpace (front ++ (t ++ closeBrace :: behind)) front.length) = .ok (some q)) :
    ∃ rest, Leads (decoded · = wanted) t rest ∧ q + rest.length = object.closing := by
  induction hk : t.length using Nat.strong_induction_on generalizing front t with
  | _ k ih =>
    obtain ⟨n, rest, rfl, hrest⟩ := exists_name hc h
    have hclose := head_not_space_close behind hrest
    have hle : (front ++ n.text).length ≤ object.closing := by
      rw [hc]
      simp only [List.length_append]
      omega
    rw [List.append_assoc n.text, findFrom_name _ _ _ _ _ hclose hle] at h
    split at h
    · next hn =>
      obtain rfl := Option.some.inj (Except.ok.inj h)
      refine ⟨rest, .here n hn hrest, ?_⟩
      rw [hc, ← List.append_assoc, @List.length_append _ (front ++ n.text)]
    next hn =>
    obtain ⟨last, hlast, h⟩ := bind_eq_ok.mp h
    dsimp only at h
    split at h
    · cases h
    next hne =>
    obtain ⟨⟨⟩, hcomma, h⟩ := bind_eq_ok.mp h
    have hcomma := throwUnless_eq_ok.mp hcomma
    have hlt : skipSpace (front ++ (n.text ++ (rest ++ closeBrace :: behind))) last <
        object.closing := by
      by_contra hge
      have hnext := le_skipWhile isSpace (front ++ (n.text ++ (rest ++ closeBrace :: behind)))
        (skipSpace (front ++ (n.text ++ (rest ++ closeBrace :: behind))) last + 1)
      rw [findFrom_eq, if_pos (by rw [skipSpace]; omega)] at h
      cases h
    -- the value ends in front of a comma, and that in front of the closing brace
    obtain ⟨v, after, hv, hdrop, rfl⟩ := exists_passed_of_skipValue hlast
    have hstart : skipSpace (front ++ (n.text ++ (rest ++ closeBrace :: behind)))
        (front ++ n.text).length = (front ++ n.text).length := by
      rw [← List.append_assoc]
      exact skipWhile_stop (by rwa [drop_before])
    rw [hstart] at hdrop hlt hcomma h
    rw [← List.append_assoc, drop_before] at hdrop
    have hinside : v.length ≤ rest.length := by
      have hmoved := le_skipWhile isSpace (front ++ (n.text ++ (rest ++ closeBrace :: behind)))
        ((front ++ n.text).length + v.length)
      have hless := hmoved.trans_lt hlt
      rw [hc] at hless
      simp only [List.length_append] at hless
      omega
    obtain ⟨r₁, rfl, rfl⟩ := exists_behind hdrop.symm hinside
    obtain ⟨w, r₂, rfl, h₂⟩ := exists_space r₁
    have htext : front ++ (n.text ++ (v ++ (w.val ++ r₂) ++ closeBrace :: behind)) =
        front ++ n.text ++ v ++ (w.val ++ (r₂ ++ closeBrace :: behind)) := by simp
    rw [htext, ← List.length_append, skipSpace_space _ _ w (head_not_space_close behind h₂)]
      at hlt hcomma h
    cases r₂ with
    | nil =>
      rw [hc] at hlt
      simp only [List.length_append, List.length_nil] at hlt
      omega
    | cons c r₃ =>
      rw [← List.append_assoc _ w.val, List.cons_append, getElem?_prefix] at hcomma
      obtain rfl := Option.some.inj hcomma
      have hfront : front ++ n.text ++ v ++ (w.val ++ (comma :: r₃ ++ closeBrace :: behind)) =
          front ++ n.text ++ v ++ w.val ++ [comma] ++ (r₃ ++ closeBrace :: behind) := by simp
      have hone : (front ++ n.text ++ v ++ w.val).length + 1 =
          (front ++ n.text ++ v ++ w.val ++ [comma]).length := by
        rw [@List.length_append _ _ [comma], List.length_singleton]
      have hc' : object.closing =
          (front ++ n.text ++ v ++ w.val ++ [comma] ++ r₃).length := by
        rw [hc]
        simp
      have hshort : r₃.length < k := by
        rw [← hk]
        simp only [List.length_append, List.length_cons]
        omega
      rw [hfront, hone] at h
      obtain ⟨field, hleads, hq⟩ := ih r₃.length hshort hc' h rfl
      exact ⟨field, .later n w hn hv hleads, hq⟩

private theorem findFrom_of_leads {front t rest : Bytes}
    (hl : Leads (decoded · = wanted) t rest) (hc : object.closing = (front ++ t).length) :
    ∃ q, findFrom (front ++ (t ++ closeBrace :: behind)) object wanted
      (skipSpace (front ++ (t ++ closeBrace :: behind)) front.length) = .ok (some q) ∧
      q + rest.length = object.closing := by
  induction hl generalizing front with
  | @here n rest hn hrest =>
    have hle : (front ++ n.text).length ≤ object.closing := by
      rw [hc]
      simp only [List.length_append]
      omega
    rw [List.append_assoc, findFrom_name _ _ _ _ _ (head_not_space_close behind hrest) hle,
      if_pos hn]
    refine ⟨_, rfl, ?_⟩
    rw [hc, ← List.append_assoc, @List.length_append _ (front ++ n.text)]
  | @later n v w rest field hn hv hl ih =>
    have htext : n.text ++ (v ++ (w.val ++ comma :: rest)) ++ closeBrace :: behind =
        n.text ++ (v ++ (w.val ++ comma :: (rest ++ closeBrace :: behind))) := by simp
    have hlt : (front ++ n.text ++ v ++ w.val).length < object.closing := by
      rw [hc]
      simp only [List.length_append, List.length_cons]
      omega
    have hc' : object.closing = (front ++ n.text ++ v ++ w.val ++ [comma] ++ rest).length := by
      rw [hc]
      simp
    rw [htext, findFrom_later _ _ _ w hv hn hlt]
    exact ih hc'

end

/-! ### Members of an object -/

/-- The text from the value of a member on, in a text that starts with an object. -/
def Reaches (key object field : Bytes) : Prop :=
  ∃ inside behind rest, Balanced inside ∧ object = openBrace :: (inside ++ [closeBrace]) ++ behind ∧
    Leads (decoded · = key) inside rest ∧ field = rest ++ closeBrace :: behind

section

variable {text key object field : Bytes} {position q : Nat} {span : Span}

/-- A member is reached in an object. -/
theorem Reaches.starts (h : Reaches key object field) : ∃ rest, object = openBrace :: rest := by
  obtain ⟨inside, behind, -, -, rfl, -⟩ := h
  exact ⟨_, rfl⟩

/-- A value is reached behind the whitespace in front of it. -/
theorem Reaches.head (h : Reaches key object field) :
    field ≠ [] ∧ ∀ b ∈ field.head?, isSpace b = false := by
  obtain ⟨inside, behind, rest, -, -, hl, rfl⟩ := h
  exact ⟨by simp, head_not_space_close behind hl.head_not_space⟩

private theorem required_eq_ok_iff :
    required text span key = .ok q ↔ find text span key = .ok (some q) := by
  rw [required, bind_eq_ok]
  constructor
  · rintro ⟨found, hfound, h⟩
    cases found with
    | none => cases h
    | some value => rw [hfound, ← Except.ok.inj h]
  · intro h
    exact ⟨some q, h, rfl⟩

/-- An object at the cursor starts there. -/
theorem opening_of_objectAt (hs : ∀ b ∈ (text.drop position).head?, isSpace b = false)
    (h : objectAt text position = .ok span) : span.opening = position := by
  obtain ⟨inside, behind, -, -, rfl⟩ := objectAt_eq_ok.mp h
  exact skipWhile_stop hs

private theorem closing_eq (before inside : Bytes) :
    before.length + 1 + inside.length = (before ++ [openBrace] ++ inside).length := by
  rw [List.length_append, List.length_append, List.length_singleton]

private theorem find_eq_findFrom (before inside behind wanted : Bytes) :
    find (before ++ (openBrace :: (inside ++ [closeBrace]) ++ behind))
        ⟨before.length, before.length + 1 + inside.length⟩ wanted =
      findFrom (before ++ [openBrace] ++ (inside ++ closeBrace :: behind))
        ⟨before.length, before.length + 1 + inside.length⟩ wanted
        (skipSpace (before ++ [openBrace] ++ (inside ++ closeBrace :: behind))
          (before ++ [openBrace]).length) := by
  have htext : before ++ (openBrace :: (inside ++ [closeBrace]) ++ behind) =
      before ++ [openBrace] ++ (inside ++ closeBrace :: behind) := by simp
  rw [htext, List.length_append, List.length_singleton]
  rfl

/-- A required member is reached from the object that it is looked up in. -/
theorem required_eq_ok (hspan : objectAt text position = .ok span) :
    required text span key = .ok q ↔ Reaches key (text.drop span.opening) (text.drop q) := by
  rw [required_eq_ok_iff]
  constructor
  · intro h
    obtain ⟨inside, behind, hi, ht, rfl⟩ := objectAt_eq_ok.mp hspan
    obtain ⟨before, rfl, hbefore⟩ := exists_before ht (List.cons_ne_nil _ _)
    rw [← hbefore, find_eq_findFrom] at h
    obtain ⟨rest, hl, hq⟩ := leads_of_findFrom (closing_eq before inside) h
    obtain ⟨reached, rfl⟩ := hl.suffix
    have hlength : q = (before ++ openBrace :: reached).length := by
      simp only [List.length_append, List.length_cons] at hq ⊢
      omega
    refine ⟨reached ++ rest, behind, rest, hi, ht, hl, ?_⟩
    have htext : before ++ (openBrace :: (reached ++ rest ++ [closeBrace]) ++ behind) =
        before ++ openBrace :: reached ++ (rest ++ closeBrace :: behind) := by simp
    rw [hlength, htext, drop_before]
  · rintro ⟨inside, behind, rest, hi, ht, hl, hfield⟩
    have hstart : span.opening = skipSpace text position := by
      obtain ⟨_, _, -, -, rfl⟩ := objectAt_eq_ok.mp hspan
      rfl
    rw [hstart] at ht
    have hobject := objectAt_eq_ok.mpr ⟨inside, behind, hi, ht, rfl⟩
    obtain rfl := Except.ok.inj (hspan.symm.trans hobject)
    obtain ⟨before, rfl, hbefore⟩ := exists_before ht (List.cons_ne_nil _ _)
    obtain ⟨q', hfind, hq'⟩ := @findFrom_of_leads behind key ⟨before.length,
      before.length + 1 + inside.length⟩ _ _ _ hl (closing_eq before inside)
    obtain ⟨front, hfront, hq⟩ := exists_before hfield (by simp)
    have hsame : q' = q := by
      have hlength := congrArg List.length hfront
      simp only [List.length_append, List.length_cons, List.length_nil] at hlength
      dsimp only at hq'
      omega
    rw [← hbefore, find_eq_findFrom, hfind, hsame]

/-- A member that is reached is required with success. -/
theorem exists_required (hspan : objectAt text position = .ok span)
    (h : Reaches key (text.drop span.opening) field) :
    ∃ q, required text span key = .ok q ∧ text.drop q = field := by
  have hsuffix : field <:+ text := by
    obtain ⟨inside, behind, rest, -, ht, hl, rfl⟩ := h
    obtain ⟨reached, rfl⟩ := hl.suffix
    refine List.IsSuffix.trans ⟨openBrace :: reached, ?_⟩ (List.drop_suffix span.opening text)
    rw [ht]
    simp
  obtain ⟨before, rfl⟩ := hsuffix
  refine ⟨before.length, (required_eq_ok hspan).mpr ?_, drop_before _ _⟩
  rwa [drop_before]

/-- An object with a member can be read at its place. -/
theorem exists_objectAt (h : Reaches key (text.drop q) field) :
    ∃ span, objectAt text q = .ok span ∧ span.opening = q := by
  obtain ⟨inside, behind, rest, hi, ht, -⟩ := h
  have hs : skipSpace text q = q := skipWhile_stop (by rw [ht]; simp; decide)
  exact ⟨_, objectAt_eq_ok.mpr ⟨inside, behind, hi, by rw [hs, ht], rfl⟩, hs⟩

end

/-! ### The root -/

/-- The text from the root object on: balanced between its braces, and whitespace on both sides. -/
def IsRoot (document root : Bytes) : Prop :=
  ∃ (w w' : Space) (inside : Bytes), Balanced inside ∧ document = w.val ++ root ∧
    root = openBrace :: (inside ++ [closeBrace]) ++ w'.val

section

variable {document root : Bytes}

private theorem skipSpace_end (before behind : Bytes) :
    skipSpace (before ++ behind) before.length = (before ++ behind).length ↔
      ∀ b ∈ behind, isSpace b = true := by
  have hle : before.length ≤ (before ++ behind).length := List.length_append ▸ Nat.le_add_right _ _
  have hreach := @length_le_skipWhile isSpace (before ++ behind) before.length
  rw [drop_before] at hreach
  rw [← hreach]
  exact ⟨Eq.ge, (skipWhile_le hle).antisymm⟩

/-- The object that is accepted as the root. -/
theorem exists_root_of_rootObject {span : Span} (h : rootObject document = .ok span) :
    IsRoot document (document.drop span.opening) ∧
      ∃ position, objectAt document position = .ok span := by
  obtain ⟨span, hspan, h⟩ := bind_eq_ok.mp h
  obtain ⟨⟨⟩, hend, h⟩ := bind_eq_ok.mp h
  obtain rfl := Except.ok.inj h
  refine ⟨?_, _, hspan⟩
  have hend := throwUnless_eq_ok.mp hend
  obtain ⟨w, rest, rfl, hrest⟩ := exists_space document
  have hstart : skipSpace (w.val ++ rest) 0 = w.val.length := skipSpace_space [] rest w hrest
  have hstop : skipSpace (w.val ++ rest) w.val.length = w.val.length :=
    skipWhile_stop (by rwa [drop_before])
  rw [hstart] at hspan
  obtain ⟨inside, behind, hi, ht, rfl⟩ := objectAt_eq_ok.mp hspan
  rw [hstop, drop_before] at ht
  subst ht
  have htext : w.val ++ (openBrace :: (inside ++ [closeBrace]) ++ behind) =
      w.val ++ (openBrace :: (inside ++ [closeBrace])) ++ behind := (List.append_assoc _ _ _).symm
  have hlength : w.val.length + 1 + inside.length + 1 =
      (w.val ++ (openBrace :: (inside ++ [closeBrace]))).length := by
    simp
    omega
  dsimp only at hend ⊢
  rw [hstop] at hend ⊢
  rw [hlength, htext, skipSpace_end] at hend
  exact ⟨w, ⟨behind, hend⟩, inside, hi, by rw [drop_before], by rw [drop_before]⟩

/-- A root object is accepted. -/
theorem exists_rootObject (h : IsRoot document root) :
    ∃ span, rootObject document = .ok span ∧ document.drop span.opening = root := by
  obtain ⟨w, w', inside, hi, rfl, rfl⟩ := h
  have htext : w.val ++ (openBrace :: (inside ++ [closeBrace]) ++ w'.val) =
      w.val ++ (openBrace :: (inside ++ [closeBrace])) ++ w'.val := (List.append_assoc _ _ _).symm
  have hlength : w.val.length + 1 + inside.length + 1 =
      (w.val ++ (openBrace :: (inside ++ [closeBrace]))).length := by
    simp
    omega
  have hstart : skipSpace (w.val ++ (openBrace :: (inside ++ [closeBrace]) ++ w'.val)) 0 =
      w.val.length := skipSpace_space [] _ w (by simp; decide)
  refine ⟨⟨w.val.length, w.val.length + 1 + inside.length⟩, ?_, drop_before _ _⟩
  rw [rootObject, hstart, objectAt_closed w.val w'.val hi, ok_bind]
  dsimp only
  rw [hlength, htext, throwUnless, if_pos ((skipSpace_end _ _).mpr w'.property)]
  rfl

end

/-! ### Leaves -/

section

variable {text : Bytes} {q : Nat}

/-- A string is read where a literal stands. -/
theorem exists_stringAt (hs : ∀ b ∈ (text.drop q).head?, isSpace b = false) :
    (∃ s, stringAt text q = .ok s) ↔ ∃ (l : Literal) (after : Bytes),
      text.drop q = l.quoted ++ after := by
  have hstop : skipSpace text q = q := skipWhile_stop hs
  rw [stringAt, hstop]
  constructor
  · rintro ⟨s, h⟩
    obtain ⟨r, hr, rfl⟩ := map_eq_ok.mp h
    obtain ⟨before, after, l, rfl, rfl, rfl⟩ := exists_quoted_of_parseString hr
    exact ⟨l, after, drop_before _ _⟩
  · rintro ⟨l, after, h⟩
    obtain ⟨before, rfl, rfl⟩ := exists_before h (by simp [Literal.quoted])
    exact ⟨_, map_eq_ok.mpr ⟨_, parseString_quoted before after l, rfl⟩⟩

private theorem compareAt_eq (hne : text.drop q ≠ []) (word : Bytes) :
    compareAt text q word.length word = .ok (decide (word <+: text.drop q)) := by
  have hle : ¬ text.length < q := by
    intro hlt
    exact hne (List.drop_of_length_le hlt.le)
  rw [compareAt, substr?, if_neg hle]
  refine congrArg Except.ok ?_
  rw [Bool.eq_iff_iff, beq_iff_eq, decide_eq_true_eq, List.prefix_iff_eq_take, eq_comm]

/-- A boolean is read where one of its words starts, whatever follows. -/
theorem exists_boolAt (hne : text.drop q ≠ []) (hs : ∀ b ∈ (text.drop q).head?, isSpace b = false) :
    (∃ flag, boolAt text q = .ok flag) ↔
      ascii "true" <+: text.drop q ∨ ascii "false" <+: text.drop q := by
  have hstop : skipSpace text q = q := skipWhile_stop hs
  have htrue : compareAt text q 4 (ascii "true") = .ok (decide (ascii "true" <+: text.drop q)) :=
    compareAt_eq hne (ascii "true")
  have hfalse : compareAt text q 5 (ascii "false") =
      .ok (decide (ascii "false" <+: text.drop q)) := compareAt_eq hne (ascii "false")
  rw [boolAt, hstop, htrue, hfalse]
  simp only [ok_bind, decide_eq_true_eq]
  by_cases ht : ascii "true" <+: text.drop q
  · exact iff_of_true ⟨true, if_pos ht⟩ (.inl ht)
  rw [if_neg ht]
  by_cases hf : ascii "false" <+: text.drop q
  · exact iff_of_true ⟨false, if_pos hf⟩ (.inr hf)
  · rw [if_neg hf]
    exact iff_of_false (fun h ↦ nomatch h) (not_or.mpr ⟨ht, hf⟩)

/-- An object is not taken for `null`. -/
theorem isNull_object {rest : Bytes} (h : text.drop q = openBrace :: rest) :
    isNull text q = .ok false := by
  have hne : text.drop q ≠ [] := by simp [h]
  have hstop : skipSpace text q = q := skipWhile_stop (by rw [h]; simp; decide)
  have hnull : ¬ ascii "null" <+: text.drop q := by
    rw [h, show ascii "null" = 110 :: ascii "ull" from rfl, List.cons_prefix_cons]
    exact fun hp ↦ absurd hp.1 (by decide)
  rw [isNull, hstop]
  exact (compareAt_eq hne (ascii "null")).trans (by rw [decide_eq_false hnull])

end

end MarketData.Comparator
