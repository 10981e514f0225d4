import MarketData.Exporter.Reader
import MarketData.Json.Layout
import MarketData.Json.Nesting
import MarketData.Json.Walk

/-!
# What the exporter's key search finds in a JSON text

The search ignores nesting and looks at every quote. Inside a string a quote is always
escaped, so an odd number of backslashes stands before it; the quote that closes a
string is never followed by a key; and a string that is a value is never followed by a
colon. What remains are the member names, in text order.
-/

namespace MarketData.Exporter

open ByteText Cpp Json

/-! ### Backslashes before a position -/

/-- Backslashes at the end of a text. -/
def trailingSlashes (text : Bytes) : Nat := (text.reverse.takeWhile (· == backslash)).length

private theorem slashCount_prefix (before rest : Bytes) :
    slashCount (before ++ rest) before.length = trailingSlashes before := by
  rw [slashCount, List.take_left, trailingSlashes]

private theorem trailingSlashes_concat (text : Bytes) (b : UInt8) :
    trailingSlashes (text ++ [b]) = if b = backslash then trailingSlashes text + 1 else 0 := by
  by_cases hb : b = backslash <;> simp [trailingSlashes, hb]

private theorem trailingSlashes_space {text : Bytes} (w : Space)
    (h : trailingSlashes text % 2 = 0) : trailingSlashes (text ++ w.val) % 2 = 0 := by
  rcases List.eq_nil_or_concat w.val with hw | ⟨run, b, hw⟩
  · rwa [hw, List.append_nil]
  · have hb : b ≠ backslash := by
      rintro rfl
      exact absurd (w.property backslash (by simp [hw])) (by decide)
    rw [hw, List.concat_eq_append, ← List.append_assoc, trailingSlashes_concat, if_neg hb]

/-! ### One step of the search -/

/-- The needle of a key. -/
def needle (key : Bytes) : Bytes := quote :: (key ++ [quote])

private theorem loop_start (document word : Bytes) {rest : Bytes} {cursor s t : Nat}
    (hs : s ≤ cursor) (ht : t ≤ cursor) :
    findValueLoop document word rest cursor s = findValueLoop document word rest cursor t := by
  induction rest generalizing cursor with
  | nil => rfl
  | cons c rest ih =>
    simp only [findValueLoop, hs, ht, true_and]
    rw [ih (by omega) (by omega)]

private theorem loop_skip (document word run rest : Bytes) {cursor start : Nat}
    (h : cursor + run.length ≤ start) :
    findValueLoop document word (run ++ rest) cursor start =
      findValueLoop document word rest (cursor + run.length) start := by
  induction run generalizing cursor with
  | nil => rfl
  | cons c run ih =>
    simp only [List.length_cons] at h ⊢
    rw [List.cons_append, findValueLoop, if_neg (fun hc ↦ by omega), ih (by omega)]
    congr 1
    omega

-- The search in what follows `before`, when every byte there may still match.
private def search (key before rest : Bytes) : Option Nat :=
  findValueLoop (before ++ rest) (needle key) rest before.length 0

private theorem loop_eq_search {key before rest : Bytes} {start : Nat}
    (h : start ≤ before.length) :
    findValueLoop (before ++ rest) (needle key) rest before.length start =
      search key before rest :=
  loop_start _ _ h (Nat.zero_le _)

private theorem search_step {key before rest : Bytes} {c : UInt8}
    (h : (needle key).isPrefixOf (c :: rest) = false) :
    search key before (c :: rest) = search key (before ++ [c]) rest := by
  rw [search, findValueLoop, if_neg (by simp [h]), search, List.length_append]
  simp

private theorem search_run {key before run rest : Bytes} (h : ∀ b ∈ run, b ≠ quote) :
    Moves (search key) before run rest := by
  refine Moves.run (fun c hc before after ↦ search_step ?_)
  have hq : (quote == c) = false := beq_false_of_ne (h c hc).symm
  simp [needle, List.isPrefixOf, hq]

private theorem search_space {key before rest : Bytes} (w : Space) :
    Moves (search key) before w.val rest := by
  apply search_run
  intro b hb hq
  subst hq
  exact absurd (w.property _ hb) (by decide)

private theorem search_single {key before rest : Bytes} {b : UInt8} (h : b ≠ quote) :
    search key before (b :: rest) = search key (before ++ [b]) rest := by
  have hrun : Moves (search key) before [b] rest := search_run (by simpa using h)
  exact hrun

/-! ### Strings -/

private theorem isPrefixOf_literal {key : Bytes} (hk : ∀ b ∈ key, b ≠ quote ∧ b ≠ backslash)
    (l : Literal) (after : Bytes) :
    (key ++ [quote]).isPrefixOf (l.text ++ quote :: after) = (l.text == key) := by
  induction l generalizing key with
  | nil =>
    cases key with
    | nil => simp [Literal.text, List.isPrefixOf]
    | cons c key => simp [Literal.text, List.isPrefixOf, (hk c (by simp)).1]
  | cons p l ih =>
    cases key with
    | nil =>
      cases p with
      | plain b hb => simp [Literal.text, Piece.text, List.isPrefixOf, hb.1.symm]
      | escape letter hl => rfl
      | unicode a b c d hx => rfl
    | cons c key =>
      have hslash : (c == backslash) = false :=
        beq_false_of_ne (hk c (by simp)).2
      cases p with
      | plain b hb =>
        have hkey : ∀ x ∈ key, x ≠ quote ∧ x ≠ backslash := fun x hx ↦ hk x (by simp [hx])
        have hrec := ih hkey
        simp only [Literal.text, List.flatMap_cons, Piece.text, List.cons_append,
          List.nil_append, List.isPrefixOf] at hrec ⊢
        rw [hrec, List.cons_beq_cons, BEq.comm]
      | escape letter hl =>
        simp [Literal.text, Piece.text, List.isPrefixOf, hslash, BEq.comm (a := backslash)]
      | unicode a b c d hx =>
        simp [Literal.text, Piece.text, List.isPrefixOf, hslash, BEq.comm (a := backslash)]

private theorem trailingSlashes_piece {text : Bytes} (p : Piece)
    (h : trailingSlashes text % 2 = 0) : trailingSlashes (text ++ p.text) % 2 = 0 := by
  cases p with
  | plain b hb => rw [Piece.text, trailingSlashes_concat, if_neg hb.2]
  | escape letter hl =>
    have hs : text ++ [backslash, letter] = (text ++ [backslash]) ++ [letter] := by simp
    rw [Piece.text, hs, trailingSlashes_concat, trailingSlashes_concat, if_pos rfl]
    split
    · omega
    · rfl
  | unicode a b c d hx =>
    have hs : text ++ [backslash, 117, a, b, c, d] =
        (text ++ [backslash, 117, a, b, c]) ++ [d] := by
      simp
    have hd : d ≠ backslash := by
      rintro rfl
      exact absurd (hx backslash (by simp)) (by decide)
    rw [Piece.text, hs, trailingSlashes_concat, if_neg hd]

-- The text after a string: no plain name starts there.
private def NoName (after : Bytes) : Prop := ∀ b ∈ after.head?, isDelimiter b = true ∨ b = colon

private theorem search_closing {key before after : Bytes} (hk : IsPlainName key)
    (ha : NoName after) :
    search key before (quote :: after) = search key (before ++ [quote]) after := by
  apply search_step
  cases after with
  | nil => cases key <;> simp [needle, List.isPrefixOf]
  | cons b after =>
    have hb := ha b rfl
    cases key with
    | nil =>
      have hq : quote ≠ b := by
        rintro rfl
        exact absurd hb (by decide)
      simp [needle, List.isPrefixOf, hq]
    | cons c key =>
      have hc := hk.2 c rfl
      have hcb : c ≠ b := by
        rintro rfl
        rcases hb with hb | hb
        · rw [hc.1] at hb
          cases hb
        · exact hc.2 hb
      simp [needle, List.isPrefixOf, hcb]

private theorem isPrefixOf_quoted {key : Bytes} (hk : IsPlainName key) (l : Literal)
    (after : Bytes) :
    (needle key).isPrefixOf (l.quoted ++ after) = (l.text == key) := by
  rw [Literal.quoted, List.cons_append, List.append_assoc, needle, List.isPrefixOf,
    beq_self_eq_true, Bool.true_and]
  exact isPrefixOf_literal hk.1 l after

private theorem length_needle (l : Literal) : (needle l.text).length = l.quoted.length := rfl

-- After an occurrence that does not count, the search goes on behind the string.
private theorem loop_behind (before after : Bytes) (l : Literal) :
    findValueLoop (before ++ (l.quoted ++ after)) (needle l.text) (l.text ++ [quote] ++ after)
      (before.length + 1) (before.length + (needle l.text).length) =
      search l.text (before ++ l.quoted) after := by
  have hl : (l.text ++ [quote]).length + 1 = l.quoted.length := rfl
  have hb : (before ++ l.quoted).length = before.length + l.quoted.length := List.length_append ..
  have hlen : before.length + 1 + (l.text ++ [quote]).length = (before ++ l.quoted).length := by
    omega
  rw [length_needle, ← hb, loop_skip _ _ _ _ hlen.le, hlen, ← List.append_assoc]
  exact loop_eq_search (Nat.le_refl _)

-- An escaped quote never counts, and a needle that starts there ends with the string.
private theorem search_escaped {key before : Bytes} (hk : IsPlainName key) (l : Literal)
    (after : Bytes) (h : trailingSlashes before % 2 = 1) :
    search key before (l.quoted ++ after) =
      if l.text = key then search key (before ++ l.quoted) after
      else search key (before ++ [quote]) (l.text ++ quote :: after) := by
  have hp := isPrefixOf_quoted hk l after
  have hc : l.quoted ++ after = quote :: (l.text ++ [quote] ++ after) := rfl
  split
  · next hl =>
    subst hl
    rw [← loop_behind before after l, search]
    rw [hc] at hp ⊢
    rw [findValueLoop, if_pos ⟨Nat.zero_le _, by simpa using hp⟩, slashCount_prefix,
      if_pos (by omega)]
  · next hl =>
    rw [hc] at hp ⊢
    rw [search_step (hp.trans (beq_false_of_ne hl))]
    simp

private theorem search_inside {key before after : Bytes} (hk : IsPlainName key) (ha : NoName after)
    (l : Literal) (h : trailingSlashes before % 2 = 0) :
    search key before (l.text ++ quote :: after) =
      search key (before ++ (l.text ++ [quote])) after := by
  induction l generalizing before with
  | nil => exact search_closing hk ha
  | cons p l ih =>
    have ht : Literal.text (p :: l) = p.text ++ Literal.text l := rfl
    have hrec := ih (trailingSlashes_piece p h)
    rw [ht, List.append_assoc, List.append_assoc, ← List.append_assoc before, ← hrec]
    cases p with
    | plain b hb => exact search_single hb.1
    | unicode a b c d hx =>
      apply search_run
      intro x hm hq
      subst hq
      simp only [Piece.text, List.mem_cons, List.not_mem_nil, or_false] at hm
      rcases hm with hm | hm | hm
      · exact absurd hm (by decide)
      · exact absurd hm (by decide)
      · exact absurd (hx quote (by simpa using hm)) (by decide)
    | escape letter hl =>
      by_cases hq : letter = quote
      · subst hq
        have hb : trailingSlashes (before ++ [backslash]) % 2 = 1 := by
          rw [trailingSlashes_concat, if_pos rfl]
          omega
        have he := search_escaped hk l after hb
        have hs : search key before ([backslash, quote] ++ (Literal.text l ++ quote :: after)) =
            search key (before ++ [backslash]) (Literal.quoted l ++ after) := by
          have hb : search key before (backslash :: quote :: (Literal.text l ++ quote :: after)) =
              search key (before ++ [backslash]) (quote :: (Literal.text l ++ quote :: after)) :=
            search_single (by decide)
          simpa [Literal.quoted] using hb
        have hb2 : before ++ [backslash] ++ [quote] = before ++ [backslash, quote] := by simp
        refine hs.trans (he.trans ?_)
        split
        · rw [show Piece.text (.escape quote hl) = [backslash, quote] from rfl] at hrec ⊢
          rw [hrec, ← hb2]
          simp [Literal.quoted]
        · rw [hb2]
          rfl
      · apply search_run
        intro x hm hx
        subst hx
        simp only [Piece.text, List.mem_cons, List.not_mem_nil, or_false] at hm
        rcases hm with hm | hm
        · exact absurd hm (by decide)
        · exact hq hm.symm

private theorem search_match {before after : Bytes} {l : Literal} (hk : IsPlainName l.text)
    (h : trailingSlashes before % 2 = 0) :
    search l.text before (l.quoted ++ after) =
      if (after.dropWhile isSpace).head? = some colon then
        some (skipSpace (before ++ (l.quoted ++ after))
          (skipSpace (before ++ (l.quoted ++ after)) (before ++ l.quoted).length + 1))
      else search l.text (before ++ l.quoted) after := by
  have hp : (needle l.text).isPrefixOf (l.quoted ++ after) = true := by
    rw [isPrefixOf_quoted hk, beq_self_eq_true]
  have hc : l.quoted ++ after = quote :: (l.text ++ [quote] ++ after) := rfl
  have hb : before.length + (needle l.text).length = (before ++ l.quoted).length := by
    rw [length_needle, List.length_append]
  have hcolon : (before ++ (l.quoted ++ after))[skipSpace (before ++ (l.quoted ++ after))
      (before ++ l.quoted).length]? = (after.dropWhile isSpace).head? := by
    rw [skipSpace, getElem?_skipWhile, ← List.append_assoc, drop_before]
  rw [← loop_behind before after l, search]
  rw [hc] at hp hcolon ⊢
  rw [findValueLoop, if_pos ⟨Nat.zero_le _, hp⟩, slashCount_prefix, if_neg (by omega)]
  simp only [hb, hcolon]

private theorem search_passes {key before after : Bytes} (hk : IsPlainName key) (ha : NoName after)
    (l : Literal) (h : trailingSlashes before % 2 = 0)
    (hn : l.text = key → ∀ b ∈ (after.dropWhile isSpace).head?, b ≠ colon) :
    search key before (l.quoted ++ after) = search key (before ++ l.quoted) after := by
  have hp := isPrefixOf_quoted hk l after
  have hc : l.quoted ++ after = quote :: (l.text ++ [quote] ++ after) := rfl
  by_cases hl : l.text = key
  · subst hl
    rw [search_match hk h]
    exact if_neg (fun hcolon ↦ hn rfl colon hcolon rfl)
  · rw [hc] at hp
    rw [hc, search_step (hp.trans (beq_false_of_ne hl)), List.append_assoc,
      List.singleton_append, search_inside hk ha l (by rw [trailingSlashes_concat]; rfl)]
    simp [Literal.quoted]

/-! ### Trees -/

-- What the search makes of a stretch of text: without a find it goes on behind it.
private def Passes (key before stretch after : Bytes) (found : Option (Nat × Value)) : Prop :=
  match found with
  | none => Moves (search key) before stretch after
  | some (o, w) =>
    Stands (before ++ (stretch ++ after)) o w ∧ search key before (stretch ++ after) = some o

private theorem Passes.append {key before s t after : Bytes} {found later : Option (Nat × Value)}
    (hs : Passes key before s (t ++ after) found) (ht : Passes key (before ++ s) t after later) :
    Passes key before (s ++ t) after (found.or later) := by
  cases found with
  | some m =>
    have hs : Stands (before ++ (s ++ (t ++ after))) m.1 m.2 ∧
        search key before (s ++ (t ++ after)) = some m.1 := hs
    rw [Option.some_or, Passes, List.append_assoc]
    exact hs
  | none =>
    have hs : Moves (search key) before s (t ++ after) := hs
    cases later with
    | none => exact hs.append ht
    | some m =>
      have ht : Stands (before ++ s ++ (t ++ after)) m.1 m.2 ∧
          search key (before ++ s) (t ++ after) = some m.1 := ht
      rw [Option.none_or, Passes, List.append_assoc]
      rw [List.append_assoc] at ht
      exact ⟨ht.1, hs.trans ht.2⟩

private theorem Passes.lead {key before s t after : Bytes} {found : Option (Nat × Value)}
    (hs : Passes key before s (t ++ after) none) (ht : Passes key (before ++ s) t after found) :
    Passes key before (s ++ t) after found := hs.append ht

private theorem Passes.trail {key before s t after : Bytes} {found : Option (Nat × Value)}
    (hs : Passes key before s (t ++ after) found) (ht : Passes key (before ++ s) t after none) :
    Passes key before (s ++ t) after found :=
  Option.or_none (o := found) ▸ hs.append ht

private theorem passes_run {key before run after : Bytes} (h : ∀ b ∈ run, b ≠ quote) :
    Passes key before run after none := search_run h

private theorem passes_space {key before after : Bytes} (w : Space) :
    Passes key before w.val after none := search_space w

private theorem passes_single {key before after : Bytes} {b : UInt8} (h : b ≠ quote) :
    Passes key before [b] after none := search_single h

private theorem noName_cons {b : UInt8} (h : isDelimiter b = true ∨ b = colon) (rest : Bytes) :
    NoName (b :: rest) := by
  simpa [NoName] using h

private theorem noName_of_space {w : Space} {after : Bytes} (h : NoName after) :
    NoName (w.val ++ after) := by
  rcases w with ⟨_ | ⟨b, rest⟩, hw⟩
  · exact h
  · exact noName_cons (.inl (by simp [isDelimiter, hw b (by simp)])) _

private theorem noName_of_follows {after : Bytes} (h : Follows after) : NoName after :=
  fun b hb ↦ .inl (h.delimited b hb)

private theorem not_colon_of_follows {after : Bytes} (h : Follows after) :
    ∀ b ∈ (after.dropWhile isSpace).head?, b ≠ colon := by
  intro b hb
  rcases h b hb with rfl | rfl | rfl <;> decide

private theorem trailingSlashes_name {before : Bytes} (n : Name) :
    trailingSlashes (before ++ n.text) % 2 = 0 := by
  have h : before ++ n.text =
      before ++ (n.before.val ++ (n.key.quoted ++ n.gap.val)) ++ [colon] ++ n.after.val := by
    simp [Name.text]
  rw [h]
  exact trailingSlashes_space _ (by rw [trailingSlashes_concat]; rfl)

private theorem passes_name {key before after : Bytes} (hk : IsPlainName key) (n : Name)
    (h : trailingSlashes before % 2 = 0) (hn : n.key.text ≠ key) :
    Passes key before n.text after none := by
  refine (passes_space n.before).lead (Passes.lead ?_ ?_)
  · refine search_passes hk ?_ _ (trailingSlashes_space _ h) (fun he ↦ absurd he hn)
    rw [List.append_assoc]
    exact noName_of_space (noName_cons (.inr rfl) _)
  · exact (passes_space n.gap).lead ((passes_single (by decide)).lead (passes_space n.after))

private theorem search_name (before after : Bytes) (n : Name) (v : Value)
    (hk : IsPlainName n.key.text) (h : trailingSlashes before % 2 = 0) :
    search n.key.text before (n.text ++ (v.text ++ after)) = some (before ++ n.text).length := by
  have hc : n.text ++ (v.text ++ after) = n.before.val ++ (n.key.quoted ++
      (n.gap.val ++ colon :: (n.after.val ++ (v.text ++ after)))) := by
    simp [Name.text]
  have hgap : (n.gap.val ++ colon :: (n.after.val ++ (v.text ++ after))).dropWhile isSpace =
      colon :: (n.after.val ++ (v.text ++ after)) := by
    rw [List.dropWhile_append_of_pos n.gap.property]
    rfl
  rw [hc, search_space, search_match hk (trailingSlashes_space _ h), hgap, List.head?_cons,
    if_pos rfl]
  have hlen : (before ++ n.text).length = (before ++ n.before.val ++ n.key.quoted).length +
      n.gap.val.length + 1 + n.after.val.length := by
    simp [Name.text]
    omega
  rw [hlen]
  generalize before ++ n.before.val = front
  have hcolon : skipSpace (front ++ (n.key.quoted ++ (n.gap.val ++ colon :: (n.after.val ++
      (v.text ++ after))))) (front ++ n.key.quoted).length =
      (front ++ n.key.quoted).length + n.gap.val.length :=
    skipWhile_space n.gap (by rw [← List.append_assoc, drop_before]) (by simp; decide)
  rw [hcolon]
  have hvalue : front ++ (n.key.quoted ++ (n.gap.val ++ colon :: (n.after.val ++
      (v.text ++ after)))) = (front ++ n.key.quoted ++ n.gap.val ++ [colon]) ++
      (n.after.val ++ (v.text ++ after)) := by simp
  have hat : (front ++ n.key.quoted).length + n.gap.val.length + 1 =
      (front ++ n.key.quoted ++ n.gap.val ++ [colon]).length := by
    simp only [List.length_append, List.length_singleton]
  rw [hvalue, hat, skipSpace, skipWhile_space n.after (drop_before _ _) (v.head_not_space after)]

private theorem passes_member {key before after : Bytes} {start : Nat} (hk : IsPlainName key)
    (n : Name) (v : Value) {later : Option (Nat × Value)} (h : trailingSlashes before % 2 = 0)
    (hs : before.length = start) (ha : Follows after)
    (hv : Passes key (before ++ n.text) v.text after later) :
    Passes key before (n.text ++ v.text) after
      (if n.key.text == key then some (start + n.text.length, v) else later) := by
  by_cases hn : n.key.text = key
  · subst hn
    rw [if_pos (beq_self_eq_true _)]
    have hlen : (before ++ n.text).length = start + n.text.length := by simp [hs]
    refine ⟨⟨before ++ n.text, after, by simp, hlen, ha⟩, ?_⟩
    rw [List.append_assoc, ← hlen]
    exact search_name before _ n v hk h
  · rw [if_neg (by simpa using hn)]
    exact (passes_name hk n h hn).lead hv

private theorem trailingSlashes_single {before : Bytes} {b : UInt8} (h : b ≠ backslash) :
    trailingSlashes (before ++ [b]) % 2 = 0 := by
  rw [trailingSlashes_concat, if_neg h]

mutual

private theorem passes_value {key before after : Bytes} {start : Nat} (hk : IsPlainName key)
    (v : Value) (h : trailingSlashes before % 2 = 0) (hs : before.length = start)
    (ha : Follows after) :
    Passes key before v.text after (v.firstAt (fun l ↦ l.text == key) start) := by
  cases v with
  | scalar token =>
    apply passes_run
    intro b hb hq
    subst hq
    exact absurd (token.property.2 _ hb) (by decide)
  | string l =>
    exact search_passes hk (noName_of_follows ha) l h (fun _ ↦ not_colon_of_follows ha)
  | emptyArray w =>
    exact (passes_single (b := openBracket) (by decide)).lead
      ((passes_space w).lead (passes_single (by decide)))
  | emptyObject w =>
    exact (passes_single (b := openBrace) (by decide)).lead
      ((passes_space w).lead (passes_single (by decide)))
  | array items =>
    refine (passes_single (b := openBracket) (by decide)).lead
      (Passes.trail ?_ (passes_single (by decide)))
    exact passes_items hk items (trailingSlashes_single (by decide)) (by simp [hs])
      (follows_cons (by decide) _)
  | object members =>
    refine (passes_single (b := openBrace) (by decide)).lead
      (Passes.trail ?_ (passes_single (by decide)))
    exact passes_members hk members (trailingSlashes_single (by decide)) (by simp [hs])
      (follows_cons (by decide) _)

private theorem passes_items {key before after : Bytes} {start : Nat} (hk : IsPlainName key)
    (items : Items) (h : trailingSlashes before % 2 = 0) (hs : before.length = start)
    (ha : Follows after) :
    Passes key before items.text after (items.firstAt (fun l ↦ l.text == key) start) := by
  cases items with
  | last w v w' =>
    exact (passes_space w).lead
      ((passes_value hk v (trailingSlashes_space w h) (by simp [hs]) (w'.follows_append ha)).trail
        (passes_space w'))
  | cons w v w' rest =>
    refine (passes_space w).lead (Passes.append
      (passes_value hk v (trailingSlashes_space w h) (by simp [hs]) ?_) ?_)
    · rw [List.append_assoc]
      exact w'.follows_append (follows_cons (.inl rfl) _)
    · exact (passes_space w').lead ((passes_single (b := comma) (by decide)).lead
        (passes_items hk rest (trailingSlashes_single (by decide)) (by simp [hs]; omega) ha))

private theorem passes_members {key before after : Bytes} {start : Nat} (hk : IsPlainName key)
    (members : Members) (h : trailingSlashes before % 2 = 0) (hs : before.length = start)
    (ha : Follows after) :
    Passes key before members.text after (members.firstAt (fun l ↦ l.text == key) start) := by
  cases members with
  | last n v w =>
    rw [Members.text, ← List.append_assoc]
    refine Passes.trail ?_ (passes_space w)
    exact passes_member hk n v h hs (w.follows_append ha)
      (passes_value hk v (trailingSlashes_name n) (by simp [hs]) (w.follows_append ha))
  | cons n v w rest =>
    have hw : Follows (w.val ++ comma :: rest.text ++ after) := by
      rw [List.append_assoc]
      exact w.follows_append (follows_cons (.inl rfl) _)
    have hlen : (before ++ n.text).length = start + n.text.length := by simp [hs]
    have hv := passes_member hk n v h hs hw (passes_value hk v (trailingSlashes_name n) hlen hw)
    have hr : Passes key (before ++ (n.text ++ v.text)) (w.val ++ comma :: rest.text) after
        (rest.firstAt (fun l ↦ l.text == key)
          (start + n.text.length + v.text.length + w.val.length + 1)) :=
      (passes_space w).lead ((passes_single (b := comma) (by decide)).lead
        (passes_members hk rest (trailingSlashes_single (by decide)) (by simp [hs]; omega) ha))
    have := hv.append hr
    rw [Members.text, Members.firstAt, ← List.append_assoc]
    split at this <;> simpa [*] using this

end

/-! ### The search over a whole text -/

/-- The key search over a text finds exactly the values of a lookup, each where it stands. -/
def Presents (document : Bytes) (lookup : Bytes → Option Value) : Prop :=
  ∀ key, IsKey key →
    match lookup key with
    | none => findValue document key = none
    | some v => ∃ before after, document = before ++ (v.text ++ after) ∧ Follows after ∧
        findValue document key = some before.length

private theorem findValue_passes {key before stretch after : Bytes} {found : Option (Nat × Value)}
    (hb : ∀ b ∈ before, b ≠ quote) (ha : ∀ b ∈ after, b ≠ quote)
    (h : Passes key before stretch after found) :
    findValue (before ++ (stretch ++ after)) key = found.map Prod.fst := by
  have hlead : Moves (search key) [] before (stretch ++ after) := search_run hb
  have hstart : findValue (before ++ (stretch ++ after)) key =
      search key before (stretch ++ after) := hlead
  rw [hstart]
  cases found with
  | none =>
    have hm : Moves (search key) before stretch after := h
    have hr : Moves (search key) (before ++ stretch) after [] := search_run ha
    unfold Moves at hr
    rw [List.append_nil] at hr
    exact hm.trans hr
  | some m => exact h.2

private theorem ne_quote_of_space (w : Space) : ∀ b ∈ w.val, b ≠ quote := by
  rintro b hb rfl
  exact absurd (w.property _ hb) (by decide)

private theorem passes_document (d : Document) {key : Bytes} (hk : IsPlainName key) :
    Passes key d.before.val d.root.text d.after.val
      (d.root.firstAt (fun l ↦ l.text == key) d.before.val.length) := by
  have hs : trailingSlashes ([] ++ d.before.val) % 2 = 0 := trailingSlashes_space d.before rfl
  have hf : Follows d.after.val := by simpa using d.after.follows_append follows_nil
  exact passes_value hk d.root hs rfl hf

/-- In a document the search finds the first value under the name, at any depth. -/
theorem findValue_document (d : Document) {key : Bytes} (hk : IsPlainName key) :
    findValue d.text key =
      (d.root.firstAt (fun l ↦ l.text == key) d.before.val.length).map Prod.fst :=
  findValue_passes (ne_quote_of_space _) (ne_quote_of_space _) (passes_document d hk)

private theorem presents_of_passes (before stretch after : Bytes) {lookup : Bytes → Option Value}
    (hb : ∀ b ∈ before, b ≠ quote) (ha : ∀ b ∈ after, b ≠ quote)
    (h : ∀ key, IsKey key → ∃ found, found.map Prod.snd = lookup key ∧
      Passes key before stretch after found) :
    Presents (before ++ (stretch ++ after)) lookup := by
  intro key hk
  obtain ⟨found, hl, hp⟩ := h key hk
  have hf := findValue_passes hb ha hp
  rw [← hl]
  cases found with
  | none => exact hf
  | some m =>
    obtain ⟨front, behind, ht, ho, hfollows⟩ := hp.1
    refine ⟨front, behind, ht, hfollows, ?_⟩
    rw [hf, ho]
    rfl

/-- The text of a document presents what stands under the names below its root. -/
theorem presents_document (d : Document) : Presents d.text (under d.root) :=
  presents_of_passes _ _ _ (ne_quote_of_space _) (ne_quote_of_space _) (fun _ hk ↦
    ⟨_, d.root.snd_firstAt _, passes_document d hk.isPlainName⟩)

/-- The text of a value presents what stands under the names below it. -/
theorem presents_value (v : Value) : Presents v.text (under v) := by
  have h := presents_document ⟨noSpace, v, noSpace⟩
  have ht : Document.text ⟨noSpace, v, noSpace⟩ = v.text := List.append_nil _
  rwa [ht] at h

/-- An object presents its members even when the text ends before it is closed. -/
theorem presents_members (members : Members) {after : Bytes} (ha : Follows after)
    (hq : ∀ b ∈ after, b ≠ quote) :
    Presents (openBrace :: (members.text ++ after)) (under (.object members)) :=
  presents_of_passes [openBrace] members.text after (by decide) hq (fun _ hk ↦
    ⟨_, members.snd_firstAt _, passes_members hk.isPlainName members rfl rfl ha⟩)

/-- A member whose name stands nowhere before it is found where it stands. -/
theorem findValue_member (front : Members) (n : Name) (v : Value) (after : Bytes)
    (hk : IsKey n.key.text) (hf : under (.object front) n.key.text = none) :
    findValue (openBrace :: (front.text ++ comma :: (n.text ++ (v.text ++ after)))) n.key.text =
      some (openBrace :: (front.text ++ comma :: n.text)).length := by
  have hp := hk.isPlainName
  have hfront : Passes n.key.text [openBrace] front.text (comma :: (n.text ++ (v.text ++ after)))
      none := by
    have h : Passes n.key.text [openBrace] front.text (comma :: (n.text ++ (v.text ++ after)))
        (front.firstAt (fun l ↦ l.text == n.key.text) 1) :=
      passes_members hp front rfl rfl (follows_cons (.inl rfl) _)
    have hnone : (Value.object front).firstAt (fun l ↦ l.text == n.key.text) 0 = none :=
      (Value.firstAt_eq_none 0).mpr hf
    rwa [show front.firstAt (fun l ↦ l.text == n.key.text) 1 = none from hnone] at h
  have hmoves : Moves (search n.key.text) [] ([openBrace] ++ (front.text ++ [comma]))
      (n.text ++ (v.text ++ after)) :=
    (passes_single (by decide)).lead (hfront.lead (passes_single (by decide)))
  have hname := search_name ([openBrace] ++ (front.text ++ [comma])) after n v
    hp (by
      rw [← List.append_assoc]
      exact trailingSlashes_single (b := comma) (by decide))
  have h := hmoves.trans hname
  simpa [search, findValue, needle] using h

end MarketData.Exporter
