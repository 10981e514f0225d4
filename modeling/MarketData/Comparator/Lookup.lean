import MarketData.Comparator.Progress
import MarketData.Json.Layout
import MarketData.Json.Walk

/-!
# What the comparator's member lookup finds in a JSON text

A string is read up to its closing quote, a container up to the delimiter that closes it
and a scalar up to the next delimiter, so every value is passed over exactly. A lookup
therefore meets the direct members of an object one after the other.
-/

namespace MarketData.Comparator

open ByteText Cpp Json

/-! ### Strings -/

/-- What a piece of a string is decoded to. -/
def decodedPiece : Piece → Bytes
  | .plain b _ => [b]
  | .escape letter _ => (simpleEscape? letter).toList
  | .unicode x y z w _ => [backslash, 117, x, y, z, w]

/-- What a string is decoded to. -/
def decoded (l : Literal) : Bytes := l.flatMap decodedPiece

private theorem parseStringLoop_text (l : Literal) (after : Bytes) (cursor : Nat) (value : Bytes) :
    parseStringLoop (l.text ++ quote :: after) cursor value =
      .ok (value ++ decoded l, cursor + l.text.length + 1) := by
  induction l generalizing cursor value with
  | nil =>
    rw [Literal.text, List.flatMap_nil, List.nil_append, parseStringLoop.eq_def]
    simp [decoded]
  | cons p l ih =>
    have ht : Literal.text (p :: l) ++ quote :: after =
        p.text ++ (Literal.text l ++ quote :: after) := by
      rw [← List.append_assoc]
      rfl
    have hl : (Literal.text (p :: l)).length = p.text.length + (Literal.text l).length :=
      List.length_append
    have hd : decoded (p :: l) = decodedPiece p ++ decoded l := rfl
    rw [ht, hl, hd]
    cases p with
    | plain b hb =>
      simp only [Piece.text, List.cons_append, List.nil_append]
      rw [parseStringLoop.eq_def]
      simp only [hb.1, hb.2, if_false, ne_eq, not_false_eq_true, if_true, ih, decodedPiece]
      simp
      omega
    | escape letter hs =>
      obtain ⟨b, hb⟩ := Option.isSome_iff_exists.mp hs
      simp only [Piece.text, List.cons_append, List.nil_append]
      rw [parseStringLoop.eq_def]
      simp only [show backslash ≠ quote by decide, if_false, ne_eq, not_true_eq_false, hb, ih,
        decodedPiece]
      simp
      omega
    | unicode x y z w hx =>
      have hall : [x, y, z, w].all isHexDigit = true := List.all_eq_true.mpr hx
      have hu : simpleEscape? 117 = none := by decide
      simp only [Piece.text, List.cons_append, List.nil_append]
      rw [parseStringLoop.eq_def]
      simp only [show backslash ≠ quote by decide, if_false, ne_eq, not_true_eq_false, hu, if_true,
        hall, ih, decodedPiece]
      simp
      omega

/-- A string is decoded and left behind its closing quote. -/
theorem parseString_quoted (before after : Bytes) (l : Literal) :
    parseString (before ++ (l.quoted ++ after)) before.length =
      .ok (decoded l, (before ++ l.quoted).length) := by
  have hd : (before ++ (l.quoted ++ after)).drop before.length =
      quote :: (l.text ++ quote :: after) := by
    rw [drop_before]
    simp [Literal.quoted]
  rw [parseString, hd]
  simp only [if_true, parseStringLoop_text, List.nil_append]
  simp [Literal.quoted]
  omega

private theorem exists_text_of_parseStringLoop {rest value : Bytes} {cursor : Nat} {r : Bytes × Nat}
    (h : parseStringLoop rest cursor value = .ok r) :
    ∃ (l : Literal) (after : Bytes), rest = l.text ++ quote :: after ∧
      r = (value ++ decoded l, cursor + l.text.length + 1) := by
  -- what is read for the first piece, in front of the literal that is read behind it
  have hcons : ∀ (p : Piece) {rest value : Bytes} {cursor : Nat},
      (∃ (l : Literal) (after : Bytes), rest = l.text ++ quote :: after ∧
        r = (value ++ decodedPiece p ++ decoded l, cursor + p.text.length + l.text.length + 1)) →
      ∃ (l : Literal) (after : Bytes), p.text ++ rest = l.text ++ quote :: after ∧
        r = (value ++ decoded l, cursor + l.text.length + 1) := by
    rintro p rest value cursor ⟨l, after, rfl, rfl⟩
    exact ⟨p :: l, after, by simp [Literal.text], by simp [Literal.text, decoded, Nat.add_assoc]⟩
  fun_induction parseStringLoop rest cursor value with
  | case1 => cases h
  | case2 rest cursor value =>
    exact ⟨[], rest, rfl, by simp [← Except.ok.inj h, decoded, Literal.text]⟩
  | case3 c rest cursor value hq hb ih => exact hcons (.plain c ⟨hq, hb⟩) (ih h)
  | case4 => cases h
  | case5 c cursor value hq hb letter rest b hs ih =>
    obtain rfl := not_not.mp hb
    apply hcons (.escape letter (by rw [hs]; rfl))
    simpa [decodedPiece, hs, Piece.text] using ih h
  | case6 c cursor value hq hb x y z w rest hx hu ih =>
    obtain rfl := not_not.mp hb
    exact hcons (.unicode x y z w (List.all_eq_true.mp hx)) (ih h)
  | case7 => cases h
  | case8 => cases h
  | case9 => cases h

/-- What is read as a string is a literal. -/
theorem exists_quoted_of_parseString {text : Bytes} {position : Nat} {r : Bytes × Nat}
    (h : parseString text position = .ok r) :
    ∃ (before after : Bytes) (l : Literal), text = before ++ (l.quoted ++ after) ∧
      before.length = position ∧ r = (decoded l, position + l.quoted.length) := by
  unfold parseString at h
  split at h
  · cases h
  · next c rest hd =>
    split at h
    · next hq =>
      obtain ⟨l, after, rfl, rfl⟩ := exists_text_of_parseStringLoop h
      obtain ⟨before, ht, hbefore⟩ := exists_before hd (List.cons_ne_nil _ _)
      refine ⟨before, after, l, ?_, hbefore, ?_⟩
      · simpa [hq, Literal.quoted] using ht
      · simp [Literal.quoted]
        omega
    · cases h

/-! ### Containers -/

/-- The delimiter that closes a container. -/
def closer (opening : UInt8) : UInt8 := if opening = openBrace then closeBrace else closeBracket

/-- A brace closes a brace. -/
@[simp] theorem closer_openBrace : closer openBrace = closeBrace := if_pos rfl

/-- A bracket closes a bracket. -/
@[simp] theorem closer_openBracket : closer openBracket = closeBracket :=
  if_neg (by decide)

-- The loop of `matching_delimiter` with a delimiter stack above the container that is matched.
private def delimiterLoop (base : UInt8) (stack before rest : Bytes) : Checked Nat :=
  matchingDelimiterLoop (before ++ rest) rest before.length 0 (stack ++ [base])

section

variable (base : UInt8) (stack before after : Bytes)

private theorem delimiterLoop_plain (b : UInt8) (hb : isPlain b = true) :
    delimiterLoop base stack before (b :: after) =
      delimiterLoop base stack (before ++ [b]) after := by
  simp only [isPlain, Bool.not_eq_true', Bool.or_eq_false_iff, beq_eq_false_iff_ne] at hb
  obtain ⟨⟨⟨⟨hq, ho⟩, hob⟩, hc⟩, hcb⟩ := hb
  rw [delimiterLoop, delimiterLoop, matchingDelimiterLoop, if_neg hq, if_neg ho, if_neg hob,
    if_neg (by simp [hc, hcb])]
  simp

/-- The bytes of a skipped literal do not reach the stack. -/
theorem matchingDelimiterLoop_skip (text run rest expected : Bytes) (cursor : Nat) :
    matchingDelimiterLoop text (run ++ rest) cursor run.length expected =
      matchingDelimiterLoop text rest (cursor + run.length) 0 expected := by
  induction run generalizing cursor with
  | nil => rfl
  | cons c run ih =>
    rw [List.cons_append, List.length_cons, matchingDelimiterLoop, ih]
    congr 1
    omega

private theorem delimiterLoop_string (l : Literal) :
    Moves (delimiterLoop base stack) before l.quoted after := by
  have hlast : (before ++ l.quoted).length - (before.length + 1) =
      (l.text ++ [quote]).length := by
    simp [Literal.quoted]
    omega
  have hb : before.length + 1 + (l.text ++ [quote]).length = (before ++ l.quoted).length := by
    simp [Literal.quoted]
    omega
  have hstep := matchingDelimiterLoop.eq_3 (before ++ (l.quoted ++ after)) before.length
    (stack ++ [base]) quote (l.text ++ [quote] ++ after)
  rw [if_pos rfl, parseString_quoted, ok_bind] at hstep
  simp only [hlast, matchingDelimiterLoop_skip, hb] at hstep
  exact hstep.trans (by simp only [delimiterLoop, List.append_assoc])

private theorem delimiterLoop_opened (b : UInt8) (hb : b = openBrace ∨ b = openBracket) :
    delimiterLoop base stack before (b :: after) =
      delimiterLoop base (closer b :: stack) (before ++ [b]) after := by
  rcases hb with rfl | rfl
  · rw [delimiterLoop, delimiterLoop, matchingDelimiterLoop, if_neg (by decide), if_pos rfl]
    simp
  · rw [delimiterLoop, delimiterLoop, matchingDelimiterLoop, if_neg (by decide),
      if_neg (by decide), if_pos rfl]
    simp

private theorem matchingDelimiterLoop_closed (text rest outer : Bytes) (cursor : Nat) (c : UInt8)
    (hc : c = closeBrace ∨ c = closeBracket) :
    matchingDelimiterLoop text (c :: rest) cursor 0 (c :: outer) =
      if outer = [] then .ok cursor
      else matchingDelimiterLoop text rest (cursor + 1) 0 outer := by
  have hpop : popDelimiter c (c :: outer) = .ok outer := by simp [popDelimiter]
  have hopen : c ≠ quote ∧ c ≠ openBrace ∧ c ≠ openBracket := by
    rcases hc with rfl | rfl <;> decide
  rw [matchingDelimiterLoop, if_neg hopen.1, if_neg hopen.2.1, if_neg hopen.2.2, if_pos hc, hpop]
  rfl

private theorem delimiterLoop_closed (c : UInt8) (hc : c = closeBrace ∨ c = closeBracket) :
    delimiterLoop base (c :: stack) before (c :: after) =
      delimiterLoop base stack (before ++ [c]) after := by
  rw [delimiterLoop, delimiterLoop, List.cons_append, matchingDelimiterLoop_closed _ _ _ _ _ hc,
    if_neg (by simp)]
  simp

private def walker : Walker Bytes (Checked Nat) where
  loop := delimiterLoop base
  push b stack := closer b :: stack
  plain := delimiterLoop_plain base
  string := delimiterLoop_string base
  opened := delimiterLoop_opened base
  closedBrace stack before after := delimiterLoop_closed base stack before after _ (.inl rfl)
  closedBracket stack before after := delimiterLoop_closed base stack before after _ (.inr rfl)

end

/-- A container is matched with its last byte. -/
theorem matchingDelimiter_closed (front behind : Bytes) {inside : Bytes} {opening : UInt8}
    (ho : opening = openBrace ∨ opening = openBracket) (hi : Balanced inside) :
    matchingDelimiter (front ++ (opening :: (inside ++ [closer opening]) ++ behind)) front.length =
      .ok (front.length + 1 + inside.length) := by
  have hc : front ++ (opening :: (inside ++ [closer opening]) ++ behind) =
      (front ++ [opening]) ++ (inside ++ closer opening :: behind) := by simp
  have hd : (front ++ (opening :: (inside ++ [closer opening]) ++ behind)).drop front.length =
      opening :: (inside ++ closer opening :: behind) := by
    rw [drop_before]
    simp
  have hl : (front ++ [opening]).length = front.length + 1 := by simp
  have hclosing : closer opening = closeBrace ∨ closer opening = closeBracket := by
    rcases ho with rfl | rfl
    · exact .inl closer_openBrace
    · exact .inr closer_openBracket
  have hlen : (front ++ [opening] ++ inside).length = front.length + 1 + inside.length := by
    simp
    omega
  have hlast : matchingDelimiterLoop ((front ++ [opening]) ++ (inside ++ closer opening :: behind))
      (inside ++ closer opening :: behind) (front ++ [opening]).length 0 [closer opening] =
      .ok (front.length + 1 + inside.length) := by
    rw [← hlen]
    have h := (walker (closer opening)).moves_balanced hi [] (front ++ [opening])
      (closer opening :: behind)
    exact h.trans (matchingDelimiterLoop_closed _ _ _ _ _ hclosing)
  rw [hl, ← hc] at hlast
  rw [matchingDelimiter, hd, ← hlast]
  rcases ho with rfl | rfl
  · simp only [if_true, closer_openBrace]
  · simp only [show openBracket ≠ openBrace by decide, if_false, if_true, closer_openBracket]

/-! ### Values -/

private theorem skipSpace_passed (before after : Bytes) {v : Bytes} (hv : Passed v) :
    skipSpace (before ++ (v ++ after)) before.length = before.length :=
  skipWhile_stop (by rw [drop_before]; exact hv.head_not_space after)

/-- The byte behind a prefix. -/
theorem getElem?_prefix (before rest : Bytes) (b : UInt8) :
    (before ++ b :: rest)[before.length]? = some b := by simp

private theorem skipValue_container (before after : Bytes) {inside : Bytes} {opening : UInt8}
    (ho : opening = openBrace ∨ opening = openBracket) (hi : Balanced inside)
    (hv : Passed (opening :: (inside ++ [closer opening]))) :
    skipValue (before ++ (opening :: (inside ++ [closer opening]) ++ after)) before.length =
      .ok (before.length + (opening :: (inside ++ [closer opening])).length) := by
  have hq : opening ≠ quote := by rcases ho with rfl | rfl <;> decide
  rw [skipValue, skipSpace_passed before after hv, List.cons_append, getElem?_prefix]
  simp only [hq, ho, if_false, if_true]
  rw [← List.cons_append, matchingDelimiter_closed before after ho hi]
  change Except.ok (before.length + 1 + inside.length + 1) = _
  congr 1
  simp
  omega

/-- What can be passed over is passed over exactly. -/
theorem skipValue_inside (before after : Bytes) {v : Bytes} (hv : Passed v) (ha : Delimited after) :
    skipValue (before ++ (v ++ after)) before.length = .ok (before.length + v.length) := by
  cases hv with
  | braces hi => exact skipValue_container before after (.inl rfl) hi (.braces hi)
  | brackets hi => exact skipValue_container before after (.inr rfl) hi (.brackets hi)
  | string l =>
    have hat : (before ++ (l.quoted ++ after))[before.length]? = some quote :=
      getElem?_prefix before _ quote
    rw [skipValue, skipSpace_passed before after (.string l), hat]
    simp only [if_true, parseString_quoted]
    rw [← List.length_append]
    rfl
  | @run b rest hb hr =>
    have hrun : skipWhile (fun b ↦ !isDelimiter b) (before ++ (b :: rest ++ after)) before.length =
        before.length + (b :: rest).length :=
      skipWhile_run (drop_before _ _) (fun c hc ↦ by simpa using hr c hc)
        (fun c hc ↦ by simpa using ha c hc)
    rw [skipValue, skipSpace_passed before after (.run hb hr), hrun, List.cons_append,
      getElem?_prefix]
    simp only [hb.1, hb.2.1, hb.2.2, or_self, if_false]
    rw [if_neg (by simp)]

/-! ### Members -/

/-- A run of whitespace is skipped. -/
theorem skipSpace_space (before after : Bytes) (w : Space)
    (ha : ∀ b ∈ after.head?, isSpace b = false) :
    skipSpace (before ++ (w.val ++ after)) before.length = (before ++ w.val).length := by
  rw [skipSpace, skipWhile_space w (drop_before _ _) ha, List.length_append]

section

variable (front rest : Bytes) (object : Span) (wanted : Bytes) (n : Name)

/-- One pass of the lookup: behind its name a member is returned or passed over. -/
theorem findFrom_name (hr : ∀ b ∈ rest.head?, isSpace b = false)
    (hc : (front ++ n.text).length ≤ object.closing) :
    findFrom (front ++ (n.text ++ rest)) object wanted
        (skipSpace (front ++ (n.text ++ rest)) front.length) =
      if decoded n.key = wanted then .ok (some (front ++ n.text).length)
      else (do
        let position := skipSpace (front ++ (n.text ++ rest))
          (← skipValue (front ++ (n.text ++ rest)) (front ++ n.text).length)
        if position = object.closing then return none
        else
          throwUnless ((front ++ (n.text ++ rest))[position]? = some comma)
            (ascii "expected ',' between JSON object fields")
          findFrom (front ++ (n.text ++ rest)) object wanted
            (skipSpace (front ++ (n.text ++ rest)) (position + 1))) := by
  -- the text in the five groupings that the steps of the pass need
  generalize htext : front ++ (n.text ++ rest) = text
  have hkey : text = front ++ (n.before.val ++ (n.key.quoted ++ (n.gap.val ++ colon ::
      (n.after.val ++ rest)))) := by
    simp [← htext, Name.text]
  have hstring : text = (front ++ n.before.val) ++ (n.key.quoted ++ (n.gap.val ++ colon ::
      (n.after.val ++ rest))) := by
    simp [hkey]
  have hgap : text = (front ++ n.before.val ++ n.key.quoted) ++ (n.gap.val ++ colon ::
      (n.after.val ++ rest)) := by
    simp [hkey]
  have hcolon : text = (front ++ n.before.val ++ n.key.quoted ++ n.gap.val) ++ colon ::
      (n.after.val ++ rest) := by
    simp [hkey]
  have hvalue : text = (front ++ n.before.val ++ n.key.quoted ++ n.gap.val ++ [colon]) ++
      (n.after.val ++ rest) := by
    simp [hkey]
  have hname : front ++ n.text =
      front ++ n.before.val ++ n.key.quoted ++ n.gap.val ++ [colon] ++ n.after.val := by
    simp [Name.text]
  have h1 : skipSpace text front.length = (front ++ n.before.val).length := by
    rw [hkey, skipSpace_space _ _ _ (by simp [Literal.quoted]; decide)]
  have h2 : parseString text (front ++ n.before.val).length =
      .ok (decoded n.key, (front ++ n.before.val ++ n.key.quoted).length) := by
    rw [hstring, parseString_quoted]
  have h3 : skipSpace text (front ++ n.before.val ++ n.key.quoted).length =
      (front ++ n.before.val ++ n.key.quoted ++ n.gap.val).length := by
    rw [hgap, skipSpace_space _ _ _ (by simp; decide)]
  have h4 : text[(front ++ n.before.val ++ n.key.quoted ++ n.gap.val).length]? = some colon := by
    rw [hcolon, getElem?_prefix]
  have h5 : skipSpace text ((front ++ n.before.val ++ n.key.quoted ++ n.gap.val).length + 1) =
      (front ++ n.text).length := by
    rw [← List.length_singleton (a := colon), ← List.length_append, hvalue,
      skipSpace_space _ _ _ hr, hname]
  have hlt : (front ++ n.before.val ++ n.key.quoted ++ n.gap.val).length < object.closing := by
    rw [hname] at hc
    simp only [List.length_append, List.length_singleton] at hc ⊢
    omega
  have hopen : ¬ object.closing ≤ (front ++ n.before.val).length := by
    simp only [List.length_append] at hlt ⊢
    omega
  rw [h1, findFrom_eq, if_neg hopen, h2, ok_bind]
  simp only [h3, h4, h5]
  rw [throwUnless, if_pos ⟨hlt, trivial⟩, ok_bind]
  rfl

variable {wanted n} {v : Bytes} (w : Space)

private theorem skipValue_space (hv : Passed v) (hd : Delimited rest)
    (hs : ∀ b ∈ rest.head?, isSpace b = false) :
    skipValue (front ++ (v ++ (w.val ++ rest))) front.length = .ok (front ++ v).length ∧
      skipSpace (front ++ (v ++ (w.val ++ rest))) (front ++ v).length =
        (front ++ v ++ w.val).length := by
  constructor
  · rw [skipValue_inside front _ hv (w.delimited_append hd), List.length_append]
  · rw [← List.append_assoc, skipSpace_space _ _ w hs]

private theorem findFrom_last (hv : Passed v) (hd : Delimited rest)
    (hs : ∀ b ∈ rest.head?, isSpace b = false) (hn : decoded n.key ≠ wanted)
    (hc : object.closing = (front ++ n.text ++ v ++ w.val).length) :
    findFrom (front ++ (n.text ++ (v ++ (w.val ++ rest)))) object wanted
        (skipSpace (front ++ (n.text ++ (v ++ (w.val ++ rest)))) front.length) = .ok none := by
  have hle : (front ++ n.text).length ≤ object.closing := by
    rw [hc]
    simp only [List.length_append]
    omega
  obtain ⟨hvalue, hspace⟩ := skipValue_space (front ++ n.text) rest w hv hd hs
  rw [List.append_assoc front] at hvalue hspace
  rw [findFrom_name _ _ _ _ _ (hv.head_not_space _) hle, if_neg hn, hvalue, ok_bind]
  dsimp only
  rw [hspace, if_pos hc.symm]
  rfl

/-- One pass of the lookup over a member of another name that is not the last. -/
theorem findFrom_later (hv : Passed v) (hn : decoded n.key ≠ wanted)
    (hc : (front ++ n.text ++ v ++ w.val).length < object.closing) :
    findFrom (front ++ (n.text ++ (v ++ (w.val ++ comma :: rest)))) object wanted
        (skipSpace (front ++ (n.text ++ (v ++ (w.val ++ comma :: rest)))) front.length) =
      findFrom (front ++ n.text ++ v ++ w.val ++ [comma] ++ rest) object wanted
        (skipSpace (front ++ n.text ++ v ++ w.val ++ [comma] ++ rest)
          (front ++ n.text ++ v ++ w.val ++ [comma]).length) := by
  have hle : (front ++ n.text).length ≤ object.closing := by
    simp only [List.length_append] at hc ⊢
    omega
  have hgroup : front ++ n.text ++ v ++ w.val ++ [comma] ++ rest =
      front ++ (n.text ++ (v ++ (w.val ++ comma :: rest))) := by simp
  have hcomma : (front ++ (n.text ++ (v ++ (w.val ++ comma :: rest))))[(front ++ n.text ++ v ++
      w.val).length]? = some comma := by
    have h := getElem?_prefix (front ++ n.text ++ v ++ w.val) rest comma
    simp only [List.append_assoc] at h ⊢
    exact h
  have hone : (front ++ n.text ++ v ++ w.val).length + 1 =
      (front ++ n.text ++ v ++ w.val ++ [comma]).length := by
    rw [@List.length_append _ _ [comma], List.length_singleton]
  obtain ⟨hvalue, hspace⟩ := skipValue_space (front ++ n.text) (comma :: rest) w hv
    (delimited_cons (by decide) _) (by simp; decide)
  rw [List.append_assoc front] at hvalue hspace
  rw [findFrom_name _ _ _ _ _ (hv.head_not_space _) hle, if_neg hn, hvalue, ok_bind]
  dsimp only
  rw [hspace, if_neg hc.ne, hcomma, throwUnless, if_pos rfl, ok_bind, hone, hgroup]

end

private theorem find?_direct (o : Nat) (l : Literal) (v : Value) (wanted : Bytes)
    (later : List (Nat × Literal × Value)) :
    (((o, l, v) :: later).find? (fun m ↦ decoded m.2.1 = wanted)).map Prod.fst =
      if decoded l = wanted then some o
      else (later.find? (fun m ↦ decoded m.2.1 = wanted)).map Prod.fst := by
  rw [List.find?_cons]
  by_cases h : decoded l = wanted <;> simp [h]

-- From the first member on the lookup meets the direct members in turn.
private theorem findFrom_members (front behind : Bytes) (object : Span) (wanted : Bytes)
    (members : Members) (hc : object.closing = (front ++ members.text).length) :
    findFrom (front ++ (members.text ++ closeBrace :: behind)) object wanted
        (skipSpace (front ++ (members.text ++ closeBrace :: behind)) front.length) =
      .ok (((members.direct front.length).find?
        (fun m ↦ decoded m.2.1 = wanted)).map Prod.fst) := by
  cases members with
  | last n v w =>
    have ht : (Members.last n v w).text ++ closeBrace :: behind =
        n.text ++ (v.text ++ (w.val ++ closeBrace :: behind)) := by simp [Members.text]
    have hlen : (front ++ (Members.last n v w).text).length =
        (front ++ n.text ++ v.text ++ w.val).length := by simp [Members.text]
    rw [hlen] at hc
    rw [ht, Members.direct, find?_direct]
    by_cases h : decoded n.key = wanted
    · rw [findFrom_name _ _ _ _ _ (v.head_not_space _)
        (by rw [hc]; simp only [List.length_append]; omega), if_pos h, if_pos h,
        List.length_append]
    · rw [findFrom_last front _ object w v.passed (delimited_cons (by decide) _)
        (by simp; decide) h hc, if_neg h]
      rfl
  | cons n v w rest =>
    have ht : (Members.cons n v w rest).text ++ closeBrace :: behind =
        n.text ++ (v.text ++ (w.val ++ comma :: (rest.text ++ closeBrace :: behind))) := by
      simp [Members.text]
    have hlen : (front ++ (Members.cons n v w rest).text).length =
        (front ++ n.text ++ v.text ++ w.val ++ [comma] ++ rest.text).length := by
      simp [Members.text]
    have hstart : front.length + n.text.length + v.text.length + w.val.length + 1 =
        (front ++ n.text ++ v.text ++ w.val ++ [comma]).length := by
      simp only [List.length_append, List.length_singleton]
    rw [hlen] at hc
    rw [ht, Members.direct, find?_direct]
    by_cases h : decoded n.key = wanted
    · rw [findFrom_name _ _ _ _ _ (v.head_not_space _)
        (by rw [hc]; simp only [List.length_append]; omega), if_pos h, if_pos h,
        List.length_append]
    · rw [findFrom_later front _ object w v.passed h
        (by rw [hc]; simp only [List.length_append, List.length_singleton]; omega), if_neg h,
        hstart]
      exact findFrom_members (front ++ n.text ++ v.text ++ w.val ++ [comma]) behind object
        wanted rest hc

/-- The span of a value. -/
def spanOf (offset : Nat) (v : Value) : Span := ⟨offset, offset + v.text.length - 1⟩

/-- The lookup in an object finds its first direct member of that name. -/
theorem find_stands {text : Bytes} {offset : Nat} {v : Value} (hv : Stands text offset v)
    (ho : v.isObject = true) (wanted : Bytes) :
    find text (spanOf offset v) wanted =
      .ok (((v.direct offset).find? (fun m ↦ decoded m.2.1 = wanted)).map Prod.fst) := by
  obtain ⟨before, after, rfl, rfl, -⟩ := hv
  have hfront : before.length + 1 = (before ++ [openBrace]).length := by simp
  cases v with
  | scalar t => cases ho
  | string l => cases ho
  | emptyArray w => cases ho
  | array items => cases ho
  | emptyObject w =>
    have ht : before ++ (Value.text (.emptyObject w) ++ after) =
        (before ++ [openBrace]) ++ (w.val ++ closeBrace :: after) := by simp [Value.text]
    have hend : (spanOf before.length (.emptyObject w)).closing =
        (before ++ [openBrace] ++ w.val).length := by
      simp [spanOf, Value.text]
    have hopen : (spanOf before.length (.emptyObject w)).opening = before.length := rfl
    rw [find, hopen, hfront, ht, skipSpace_space _ _ _ (by simp; decide), hend, Nat.sub_self]
    rfl
  | object members =>
    have ht : before ++ (Value.text (.object members) ++ after) =
        (before ++ [openBrace]) ++ (members.text ++ closeBrace :: after) := by simp [Value.text]
    have hend : (spanOf before.length (.object members)).closing =
        (before ++ [openBrace] ++ members.text).length := by
      simp [spanOf, Value.text]
    have hopen : (spanOf before.length (.object members)).opening = before.length := rfl
    have hmembers := findFrom_members _ after _ wanted members hend
    rw [findFrom] at hmembers
    rw [find, hopen, hfront, ht, hmembers, Value.direct, hfront]

/-- A balanced stretch between braces is read as an object. -/
theorem objectAt_closed (before after : Bytes) {inside : Bytes} (hi : Balanced inside) :
    objectAt (before ++ (openBrace :: (inside ++ [closeBrace]) ++ after)) before.length =
      .ok ⟨before.length, before.length + 1 + inside.length⟩ := by
  have hm := matchingDelimiter_closed before after (.inl rfl) hi
  rw [closer_openBrace] at hm
  rw [objectAt, skipSpace_passed before after (.braces hi), List.cons_append, getElem?_prefix,
    if_pos rfl, ← List.cons_append, hm]
  rfl

/-- An object is read as its span. -/
theorem objectAt_stands {text : Bytes} {offset : Nat} {v : Value} (hv : Stands text offset v) :
    objectAt text offset =
      if v.isObject then .ok (spanOf offset v)
      else .error (.exception (ascii "expected a JSON object")) := by
  obtain ⟨before, after, rfl, rfl, -⟩ := hv
  by_cases ho : v.isObject = true
  · obtain ⟨inside, hi, ht⟩ := Value.exists_inside ho
    have hspan : spanOf before.length v = ⟨before.length, before.length + 1 + inside.length⟩ := by
      simp [spanOf, ht]
      omega
    rw [if_pos ho, hspan, ht, objectAt_closed before after hi]
  · obtain ⟨b, rest, hb, hbrace⟩ := v.head_openBrace
    have hother : b ≠ openBrace := fun hopen ↦ ho (hbrace.mp hopen)
    rw [objectAt, skipSpace_passed before after v.passed, hb, List.cons_append, getElem?_prefix,
      if_neg (by simpa using hother), if_neg ho]

/-- The root of a document stands behind its leading whitespace. -/
theorem stands_root (d : Document) : Stands d.text d.before.val.length d.root := by
  refine ⟨d.before.val, d.after.val, rfl, rfl, ?_⟩
  have h := d.after.follows_append follows_nil
  rwa [List.append_nil] at h

private theorem skipSpace_start (d : Document) : skipSpace d.text 0 = d.before.val.length := by
  have h := skipSpace_space [] (d.root.text ++ d.after.val) d.before
    (d.root.head_not_space d.after.val)
  simpa [Document.text] using h

/-- Only an object is accepted as the root. -/
theorem isObject_of_rootObject {d : Document} {root : Span} (h : rootObject d.text = .ok root) :
    d.root.isObject = true := by
  by_contra ho
  rw [rootObject, skipSpace_start, objectAt_stands (stands_root d), if_neg ho, error_bind] at h
  cases h

/-- The root object of a document is accepted. -/
theorem rootObject_document (d : Document) (ho : d.root.isObject = true) :
    rootObject d.text = .ok (spanOf d.before.val.length d.root) := by
  obtain ⟨b, rest, hb, -⟩ := d.root.text_head
  have hclose : (spanOf d.before.val.length d.root).closing + 1 =
      (d.before.val ++ d.root.text).length := by
    simp [spanOf, hb]
    omega
  have hrest : skipSpace d.text (d.before.val ++ d.root.text).length = d.text.length := by
    have h := skipSpace_space (d.before.val ++ d.root.text) [] d.after (by simp)
    simpa [Document.text] using h
  rw [rootObject, skipSpace_start, objectAt_stands (stands_root d), if_pos ho, ok_bind, hclose,
    hrest, throwUnless, if_pos rfl]
  rfl

/-- A string literal decodes to a key under `parse_string`. -/
def DecodesTo (l : Literal) (key : Bytes) : Prop := Prod.fst <$> parseString l.quoted 0 = .ok key

/-- Decoding is computed. -/
instance (l : Literal) (key : Bytes) : Decidable (DecodesTo l key) :=
  inferInstanceAs (Decidable (_ = _))

private theorem decodesTo_iff {l : Literal} {key : Bytes} : DecodesTo l key ↔ decoded l = key := by
  have h := parseString_quoted [] [] l
  simp only [List.nil_append, List.append_nil, List.length_nil] at h
  rw [DecodesTo, h]
  constructor
  · exact Except.ok.inj
  · rintro rfl
    rfl

/-- In every text whose root is an object, the root is accepted and the lookup in every object
finds the value of its first direct member whose name decodes to the key, and nothing else. -/
theorem find_document (d : Document) (hd : d.root.isObject = true) :
    rootObject d.text = .ok (spanOf d.before.val.length d.root) ∧
      ∀ offset object, (offset, object) ∈ d.root.inner d.before.val.length →
        object.isObject = true → ∀ key, find d.text (spanOf offset object) key =
          .ok (((object.direct offset).find? (fun m ↦ DecodesTo m.2.1 key)).map Prod.fst) := by
  refine ⟨rootObject_document d hd, fun offset object hm ho key ↦ ?_⟩
  rw [find_stands ((stands_root d).inner hm) ho]
  simp only [decodesTo_iff]

/-- An object with a member `a`, which is an object with a member `b`, and a member `b`. -/
def nestedDocument : Document where
  before := noSpace
  root := .object (block 2 (lineBreak 0) ⟨"a", by decide⟩
    (.object (block 4 (lineBreak 2) ⟨"b", by decide⟩
      (.string [.escape quote (by decide), .plain closeBrace (by decide)]) []))
    [(⟨"b", by decide⟩, .scalar ⟨ascii "1", by decide⟩)])
  after := lineBreak 0

/-- The lookup passes over the inner member `b`. -/
theorem find_document_nested :
    find nestedDocument.text (spanOf 0 nestedDocument.root) (ascii "b") = .ok (some 38) :=
  ((find_document nestedDocument rfl).2 0 nestedDocument.root
    (by simp [nestedDocument, Value.inner, noSpace]) rfl (ascii "b")).trans (by decide +kernel)

end MarketData.Comparator
