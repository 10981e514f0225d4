import MarketData.Base.Bytes

/-!
# HTTP responses

A response is a start line, fields, an empty line and a body whose length a field gives. A reader
takes the body by that length, so it never takes a part of a response for the whole.
-/

namespace Http

open ByteText

/-- A response as HTTP/1.1 writes it. -/
structure Message where
  status : Nat
  reason : Bytes
  fields : List (Bytes × Bytes)
  body : Bytes
deriving DecidableEq

/-- A line break. -/
def crlf : Bytes := [13, 10]

/-- A field on its line. -/
def writeField (field : Bytes × Bytes) : Bytes := field.1 ++ ascii ": " ++ field.2 ++ crlf

/-- The text of a response. -/
def write (m : Message) : Bytes :=
  ascii "HTTP/1.1 " ++ decimal m.status ++ ascii " " ++ m.reason ++ crlf ++
    (m.fields.flatMap writeField ++ (crlf ++ m.body))

/-! ### The reader -/

/-- The line before the first line break, and what follows the break. -/
def takeLine : Bytes → Option (Bytes × Bytes)
  | [] => none
  | b :: rest =>
    if b = 13 ∧ rest.head? = some 10 then some ([], rest.tail)
    else do
      let (line, rest) ← takeLine rest
      return (b :: line, rest)

/-- The name and the value of a field. -/
def splitField (line : Bytes) : Option (Bytes × Bytes) :=
  (line.dropWhile (· != 58)).tail?.map fun value ↦
    (line.takeWhile (· != 58), value.dropWhile (· == 32))

/-- The fields up to the empty line, and what follows it. -/
def takeFields : Nat → Bytes → Option (List (Bytes × Bytes) × Bytes)
  | 0, _ => none
  | fuel + 1, text => do
    let (line, rest) ← takeLine text
    if line = [] then return ([], rest)
    else
      let field ← splitField line
      let (fields, rest) ← takeFields fuel rest
      return (field :: fields, rest)

/-- The status and the reason of a start line. -/
def splitStart (line : Bytes) : Option (Nat × Bytes) :=
  if ascii "HTTP/1.1 " <+: line then
    let rest := line.drop 9
    match rest.dropWhile isDigit with
    | 32 :: reason => some (numeral (rest.takeWhile isDigit), reason)
    | _ => none
  else none

/-- The length that the fields give to the body. -/
def contentLength (fields : List (Bytes × Bytes)) : Option Nat := do
  let value ← fields.lookup (ascii "Content-Length")
  if value ≠ [] ∧ value.all isDigit then return numeral value else none

/-- A reader of responses, which answers when it has all of one. -/
def read (text : Bytes) : Option Message := do
  let (start, rest) ← takeLine text
  let (status, reason) ← splitStart start
  let (fields, rest) ← takeFields text.length rest
  let length ← contentLength fields
  if length ≤ rest.length then return ⟨status, reason, fields, rest.take length⟩ else none

/-! ### Lines -/

/-- A line without a carriage return is taken up to its break. -/
theorem takeLine_append {line rest : Bytes} (h : 13 ∉ line) :
    takeLine (line ++ (crlf ++ rest)) = some (line, rest) := by
  induction line with
  | nil => rfl
  | cons b line ih =>
    obtain ⟨hb, hline⟩ := not_or.mp (List.mem_cons.not.mp h)
    rw [List.cons_append, takeLine, if_neg (fun hc ↦ hb hc.1.symm), ih hline]
    rfl

/-- A line that is there stays when more text arrives. -/
theorem takeLine_more {text line rest : Bytes} (more : Bytes)
    (h : takeLine text = some (line, rest)) :
    takeLine (text ++ more) = some (line, rest ++ more) := by
  induction text generalizing line with
  | nil => cases h
  | cons b text ih =>
    rw [takeLine] at h
    rw [List.cons_append, takeLine]
    split at h
    · next hb =>
      obtain ⟨rfl, rfl⟩ := Prod.mk.inj (Option.some.inj h)
      cases text with
      | nil => cases hb.2
      | cons c text => rw [if_pos (by simpa using hb)]; rfl
    · next hb =>
      obtain ⟨⟨line', rest'⟩, hline, h⟩ := Option.bind_eq_some_iff.mp h
      obtain ⟨rfl, rfl⟩ := Prod.mk.inj (Option.some.inj h)
      rw [if_neg, ih hline]
      · rfl
      · rintro ⟨hb13, hhead⟩
        cases text with
        | nil => cases hline
        | cons c text => exact hb ⟨hb13, by simpa using hhead⟩

/-! ### Fields -/

/-- What a reader takes a field from. -/
structure Field (field : Bytes × Bytes) : Prop where
  name : 58 ∉ field.1
  nameLine : 13 ∉ field.1
  value : 13 ∉ field.2
  trimmed : field.2.head? ≠ some 32

private theorem ascii_separator : ascii ": " = [58, 32] := by decide

private theorem dropWhile_trimmed {value : Bytes} (h : value.head? ≠ some 32) :
    value.dropWhile (· == 32) = value := by
  cases value with
  | nil => rfl
  | cons b rest =>
    have hb : b ≠ 32 := fun hb ↦ h (by rw [hb]; rfl)
    simp [hb]

private theorem splitField_append {name value : Bytes} (hname : 58 ∉ name)
    (hvalue : value.head? ≠ some 32) :
    splitField (name ++ ascii ": " ++ value) = some (name, value) := by
  have hcolon : ∀ b ∈ name, (b != 58) = true := by
    intro b hb
    simp only [bne_iff_ne]
    rintro rfl
    exact hname hb
  have hline : name ++ ascii ": " ++ value = name ++ 58 :: 32 :: value := by
    rw [ascii_separator, List.append_assoc]
    rfl
  rw [splitField, hline, List.dropWhile_append_of_pos hcolon, List.takeWhile_append_of_pos hcolon]
  simp [dropWhile_trimmed hvalue]

/-- The fields are taken up to the empty line. -/
theorem takeFields_append {fields : List (Bytes × Bytes)} {rest : Bytes} {fuel : Nat}
    (h : ∀ field ∈ fields, Field field) (hfuel : fields.length < fuel) :
    takeFields fuel (fields.flatMap writeField ++ (crlf ++ rest)) = some (fields, rest) := by
  induction fields generalizing fuel with
  | nil =>
    cases fuel with
    | zero => cases hfuel
    | succ fuel => rfl
  | cons field fields ih =>
    cases fuel with
    | zero => cases hfuel
    | succ fuel =>
      obtain ⟨hname, hnameLine, hvalue, htrimmed⟩ := h field List.mem_cons_self
      have hline : 13 ∉ field.1 ++ ascii ": " ++ field.2 := by
        simp [ascii_separator, hnameLine, hvalue]
      have hne : field.1 ++ ascii ": " ++ field.2 ≠ [] := by simp [ascii_separator]
      have htake : takeLine ((field :: fields).flatMap writeField ++ (crlf ++ rest)) =
          some (field.1 ++ ascii ": " ++ field.2, fields.flatMap writeField ++ (crlf ++ rest)) := by
        rw [List.flatMap_cons, writeField, List.append_assoc, List.append_assoc]
        exact takeLine_append hline
      have hrest := ih (fun f hf ↦ h f (List.mem_cons_of_mem _ hf)) (Nat.lt_of_succ_lt_succ hfuel)
      rw [takeFields, htake, Option.bind_eq_bind, Option.bind_some]
      dsimp only
      rw [if_neg hne, splitField_append hname htrimmed, Option.bind_eq_bind, Option.bind_some,
        hrest]
      rfl

/-- Fields that are there stay when more text arrives. -/
theorem takeFields_more {fuel fuel' : Nat} {text rest : Bytes} {fields : List (Bytes × Bytes)}
    (more : Bytes) (hfuel : fuel ≤ fuel') (h : takeFields fuel text = some (fields, rest)) :
    takeFields fuel' (text ++ more) = some (fields, rest ++ more) := by
  induction fuel generalizing fuel' text fields with
  | zero => cases h
  | succ fuel ih =>
    obtain ⟨fuel', rfl⟩ := Nat.exists_eq_succ_of_ne_zero (by omega : fuel' ≠ 0)
    rw [takeFields] at h
    obtain ⟨⟨line, behind⟩, hline, h⟩ := Option.bind_eq_some_iff.mp h
    rw [takeFields, takeLine_more more hline, Option.bind_eq_bind, Option.bind_some]
    dsimp only at h ⊢
    split at h
    · next hempty =>
      obtain ⟨rfl, rfl⟩ := Prod.mk.inj (Option.some.inj h)
      rw [if_pos hempty]
      rfl
    · next hempty =>
      obtain ⟨field, hfield, h⟩ := Option.bind_eq_some_iff.mp h
      obtain ⟨⟨fields', rest'⟩, hfields, h⟩ := Option.bind_eq_some_iff.mp h
      obtain ⟨rfl, rfl⟩ := Prod.mk.inj (Option.some.inj h)
      rw [if_neg hempty, hfield, Option.bind_eq_bind, Option.bind_some,
        ih (Nat.le_of_succ_le_succ hfuel) hfields]
      rfl

/-! ### Responses -/

/-- What a reader takes as it is written: the fields are separate, and give the length. -/
structure Message.Framed (m : Message) : Prop where
  reason : 13 ∉ m.reason
  fields : ∀ field ∈ m.fields, Field field
  length : contentLength m.fields = some m.body.length

private theorem splitStart_append (status : Nat) (reason : Bytes) :
    splitStart (ascii "HTTP/1.1 " ++ decimal status ++ ascii " " ++ reason) =
      some (status, reason) := by
  have hspace : ascii " " = [32] := by decide
  have hprefix : ascii "HTTP/1.1 " <+: ascii "HTTP/1.1 " ++ decimal status ++ ascii " " ++ reason :=
    ⟨decimal status ++ ascii " " ++ reason, by simp⟩
  have hdrop : (ascii "HTTP/1.1 " ++ decimal status ++ ascii " " ++ reason).drop 9 =
      decimal status ++ 32 :: reason := by
    have hlength : (ascii "HTTP/1.1 ").length = 9 := by decide
    rw [List.append_assoc, List.append_assoc, ← hlength, List.drop_left, hspace]
    rfl
  have hdigits : ∀ b ∈ decimal status, isDigit b = true := fun b hb ↦ isDigit_of_mem_decimal hb
  have hend : isDigit 32 = false := by decide
  rw [splitStart, if_pos hprefix]
  dsimp only
  rw [hdrop, List.dropWhile_append_of_pos hdigits, List.takeWhile_append_of_pos hdigits,
    List.dropWhile_cons_of_neg (by simp [hend]), List.takeWhile_cons_of_neg (by simp [hend]),
    List.append_nil, numeral_decimal]
  rfl

private theorem startLine_unbroken (status : Nat) {reason : Bytes} (h : 13 ∉ reason) :
    13 ∉ ascii "HTTP/1.1 " ++ decimal status ++ ascii " " ++ reason := by
  have hdigits : 13 ∉ decimal status := by
    intro hmem
    have hdigit := isDigit_of_mem_decimal hmem
    revert hdigit
    decide
  have hversion : 13 ∉ ascii "HTTP/1.1 " := by decide
  have hspace : 13 ∉ ascii " " := by decide
  simp [hdigits, hversion, hspace, h]

private theorem length_le_flatMap (fields : List (Bytes × Bytes)) :
    fields.length ≤ (fields.flatMap writeField).length := by
  induction fields with
  | nil => exact le_rfl
  | cons field fields ih =>
    simp only [List.flatMap_cons, List.length_append, List.length_cons, writeField, crlf]
    omega

private theorem takeLine_write {m : Message} (h : m.Framed) (more : Bytes) :
    takeLine (write m ++ more) =
      some (ascii "HTTP/1.1 " ++ decimal m.status ++ ascii " " ++ m.reason,
        m.fields.flatMap writeField ++ (crlf ++ (m.body ++ more))) := by
  rw [← takeLine_append (startLine_unbroken m.status h.reason)]
  simp [write, List.append_assoc]

private theorem takeFields_write {m : Message} (h : m.Framed) (more : Bytes) :
    takeFields (write m ++ more).length
        (m.fields.flatMap writeField ++ (crlf ++ (m.body ++ more))) =
      some (m.fields, m.body ++ more) := by
  refine takeFields_append h.fields ?_
  have hle := length_le_flatMap m.fields
  simp only [write, List.length_append, crlf, List.length_cons]
  omega

/-- A response that is written is read back, whatever follows it. -/
theorem read_write {m : Message} (h : m.Framed) (more : Bytes) :
    read (write m ++ more) = some m := by
  rw [read, Option.bind_eq_bind, takeLine_write h, Option.bind_some]
  dsimp only
  rw [Option.bind_eq_bind, splitStart_append, Option.bind_some]
  dsimp only
  rw [Option.bind_eq_bind, takeFields_write h, Option.bind_some]
  dsimp only
  rw [Option.bind_eq_bind, h.length, Option.bind_some, if_pos (by simp)]
  simp

/-- A reader does not take a part of a response for the whole. -/
theorem eq_of_read_prefix {m m' : Message} {part : Bytes} (hm : m.Framed)
    (hpart : part <+: write m) (h : read part = some m') : part = write m := by
  obtain ⟨more, hmore⟩ := hpart
  rw [read] at h
  obtain ⟨⟨start, rest⟩, hline, h⟩ := Option.bind_eq_some_iff.mp h
  obtain ⟨⟨status, reason⟩, -, h⟩ := Option.bind_eq_some_iff.mp h
  obtain ⟨⟨fields, behind⟩, hfields, h⟩ := Option.bind_eq_some_iff.mp h
  obtain ⟨length, hlength, h⟩ := Option.bind_eq_some_iff.mp h
  -- The whole text has the line and the fields of the part, and more behind them.
  have hline' := takeLine_more more hline
  rw [hmore, ← List.append_nil (write m), takeLine_write hm] at hline'
  obtain ⟨-, hrest⟩ := Prod.mk.inj (Option.some.inj hline')
  have hfields' := takeFields_more more
    (by rw [← hmore, List.append_nil, List.length_append]; omega :
      part.length ≤ (write m ++ []).length) hfields
  rw [← hrest, takeFields_write hm, List.append_nil] at hfields'
  obtain ⟨hsame, hbody⟩ := Prod.mk.inj (Option.some.inj hfields')
  -- The length of the body leaves nothing for more.
  have hle : length ≤ behind.length := by
    by_contra hgt
    rw [if_neg hgt] at h
    cases h
  have hall : m.body.length = length := by
    rw [← hsame, hm.length] at hlength
    exact Option.some.inj hlength
  have hnone : more = [] := by
    rw [hbody, List.length_append] at hall
    exact List.eq_nil_of_length_eq_zero (by omega)
  rw [← hmore, hnone, List.append_nil]

end Http
