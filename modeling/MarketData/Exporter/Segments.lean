import MarketData.Exporter.Server

/-!
# Requests in segments

A request reaches the exporter in one or more segments, and a call of `recv` gives no more than the
first of those that have arrived. `handle_connection` calls it once.
-/

namespace MarketData.Exporter

open ByteText Cpp

/-- A connection whose bytes arrive in segments. -/
def arriving (segments : List Bytes) (surroundings : Surroundings) : Connection :=
  ⟨segments.headD [], surroundings⟩

/-- The blanks of the first line. -/
def lineBlanks (received : Bytes) : ℕ := (firstLine received).count 32

/-! ### Request lines -/

private theorem exists_two_blanks {line : Bytes} (h : 2 ≤ line.count 32) :
    ∃ method target rest, line = method ++ 32 :: (target ++ 32 :: rest) ∧
      32 ∉ method ∧ 32 ∉ target := by
  obtain ⟨method, back, rfl, hmethod⟩ :=
    List.eq_append_cons_of_mem (List.count_pos_iff.mp (Nat.lt_of_lt_of_le Nat.two_pos h))
  rw [List.count_append, List.count_cons_self, List.count_eq_zero.mpr hmethod] at h
  have hback : 0 < back.count 32 := by omega
  obtain ⟨target, rest, rfl, htarget⟩ :=
    List.eq_append_cons_of_mem (List.count_pos_iff.mp hback)
  exact ⟨method, target, rest, rfl, hmethod, htarget⟩

private theorem findIdx?_blank {front back : Bytes} (h : 32 ∉ front) :
    (front ++ 32 :: back).findIdx? (· == 32) = some front.length := by
  rw [List.findIdx?_append, List.findIdx?_eq_none_iff.mpr, List.findIdx?_cons]
  · simp
  · intro b hb
    exact beq_eq_false_iff_ne.mpr fun heq ↦ h (heq ▸ hb)

private theorem findIdx?_no_blank {line : Bytes} (h : 32 ∉ line) :
    line.findIdx? (· == 32) = none := by
  rw [List.findIdx?_eq_none_iff]
  intro b hb
  exact beq_eq_false_iff_ne.mpr fun heq ↦ h (heq ▸ hb)

private theorem drop_blank (front back : Bytes) :
    (front ++ 32 :: back).drop (front.length + 1) = back := by
  rw [List.drop_append, List.drop_of_length_le (Nat.le_succ _), List.nil_append,
    Nat.add_sub_cancel_left]
  rfl

private theorem parseRequest_eq_some {request method target rest : Bytes}
    (h : firstLine request = method ++ 32 :: (target ++ 32 :: rest)) (hmethod : 32 ∉ method)
    (htarget : 32 ∉ target) :
    parseRequest request = some ⟨method, target.takeWhile (· != 63)⟩ := by
  simp only [parseRequest, h, findIdx?_blank hmethod, drop_blank, findIdx?_blank htarget,
    Option.bind_eq_bind, Option.bind_some, List.take_left']
  rfl

/-- A request line with fewer than two blanks is refused. -/
theorem parseRequest_eq_none {request : Bytes} (h : lineBlanks request < 2) :
    parseRequest request = none := by
  unfold lineBlanks at h
  by_cases hblank : 32 ∈ firstLine request
  · obtain ⟨method, back, hline, hmethod⟩ := List.eq_append_cons_of_mem hblank
    rw [hline, List.count_append, List.count_cons_self, List.count_eq_zero.mpr hmethod] at h
    have hback : 32 ∉ back := List.count_eq_zero.mp (by omega)
    simp only [parseRequest, hline, findIdx?_blank hmethod, drop_blank, findIdx?_no_blank hback,
      Option.bind_eq_bind, Option.bind_some, Option.bind_none]
  · simp only [parseRequest, findIdx?_no_blank hblank, Option.bind_eq_bind, Option.bind_none]

/-! ### Segments -/

private theorem firstLine_append {segment front rest : Bytes} (more : Bytes)
    (h : firstLine segment = front ++ 32 :: rest) :
    ∃ rest', firstLine (segment ++ more) = front ++ 32 :: rest' := by
  induction segment generalizing front with
  | nil => cases front <;> cases h
  | cons b segment ih =>
    rw [firstLine] at h
    split at h
    · cases front <;> cases h
    · next hbreak =>
      cases front with
      | nil =>
        obtain ⟨rfl, -⟩ := List.cons.inj h
        exact ⟨firstLine (segment ++ more), rfl⟩
      | cons c front =>
        obtain ⟨rfl, hrest⟩ := List.cons.inj h
        obtain ⟨rest', hmore⟩ := ih hrest
        refine ⟨rest', ?_⟩
        -- The line goes on, so a line break that starts here is in the segment already.
        have hbreak' : ¬ [13, 10] <+: b :: (segment ++ more) := by
          cases segment with
          | nil => cases front <;> cases hrest
          | cons d segment => simpa [List.cons_prefix_cons] using hbreak
        rw [List.cons_append, firstLine, if_neg hbreak', hmore, List.cons_append]

/-- What is parsed of a segment whose line has two blanks is parsed of all that follows, too. -/
theorem parseRequest_append {segment : Bytes} (more : Bytes) (h : 2 ≤ lineBlanks segment) :
    parseRequest (segment ++ more) = parseRequest segment ∧ (parseRequest segment).isSome := by
  obtain ⟨method, target, rest, hline, hmethod, htarget⟩ := exists_two_blanks h
  obtain ⟨rest', hline'⟩ : ∃ rest', firstLine (segment ++ more) =
      (method ++ 32 :: target) ++ 32 :: rest' := by
    refine @firstLine_append _ _ rest more ?_
    rw [hline, List.append_assoc, List.cons_append]
  rw [List.append_assoc, List.cons_append] at hline'
  rw [parseRequest_eq_some hline hmethod htarget, parseRequest_eq_some hline' hmethod htarget]
  exact ⟨rfl, rfl⟩

/-! ### Answers -/

/-- The answer to a request line with fewer than two blanks. -/
def badRequest : Response := plainText 400 (ascii "Bad Request") (ascii "bad request\n")

private theorem answer_ne_badRequest {path : Bytes} {surroundings : Surroundings}
    {state state' : ExporterState} {r : Response}
    (h : answer path surroundings state = .ok (r, state')) : r.status ≠ 400 := by
  unfold answer at h
  split at h
  · obtain ⟨rfl, -⟩ := Prod.mk.inj (Except.ok.inj h)
    decide
  split at h
  · obtain ⟨ready, -, h⟩ := bind_eq_ok.mp h
    cases ready with
    | none =>
      obtain ⟨rfl, -⟩ := Prod.mk.inj (Except.ok.inj h)
      decide
    | some error =>
      obtain ⟨rfl, -⟩ := Prod.mk.inj (Except.ok.inj h)
      exact (by decide : 503 ≠ 400)
  split at h
  · obtain ⟨⟨body, scraped⟩, -, h⟩ := bind_eq_ok.mp h
    obtain ⟨rfl, -⟩ := Prod.mk.inj (Except.ok.inj h)
    exact (by decide : 200 ≠ 400)
  · obtain ⟨rfl, -⟩ := Prod.mk.inj (Except.ok.inj h)
    decide

section

variable {c c' : Connection} (state : ExporterState)

private theorem handleConnection_of_none (hne : c.request ≠ [])
    (h : parseRequest c.request = none) :
    handleConnection c state = .ok (some badRequest, state) := by
  rw [handleConnection, if_neg hne, h]
  rfl

private theorem handleConnection_of_isSome (hne : c.request ≠ [])
    (h : (parseRequest c.request).isSome) :
    handleConnection c state ≠ .ok (some badRequest, state) := by
  obtain ⟨request, hrequest⟩ := Option.isSome_iff_exists.mp h
  rw [handleConnection, if_neg hne, hrequest]
  dsimp only
  split
  · intro hanswer
    obtain ⟨hsame, -⟩ := Prod.mk.inj (Except.ok.inj hanswer)
    exact absurd (congrArg Response.status (Option.some.inj hsame)) (by decide)
  · intro hanswer
    obtain ⟨⟨r, state'⟩, hr, hsent⟩ := bind_eq_ok.mp hanswer
    obtain ⟨hsame, -⟩ := Prod.mk.inj (Except.ok.inj hsent)
    exact answer_ne_badRequest hr (congrArg Response.status (Option.some.inj hsame))

private theorem handleConnection_congr (hne : c.request ≠ []) (hne' : c'.request ≠ [])
    (hparse : parseRequest c.request = parseRequest c'.request)
    (hsurroundings : c.surroundings = c'.surroundings) :
    handleConnection c state = handleConnection c' state := by
  rw [handleConnection, handleConnection, if_neg hne, if_neg hne', hparse, hsurroundings]

end

/-- The answer to a request in segments, and the state behind it, are those to the request in one
piece exactly when the first segment has both blanks of the request line, or the line has not. -/
theorem segmentation_iff {segment : Bytes} {later : List Bytes} (hsegment : segment ≠ [])
    (hlength : (segment :: later).flatten.length < 8191) (surroundings : Surroundings)
    (state : ExporterState) :
    handleConnection (arriving (segment :: later) surroundings) state =
        handleConnection (arriving [(segment :: later).flatten] surroundings) state ↔
      2 ≤ lineBlanks segment ∨ lineBlanks (segment :: later).flatten < 2 := by
  rw [List.flatten_cons] at hlength ⊢
  have hshort : segment.length ≤ (segment ++ later.flatten).length := by simp
  have hfirst : (arriving (segment :: later) surroundings).request = segment :=
    List.take_of_length_le (hshort.trans (by omega))
  have hwhole : (arriving [segment ++ later.flatten] surroundings).request =
      segment ++ later.flatten := List.take_of_length_le hlength.le
  have hne : (arriving (segment :: later) surroundings).request ≠ [] := by rwa [hfirst]
  have hne' : (arriving [segment ++ later.flatten] surroundings).request ≠ [] := by
    rw [hwhole]
    exact List.append_ne_nil_of_left_ne_nil hsegment _
  by_cases htwo : 2 ≤ lineBlanks segment
  · refine iff_of_true ?_ (.inl htwo)
    refine handleConnection_congr state hne hne' ?_ rfl
    rw [hfirst, hwhole, (parseRequest_append later.flatten htwo).1]
  have hbad := handleConnection_of_none state hne
    (by rw [hfirst]; exact parseRequest_eq_none (by omega))
  rw [hbad, or_iff_right htwo]
  constructor
  · intro hsame
    by_contra hboth
    have hsome := (parseRequest_append [] (Nat.not_lt.mp hboth)).2
    exact handleConnection_of_isSome state hne' (by rwa [hwhole]) hsame.symm
  · intro hfew
    exact (handleConnection_of_none state hne'
      (by rw [hwhole]; exact parseRequest_eq_none hfew)).symm

/-- A scrape that would meet an empty file. -/
def emptyFile : Surroundings := ⟨.ok [], .zero, .ok .zero⟩

/-- A request whose first segment ends with its request line. -/
theorem segmentation_iff_line :
    handleConnection (arriving [ascii "GET /healthz HTTP/1.1\r\n", ascii "\r\n"] emptyFile) {} =
      handleConnection (arriving [ascii "GET /healthz HTTP/1.1\r\n" ++ ascii "\r\n"] emptyFile)
        {} :=
  (segmentation_iff (by decide) (by decide) emptyFile {}).mpr (.inl (by decide))

/-- A request whose first segment is its method is refused, though it is answered in one piece. -/
theorem segmented_request :
    handleConnection (arriving [ascii "GET", ascii " /healthz HTTP/1.1\r\n\r\n"] emptyFile) {} =
        .ok (some badRequest, {}) ∧
      handleConnection (arriving [ascii "GET" ++ ascii " /healthz HTTP/1.1\r\n\r\n"] emptyFile)
        {} = .ok (some (plainText 200 (ascii "OK") (ascii "ok\n")), {}) ∧
      badRequest ≠ plainText 200 (ascii "OK") (ascii "ok\n") :=
  ⟨rfl, rfl, by decide⟩

end MarketData.Exporter
