import MarketData.Base.Http
import MarketData.Exporter.Server

/-!
# Responses of the exporter

`send_response` and `send_all` of `tools/metrics_exporter.cpp`, up to what the socket accepts: the
way of the accepted bytes to the client is not part of the model. Whatever `::send` returns, a
client that gets them has a response as a whole or knows that it does not.
-/

namespace MarketData.Exporter

open ByteText Cpp

/-- The text that `send_response` sends, `tools/metrics_exporter.cpp:575–588`. -/
def Response.text (r : Response) : Bytes :=
  stream [ascii "HTTP/1.1 ", decimal r.status, ascii " ", r.reason, ascii "\r\n",
    ascii "Content-Type: ", r.contentType, ascii "\r\n",
    ascii "Content-Length: ", decimal r.body.length, ascii "\r\n",
    ascii "Cache-Control: no-store\r\n",
    ascii "Connection: close\r\n\r\n",
    r.body]

/-- `send_all`, `tools/metrics_exporter.cpp:563–573`: what the socket accepts, where `::send`
returns the results one after the other and no more. -/
def sendAll : List Int → Bytes → Bytes
  | _, [] => []
  | [], _ :: _ => []
  | result :: results, b :: rest =>
    if result ≤ 0 then []
    else
      (b :: rest).take result.toNat ++ sendAll results ((b :: rest).drop result.toNat)

/-! ### Delivery -/

/-- What the socket accepts is the start of what is sent. -/
theorem sendAll_prefix (results : List Int) (response : Bytes) :
    sendAll results response <+: response := by
  fun_induction sendAll results response with
  | case1 => exact List.prefix_rfl
  | case2 => exact List.nil_prefix
  | case3 => exact List.nil_prefix
  | case4 result results b rest _ ih =>
    have hsplit := List.prefix_append_right_inj ((b :: rest).take result.toNat) |>.mpr ih
    rwa [List.take_append_drop] at hsplit

/-- All of it is accepted when no call fails. -/
theorem sendAll_eq {results : List Int} {response : Bytes} (h : ∀ result ∈ results, 0 < result)
    (hlength : response.length ≤ results.length) : sendAll results response = response := by
  fun_induction sendAll results response with
  | case1 => rfl
  | case2 b rest => simp at hlength
  | case3 result results b rest hle =>
    have hpos := h result List.mem_cons_self
    omega
  | case4 result results b rest hpos ih =>
    rw [ih, List.take_append_drop]
    · exact fun r hr ↦ h r (List.mem_cons_of_mem _ hr)
    · simp only [List.length_drop, List.length_cons] at hlength ⊢
      omega

/-! ### The message -/

/-- What a client is to read. -/
def Response.message (r : Response) : Http.Message where
  status := r.status
  reason := r.reason
  fields := [(ascii "Content-Type", r.contentType),
    (ascii "Content-Length", decimal r.body.length),
    (ascii "Cache-Control", ascii "no-store"), (ascii "Connection", ascii "close")]
  body := r.body

/-- The text is that of the message. -/
theorem text_eq_write (r : Response) : r.text = Http.write r.message := by
  have hcrlf : ascii "\r\n" = Http.crlf := by decide
  have htype : ascii "Content-Type: " = ascii "Content-Type" ++ ascii ": " := by decide
  have hlength : ascii "Content-Length: " = ascii "Content-Length" ++ ascii ": " := by decide
  have hcache : ascii "Cache-Control: no-store\r\n" =
      ascii "Cache-Control" ++ ascii ": " ++ ascii "no-store" ++ Http.crlf := by decide
  have hclose : ascii "Connection: close\r\n\r\n" =
      ascii "Connection" ++ ascii ": " ++ ascii "close" ++ Http.crlf ++ Http.crlf := by decide
  rw [Response.text, hcrlf, htype, hlength, hcache, hclose]
  simp [stream, Http.write, Http.writeField, Response.message, List.append_assoc]

/-- Reason and content type fit on their lines. -/
def Response.Plain (r : Response) : Prop :=
  13 ∉ r.reason ∧ 13 ∉ r.contentType ∧ r.contentType.head? ≠ some 32

/-- The parts of a response are checked byte by byte. -/
instance (r : Response) : Decidable r.Plain := inferInstanceAs (Decidable (_ ∧ _ ∧ _))

private theorem plain_plainText {status : Nat} {reason body : Bytes} (h : 13 ∉ reason) :
    (plainText status reason body).Plain :=
  ⟨h, (by decide : 13 ∉ ascii "text/plain; charset=utf-8"),
    (by decide : (ascii "text/plain; charset=utf-8").head? ≠ some 32)⟩

/-- Every response of `handle_connection` fits. -/
theorem plain_of_handled {c : Connection} {r : Response} {before after : ExporterState}
    (h : handleConnection c before = .ok (some r, after)) : r.Plain := by
  unfold handleConnection at h
  split at h
  · cases h
  split at h
  · obtain rfl := Option.some.inj (Prod.mk.inj (Except.ok.inj h)).1
    exact plain_plainText (by decide)
  split at h
  · obtain rfl := Option.some.inj (Prod.mk.inj (Except.ok.inj h)).1
    exact plain_plainText (by decide)
  obtain ⟨⟨response, state⟩, hanswer, h⟩ := bind_eq_ok.mp h
  obtain rfl := Option.some.inj (Prod.mk.inj (Except.ok.inj h)).1
  unfold answer at hanswer
  split at hanswer
  · obtain rfl := (Prod.mk.inj (Except.ok.inj hanswer)).1
    exact plain_plainText (by decide)
  split at hanswer
  · obtain ⟨error, -, hanswer⟩ := bind_eq_ok.mp hanswer
    cases error with
    | none =>
      obtain rfl := (Prod.mk.inj (Except.ok.inj hanswer)).1
      exact plain_plainText (by decide)
    | some what =>
      obtain rfl := (Prod.mk.inj (Except.ok.inj hanswer)).1
      exact plain_plainText (by decide)
  split at hanswer
  · obtain ⟨⟨body, state'⟩, -, hanswer⟩ := bind_eq_ok.mp hanswer
    obtain rfl := (Prod.mk.inj (Except.ok.inj hanswer)).1
    exact ⟨(by decide : 13 ∉ ascii "OK"),
      (by decide : 13 ∉ ascii "text/plain; version=0.0.4; charset=utf-8"),
      (by decide : (ascii "text/plain; version=0.0.4; charset=utf-8").head? ≠ some 32)⟩
  · obtain rfl := (Prod.mk.inj (Except.ok.inj hanswer)).1
    exact plain_plainText (by decide)

/-- A response that fits is framed by its length. -/
theorem Response.Plain.framed {r : Response} (h : r.Plain) : r.message.Framed := by
  have hdigits : ∀ b ∈ decimal r.body.length, isDigit b = true :=
    fun b hb ↦ isDigit_of_mem_decimal hb
  refine ⟨h.1, ?_, ?_⟩
  · simp only [Response.message, List.mem_cons, List.not_mem_nil, or_false]
    rintro field (rfl | rfl | rfl | rfl)
    · exact ⟨(by decide : 58 ∉ ascii "Content-Type"), (by decide : 13 ∉ ascii "Content-Type"),
        h.2.1, h.2.2⟩
    · refine ⟨(by decide : 58 ∉ ascii "Content-Length"), (by decide : 13 ∉ ascii "Content-Length"),
        ?_, ?_⟩
      · intro hmem
        exact absurd (hdigits _ hmem) (by decide)
      · intro hhead
        exact absurd (hdigits _ (List.mem_of_head? hhead)) (by decide)
    · exact ⟨by decide, by decide, by decide, by decide⟩
    · exact ⟨by decide, by decide, by decide, by decide⟩
  · have hlookup : r.message.fields.lookup (ascii "Content-Length") =
        some (decimal r.body.length) := by
      have htype : (ascii "Content-Length" == ascii "Content-Type") = false := by decide
      have hself : (ascii "Content-Length" == ascii "Content-Length") = true := by decide
      simp only [Response.message, List.lookup_cons, htype, hself]
    have hvalue : decimal r.body.length ≠ [] ∧ (decimal r.body.length).all isDigit :=
      ⟨decimal_ne_nil _, List.all_eq_true.mpr hdigits⟩
    rw [Http.contentLength, hlookup, Option.bind_eq_bind, Option.bind_some, if_pos hvalue,
      numeral_decimal]
    rfl

/-- Whatever `::send` returns for a response of `handle_connection`, the socket accepts the start
of its text. A client that gets what was accepted reads the response where all of it was accepted
and nothing otherwise; all of it is accepted when no call fails. -/
theorem response_delivered {c : Connection} {r : Response} {before after : ExporterState}
    (h : handleConnection c before = .ok (some r, after)) (results : List Int) :
    sendAll results r.text <+: r.text ∧
    (∀ m, Http.read (sendAll results r.text) = some m ↔
      sendAll results r.text = r.text ∧ m = r.message) ∧
    ((∀ result ∈ results, 0 < result) → r.text.length ≤ results.length →
      sendAll results r.text = r.text) := by
  have hframed := (plain_of_handled h).framed
  have haccepted := sendAll_prefix results r.text
  have hwhole : Http.read r.text = some r.message := by
    rw [text_eq_write, ← List.append_nil (Http.write r.message)]
    exact Http.read_write hframed []
  refine ⟨haccepted, fun m ↦ ⟨fun hread ↦ ?_, ?_⟩, sendAll_eq⟩
  · rw [text_eq_write] at haccepted hread ⊢
    have hall := Http.eq_of_read_prefix hframed haccepted hread
    refine ⟨hall, ?_⟩
    rw [hall, ← text_eq_write, hwhole] at hread
    exact (Option.some.inj hread).symm
  · rintro ⟨hall, rfl⟩
    rw [hall, hwhole]

/-- A health check whose response is sent in two parts is read. -/
theorem response_delivered_health :
    Http.read (sendAll [40, 200] (plainText 200 (ascii "OK") (ascii "ok\n")).text) =
      some (plainText 200 (ascii "OK") (ascii "ok\n")).message := by
  have hok :
      handleConnection ⟨ascii "GET /healthz HTTP/1.1\r\n\r\n", ⟨.ok [], .zero, .ok .zero⟩⟩ {} =
      .ok (some (plainText 200 (ascii "OK") (ascii "ok\n")), {}) := rfl
  exact ((response_delivered hok [40, 200]).2.1 _).mpr ⟨by decide +kernel, rfl⟩

end MarketData.Exporter
