import MarketData.Exporter.Exposition

/-!
# Connections of the exporter

`handle_connection` of `tools/metrics_exporter.cpp` and the loop of `main` around it. A connection
delivers the bytes of one `recv`; what it meets of the metrics file and the clock is arbitrary.
-/

namespace MarketData.Exporter

open ByteText Cpp

/-- One connection: what `recv` has for it, nothing when it fails, and what a scrape would meet. -/
structure Connection where
  received : Bytes
  surroundings : Surroundings

/-- The bytes that fit into the buffer. -/
def Connection.request (c : Connection) : Bytes := c.received.take 8191

/-- The text before the first line break, or all of it. -/
def firstLine : Bytes → Bytes
  | [] => []
  | b :: rest => if [13, 10] <+: b :: rest then [] else b :: firstLine rest

/-- The method of a request and its target, without the query. -/
structure Request where
  method : Bytes
  path : Bytes
deriving DecidableEq

/-- The request line, when it has two blanks. -/
def parseRequest (request : Bytes) : Option Request := do
  let line := firstLine request
  let firstSpace ← line.findIdx? (· == 32)
  let rest := line.drop (firstSpace + 1)
  let length ← rest.findIdx? (· == 32)
  return ⟨line.take firstSpace, (rest.take length).takeWhile (· != 63)⟩

/-- What `send_response` is given. -/
structure Response where
  status : Nat
  reason : Bytes
  contentType : Bytes
  body : Bytes
deriving DecidableEq

/-- A response in plain text. -/
def plainText (status : Nat) (reason body : Bytes) : Response where
  status
  reason
  contentType := ascii "text/plain; charset=utf-8"
  body

/-- `snapshot_is_ready`, `tools/metrics_exporter.cpp:590–598`: the error that makes the snapshot
not ready, when there is one. -/
def snapshotIsReady (surroundings : Surroundings) : Checked (Option Bytes) :=
  match surroundings.contents >>= parseSnapshot with
  | .ok _ => .ok none
  | .error (.exception what) => .ok (some what)
  | .error .undefined => .error .undefined

/-- The answer to a path, and the state behind it. -/
def answer (path : Bytes) (surroundings : Surroundings) (state : ExporterState) :
    Checked (Response × ExporterState) :=
  if path = ascii "/healthz" then .ok (plainText 200 (ascii "OK") (ascii "ok\n"), state)
  else if path = ascii "/readyz" then do
    match ← snapshotIsReady surroundings with
    | none => .ok (plainText 200 (ascii "OK") (ascii "ready\n"), state)
    | some error =>
      .ok (plainText 503 (ascii "Service Unavailable") (ascii "not ready: " ++ error ++ ascii "\n"),
        state)
  else if path = ascii "/metrics" then do
    let (body, state) ← loadForScrape surroundings state
    .ok (⟨200, ascii "OK", ascii "text/plain; version=0.0.4; charset=utf-8", body⟩, state)
  else .ok (plainText 404 (ascii "Not Found") (ascii "not found\n"), state)

/-- `handle_connection`, `tools/metrics_exporter.cpp:600–651`: the response that is sent, when one
is, and the state behind it. -/
def handleConnection (c : Connection) (state : ExporterState) :
    Checked (Option Response × ExporterState) :=
  if c.request = [] then .ok (none, state)
  else
    match parseRequest c.request with
    | none => .ok (plainText 400 (ascii "Bad Request") (ascii "bad request\n"), state)
    | some request =>
      if request.method ≠ ascii "GET" then
        .ok (plainText 405 (ascii "Method Not Allowed") (ascii "method not allowed\n"), state)
      else do
        let (response, state) ← answer request.path c.surroundings state
        .ok (response, state)

/-- The state of the exporter behind some connections. -/
def serve (connections : List Connection) : Checked ExporterState :=
  connections.foldlM (fun state c ↦ Prod.snd <$> handleConnection c state) {}

end MarketData.Exporter
