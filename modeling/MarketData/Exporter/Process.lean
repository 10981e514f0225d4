import MarketData.Base.Trace
import MarketData.Exporter.Server
import Mathlib.Logic.Function.Basic

/-!
# The exporter process

`request_stop`, `create_listener` and the serving part of `main` of `tools/metrics_exporter.cpp`,
step by step. A signal may arrive before any step and interrupts what runs, another handler
included; the system decides what a call returns.
-/

namespace MarketData.Exporter

open ByteText Cpp

/-! ### The process -/

/-- What an open descriptor refers to; what the exporter did not open itself is foreign. -/
inductive Resource where
  | foreign
  | listener
  | client
  | file
deriving DecidableEq

/-- Where a run of `request_stop`, `tools/metrics_exporter.cpp:29–35`, stands: before which of its
actions. -/
inductive Handler where
  /-- `stop_requested = 1` -/
  | flag
  /-- `listening_socket >= 0` -/
  | test
  /-- the argument of `::close` -/
  | load
  /-- `::close` -/
  | close (fd : Int)
  /-- `listening_socket = -1` -/
  | forget
deriving DecidableEq

/-- Where `main`, `tools/metrics_exporter.cpp:833–864`, stands behind the installation of the
handlers: before which of its actions. -/
inductive Main where
  /-- `::socket` in `create_listener` -/
  | socket
  /-- `::setsockopt` -/
  | configure (fd : Int)
  /-- `::inet_pton` -/
  | address (fd : Int)
  /-- `::bind` -/
  | bind (fd : Int)
  /-- `::listen` -/
  | listen (fd : Int)
  /-- `::close` before `create_listener` throws -/
  | abandon (fd : Int) (what : Bytes)
  /-- `listening_socket = server` -/
  | publish (server : Int)
  /-- `while (!stop_requested)` -/
  | check (server : Int)
  /-- `::accept` -/
  | accept (server : Int)
  /-- `if (stop_requested)` behind a failed `::accept` -/
  | failed (server : Int)
  /-- `errno == EINTR` -/
  | judge (server : Int)
  /-- the text of the error -/
  | complain (server : Int)
  /-- `handle_connection`, the metrics file not opened -/
  | receive (server client : Int)
  /-- `handle_connection`, inside `read_file` -/
  | read (server client file : Int)
  /-- `handle_connection` behind `read_file` -/
  | answer (server client : Int)
  /-- `::close(client)` -/
  | release (server client : Int)
  /-- `listening_socket >= 0` behind the loop -/
  | leave (server : Int)
  /-- `::close(server)` -/
  | shut (server : Int)
  /-- `listening_socket = -1` -/
  | forget
  /-- `main` has returned, and printed the error if there is one. -/
  | returned (status : Nat) (error : Option Bytes)
deriving DecidableEq

/-- The process behind the installation of its handlers. The frames are the running handlers, the
innermost first; `main` goes on when there are none. -/
structure Process where
  table : Int → Option Resource
  errno : Nat := 0
  stopRequested : Bool := false
  listeningSocket : Int := -1
  frames : List Handler := []
  main : Main := .socket
  state : ExporterState := {}

/-- What happens next: a signal, an action of the innermost handler or one of `main`, with what
the system returns. -/
inductive Event where
  /-- `SIGINT` or `SIGTERM` -/
  | signal
  | handler
  /-- an action of `main` that needs no answer -/
  | next
  | created (fd : Int)
  | accepted (fd : Int)
  | opened (fd : Int)
  | succeeded
  | failed (errno : Nat)
  | connection (c : Connection)

/-! ### Steps -/

namespace Process

/-- The descriptor may be given to something new. -/
def Free (p : Process) (fd : Int) : Prop := 0 ≤ fd ∧ p.table fd = none

/-- The table tells whether a descriptor is free. -/
instance (p : Process) (fd : Int) : Decidable (p.Free fd) := inferInstanceAs (Decidable (_ ∧ _))

/-- A descriptor refers to something new. -/
def hold (p : Process) (fd : Int) (what : Resource) : Process :=
  { p with table := Function.update p.table fd (some what) }

/-- `::close`; a descriptor that is not open leaves `EBADF`. -/
def close (p : Process) (fd : Int) : Process :=
  if p.table fd = none then { p with errno := 9 }
  else { p with table := Function.update p.table fd none }

/-- `main` goes on at another place. -/
def goto (p : Process) (m : Main) : Process := { p with main := m }

/-- An action of `request_stop`, `tools/metrics_exporter.cpp:29–35`. -/
def handlerStep (p : Process) (frame : Handler) (outer : List Handler) : Process :=
  match frame with
  | .flag => { p with stopRequested := true, frames := .test :: outer }
  | .test => { p with frames := if 0 ≤ p.listeningSocket then .load :: outer else outer }
  | .load => { p with frames := .close p.listeningSocket :: outer }
  | .close fd => { p.close fd with frames := .forget :: outer }
  | .forget => { p with listeningSocket := -1, frames := outer }

/-- An action of `main`, where the system may answer so. Only a listening socket accepts. -/
def mainStep (strerror : Nat → Bytes) (p : Process) (e : Event) : Option Process :=
  match p.main, e with
  | .socket, .created fd => if p.Free fd then some ((p.hold fd .listener).goto (.configure fd))
    else none
  | .socket, .failed errno => some (p.goto (.returned 2
      (some (ascii "cannot create listening socket: " ++ strerror errno))))
  | .configure fd, .succeeded => some (p.goto (.address fd))
  | .configure fd, .failed _ =>
    some (p.goto (.abandon fd (ascii "cannot configure listening socket")))
  | .address fd, .succeeded => some (p.goto (.bind fd))
  | .address fd, .failed _ =>
    some (p.goto (.abandon fd (ascii "listen address must be an IPv4 address or localhost")))
  | .bind fd, .succeeded => some (p.goto (.listen fd))
  | .bind fd, .failed errno =>
    some (p.goto (.abandon fd (ascii "cannot bind exporter socket: " ++ strerror errno)))
  | .listen fd, .succeeded => some (p.goto (.publish fd))
  | .listen fd, .failed errno =>
    some (p.goto (.abandon fd (ascii "cannot listen on exporter socket: " ++ strerror errno)))
  | .abandon fd what, .next => some ((p.close fd).goto (.returned 2 (some what)))
  | .publish server, .next => some { p with listeningSocket := server, main := .check server }
  | .check server, .next =>
    some (p.goto (if p.stopRequested then .leave server else .accept server))
  | .accept server, .accepted fd =>
    if p.table server = some .listener ∧ p.Free fd then
      some ((p.hold fd .client).goto (.receive server fd))
    else none
  | .accept server, .failed errno => some { p with errno := errno, main := .failed server }
  | .failed server, .next =>
    some (p.goto (if p.stopRequested then .leave server else .judge server))
  | .judge server, .next =>
    -- `EINTR`
    some (p.goto (if p.errno = 4 then .check server else .complain server))
  | .complain _, .next =>
    some (p.goto (.returned 2 (some (ascii "exporter accept failed: " ++ strerror p.errno))))
  | .receive server client, .opened fd =>
    if p.Free fd then some ((p.hold fd .file).goto (.read server client fd)) else none
  | .receive server client, .connection c | .answer server client, .connection c =>
    match handleConnection c p.state with
    | .ok (_, state) => some { p with state := state, main := .release server client }
    | .error _ => none
  | .read server client file, .next => some ((p.close file).goto (.answer server client))
  | .release server client, .next => some ((p.close client).goto (.check server))
  | .leave server, .next =>
    some (p.goto (if 0 ≤ p.listeningSocket then .shut server else .returned 0 none))
  | .shut server, .next => some ((p.close server).goto .forget)
  | .forget, .next => some { p with listeningSocket := -1, main := .returned 0 none }
  | _, _ => none

/-- `main` has returned, with whatever status. -/
def Returned (p : Process) : Prop := ∃ status error, p.main = .returned status error

/-- One step of the process. A signal that arrives behind the return of `main` is not looked at. -/
def step (strerror : Nat → Bytes) (p : Process) (e : Event) : Option Process :=
  match e with
  | .signal =>
    match p.main with
    | .returned _ _ => none
    | _ => some { p with frames := .flag :: p.frames }
  | .handler =>
    match p.frames with
    | [] => none
    | frame :: outer => some (p.handlerStep frame outer)
  | e => if p.frames = [] then p.mainStep strerror e else none

/-! ### Fields behind a step -/

section

variable {p : Process} {m : Main} {fd d : Int} {what r : Resource}

/-- Going on leaves the table. -/
@[simp] theorem goto_table : (p.goto m).table = p.table := rfl

/-- `main` is where it went. -/
@[simp] theorem goto_main : (p.goto m).main = m := rfl

/-- Going on leaves the handlers. -/
@[simp] theorem goto_frames : (p.goto m).frames = p.frames := rfl

/-- Going on leaves `listening_socket`. -/
@[simp] theorem goto_listeningSocket : (p.goto m).listeningSocket = p.listeningSocket := rfl

/-- Going on leaves `stop_requested`. -/
@[simp] theorem goto_stopRequested : (p.goto m).stopRequested = p.stopRequested := rfl

/-- Going on leaves the state of the exporter. -/
@[simp] theorem goto_state : (p.goto m).state = p.state := rfl

/-- A new descriptor leaves the handlers. -/
@[simp] theorem hold_frames : (p.hold fd what).frames = p.frames := rfl

/-- A new descriptor leaves `listening_socket`. -/
@[simp] theorem hold_listeningSocket :
    (p.hold fd what).listeningSocket = p.listeningSocket := rfl

/-- A new descriptor leaves `stop_requested`. -/
@[simp] theorem hold_stopRequested : (p.hold fd what).stopRequested = p.stopRequested := rfl

/-- A new descriptor leaves the state of the exporter. -/
@[simp] theorem hold_state : (p.hold fd what).state = p.state := rfl

/-- A new descriptor is added to the open ones. -/
@[simp] theorem hold_table :
    (p.hold fd what).table d = some r ↔ (d = fd ∧ r = what) ∨ (d ≠ fd ∧ p.table d = some r) := by
  by_cases h : d = fd
  · subst h
    simp [hold, eq_comm]
  · simp [hold, h]

/-- A close leaves `main` where it is. -/
@[simp] theorem close_main : (p.close fd).main = p.main := by
  unfold close
  split <;> rfl

/-- A close leaves the handlers. -/
@[simp] theorem close_frames : (p.close fd).frames = p.frames := by
  unfold close
  split <;> rfl

/-- A close leaves `listening_socket`. -/
@[simp] theorem close_listeningSocket : (p.close fd).listeningSocket = p.listeningSocket := by
  unfold close
  split <;> rfl

/-- A close leaves `stop_requested`. -/
@[simp] theorem close_stopRequested : (p.close fd).stopRequested = p.stopRequested := by
  unfold close
  split <;> rfl

/-- A close leaves the state of the exporter. -/
@[simp] theorem close_state : (p.close fd).state = p.state := by
  unfold close
  split <;> rfl

/-- A closed descriptor is taken from the open ones. -/
@[simp] theorem close_table :
    (p.close fd).table d = some r ↔ d ≠ fd ∧ p.table d = some r := by
  unfold close
  split
  · next hnone =>
    constructor
    · intro h
      refine ⟨?_, h⟩
      rintro rfl
      rw [hnone] at h
      cases h
    · exact And.right
  · by_cases h : d = fd
    · subst h
      simp
    · simp [h]

end

end Process

end MarketData.Exporter
