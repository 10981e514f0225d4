import MarketData.Exporter.Process

/-!
# The invariant of the exporter process

The position of `main` says what the exporter has opened, `listening_socket` names the listener
until it is closed, and a request to stop that finds the loop running has a handler on its way to
the listener. Handlers and `main` keep this, in whatever order they run.
-/

namespace MarketData.Exporter

open ByteText Cpp

/-! ### Positions of `main` -/

namespace Main

/-- The socket that is created and not published. -/
@[grind =] def fresh? : Main → Option Int
  | configure fd => some fd
  | address fd => some fd
  | bind fd => some fd
  | listen fd => some fd
  | abandon fd _ => some fd
  | publish fd => some fd
  | _ => none

/-- The published socket. -/
@[grind =] def server? : Main → Option Int
  | check server => some server
  | accept server => some server
  | failed server => some server
  | judge server => some server
  | complain server => some server
  | receive server _ => some server
  | read server _ _ => some server
  | answer server _ => some server
  | release server _ => some server
  | leave server => some server
  | shut server => some server
  | _ => none

/-- The connection in hand. -/
@[grind =] def client? : Main → Option Int
  | receive _ client => some client
  | read _ client _ => some client
  | answer _ client => some client
  | release _ client => some client
  | _ => none

/-- The metrics file in hand. -/
@[grind =] def file? : Main → Option Int
  | read _ _ file => some file
  | _ => none

/-- Between two checks of the flag. -/
@[grind =] def Working : Main → Prop
  | accept _ => True
  | failed _ => True
  | judge _ => True
  | complain _ => True
  | receive _ _ => True
  | read _ _ _ => True
  | answer _ _ => True
  | release _ _ => True
  | _ => False

/-- Behind the loop. -/
@[grind =] def Left : Main → Prop
  | leave _ => True
  | shut _ => True
  | forget => True
  | returned status _ => status = 0
  | _ => False

/-- No socket is open any more, or none yet. -/
@[grind =] def Bare : Main → Prop
  | socket => True
  | forget => True
  | returned status _ => status = 0
  | _ => False

/-- Behind the publication, and not on the way to an error: the test for `EINTR` and the complaint
behind a failed `::accept` are left out. -/
@[grind =] def Serving : Main → Prop
  | check _ => True
  | accept _ => True
  | failed _ => True
  | receive _ _ => True
  | read _ _ _ => True
  | answer _ _ => True
  | release _ _ => True
  | leave _ => True
  | shut _ => True
  | forget => True
  | returned status error => status = 0 ∧ error = none
  | _ => False

/-- The number of actions left where no connection is accepted any more. -/
@[grind =] def rank : Main → Nat
  | socket => 11
  | configure _ => 10
  | address _ => 9
  | bind _ => 8
  | listen _ => 7
  | publish _ => 6
  | abandon _ _ => 1
  | receive _ _ => 8
  | read _ _ _ => 7
  | answer _ _ => 6
  | accept _ => 6
  | release _ _ => 5
  | failed _ => 5
  | judge _ => 5
  | complain _ => 1
  | check _ => 4
  | leave _ => 3
  | shut _ => 2
  | forget => 1
  | returned _ _ => 0

/-- A published socket is not a fresh one. -/
theorem Working.fresh? {m : Main} (h : m.Working) : m.fresh? = none := by
  cases m <;> first | rfl | exact h.elim

end Main

/-! ### Events -/

namespace Event

/-- A signal arrives. -/
def isSignal : Event → Bool
  | signal => true
  | _ => false

/-- A handler goes on. -/
def isHandler : Event → Bool
  | handler => true
  | _ => false

/-- A connection is accepted. -/
def isAccepted : Event → Bool
  | accepted _ => true
  | _ => false

/-- The connection that is handled. -/
def connection? : Event → Option Connection
  | connection c => some c
  | _ => none

end Event

/-! ### Actions of `main` -/

namespace Process

/-- `main` goes from one position to another without touching a descriptor. -/
structure Move (p : Process) (m : Main) : Prop where
  fresh : m.fresh? = p.main.fresh?
  server : m.server? = p.main.server?
  client : m.client? = p.main.client?
  file : m.file? = p.main.file?
  idle : m.client? = none
  working : m.Working → p.main.Working ∨ p.stopRequested = false
  left : m.Left → p.stopRequested = true
  bare : ¬ m.Bare
  forget : p.main ≠ .forget
  shut : ∀ server, m ≠ .shut server
  serving : p.main.Serving → p.stopRequested = true → m.Serving
  rank : p.stopRequested = true → m.rank < p.main.rank

/-- What an action of `main` does. -/
inductive Turn (p : Process) : Event → Process → Prop where
  | move {e : Event} {errno : Nat} {m : Main} (h : p.Move m) (haccepted : e.isAccepted = false)
      (hconnection : e.connection? = none) : Turn p e { p with errno := errno, main := m }
  | refuse {errno : Nat} {what : Bytes} (hm : p.main = .socket) :
      Turn p (.failed errno) (p.goto (.returned 2 (some what)))
  | create {fd : Int} (hm : p.main = .socket) (hfree : p.Free fd) :
      Turn p (.created fd) ((p.hold fd .listener).goto (.configure fd))
  | abandon {fd : Int} {what : Bytes} (hm : p.main = .abandon fd what) :
      Turn p .next ((p.close fd).goto (.returned 2 (some what)))
  | publish {server : Int} (hm : p.main = .publish server) :
      Turn p .next { p with listeningSocket := server, main := .check server }
  | accept {server fd : Int} (hm : p.main = .accept server)
      (hlistener : p.table server = some .listener) (hfree : p.Free fd) :
      Turn p (.accepted fd) ((p.hold fd .client).goto (.receive server fd))
  | complain {server : Int} {what : Bytes} (hm : p.main = .complain server) :
      Turn p .next (p.goto (.returned 2 (some what)))
  | read {server client fd : Int} (hm : p.main = .receive server client) (hfree : p.Free fd) :
      Turn p (.opened fd) ((p.hold fd .file).goto (.read server client fd))
  | answer {server client file : Int} (hm : p.main = .read server client file) :
      Turn p .next ((p.close file).goto (.answer server client))
  | respond {server client : Int} {c : Connection} {response : Option Response}
      {state : ExporterState}
      (hm : p.main = .receive server client ∨ p.main = .answer server client)
      (hc : handleConnection c p.state = .ok (response, state)) :
      Turn p (.connection c) { p with state := state, main := .release server client }
  | release {server client : Int} (hm : p.main = .release server client) :
      Turn p .next ((p.close client).goto (.check server))
  | leave {server : Int} (hm : p.main = .leave server) :
      Turn p .next
        (p.goto (if 0 ≤ p.listeningSocket then .shut server else .returned 0 none))
  | shut {server : Int} (hm : p.main = .shut server) :
      Turn p .next ((p.close server).goto .forget)
  | forget (hm : p.main = .forget) :
      Turn p .next { p with listeningSocket := -1, main := .returned 0 none }

variable {p p' : Process} {e : Event} {strerror : Nat → Bytes}

private theorem turn_of_move {m : Main} {errno : Nat}
    (h : some { p with errno := errno, main := m } = some p') (hmove : p.Move m)
    (haccepted : e.isAccepted = false) (hconnection : e.connection? = none) : Turn p e p' := by
  obtain rfl := Option.some.inj h
  exact .move hmove haccepted hconnection

private theorem turn_of_connection {server client : Int} {c : Connection}
    (hm : p.main = .receive server client ∨ p.main = .answer server client)
    (h : (match handleConnection c p.state with
      | .ok (_, state) => some { p with state := state, main := .release server client }
      | .error _ => none) = some p') : Turn p (.connection c) p' := by
  split at h
  · next response state hc =>
    obtain rfl := Option.some.inj h
    exact .respond hm hc
  · cases h

/-- Every action of `main` is a turn. -/
theorem turn_of_mainStep (h : p.mainStep strerror e = some p') : Turn p e p' := by
  unfold mainStep at h
  split at h
  · next fd hm =>
    split at h
    · next hfree =>
      obtain rfl := Option.some.inj h
      exact .create hm hfree
    · cases h
  · next errno hm =>
    obtain rfl := Option.some.inj h
    exact .refuse hm
  · next fd hm => exact turn_of_move h (by constructor <;> grind) rfl rfl
  · next fd errno hm => exact turn_of_move h (by constructor <;> grind) rfl rfl
  · next fd hm => exact turn_of_move h (by constructor <;> grind) rfl rfl
  · next fd errno hm => exact turn_of_move h (by constructor <;> grind) rfl rfl
  · next fd hm => exact turn_of_move h (by constructor <;> grind) rfl rfl
  · next fd errno hm => exact turn_of_move h (by constructor <;> grind) rfl rfl
  · next fd hm => exact turn_of_move h (by constructor <;> grind) rfl rfl
  · next fd errno hm => exact turn_of_move h (by constructor <;> grind) rfl rfl
  · next fd what hm =>
    obtain rfl := Option.some.inj h
    exact .abandon hm
  · next server hm =>
    obtain rfl := Option.some.inj h
    exact .publish hm
  · next server hm => exact turn_of_move h (by constructor <;> grind) rfl rfl
  · next server fd hm =>
    split at h
    · next hc =>
      obtain rfl := Option.some.inj h
      exact .accept hm hc.1 hc.2
    · cases h
  · next server errno hm => exact turn_of_move h (by constructor <;> grind) rfl rfl
  · next server hm => exact turn_of_move h (by constructor <;> grind) rfl rfl
  · next server hm => exact turn_of_move h (by constructor <;> grind) rfl rfl
  · next server hm =>
    obtain rfl := Option.some.inj h
    exact .complain hm
  · next server client fd hm =>
    split at h
    · next hfree =>
      obtain rfl := Option.some.inj h
      exact .read hm hfree
    · cases h
  · next server client c hm => exact turn_of_connection (.inl hm) h
  · next server client c hm => exact turn_of_connection (.inr hm) h
  · next server client file hm =>
    obtain rfl := Option.some.inj h
    exact .answer hm
  · next server client hm =>
    obtain rfl := Option.some.inj h
    exact .release hm
  · next server hm =>
    obtain rfl := Option.some.inj h
    exact .leave hm
  · next server hm =>
    obtain rfl := Option.some.inj h
    exact .shut hm
  · next hm =>
    obtain rfl := Option.some.inj h
    exact .forget hm
  · cases h

/-- A step is an arriving signal, an action of the innermost handler, or one of `main` while no
handler runs. -/
theorem step_cases (h : p.step strerror e = some p') :
    (e = .signal ∧ ¬ p.Returned ∧ p' = { p with frames := .flag :: p.frames }) ∨
    (e = .handler ∧ ∃ frame outer, p.frames = frame :: outer ∧ p' = p.handlerStep frame outer) ∨
    (e.isSignal = false ∧ p.frames = [] ∧ p.Turn e p') := by
  unfold step at h
  split at h
  · split at h
    · cases h
    · next hreturned =>
      refine .inl ⟨rfl, ?_, (Option.some.inj h).symm⟩
      rintro ⟨status, error, hm⟩
      exact hreturned status error hm
  · split at h
    · cases h
    · next frame outer hf => exact .inr (.inl ⟨rfl, frame, outer, hf, (Option.some.inj h).symm⟩)
  · next hsignal hhandler =>
    split at h
    · next hf =>
      have hnone : e.isSignal = false := by
        cases e <;> first | rfl | exact absurd rfl hsignal
      exact .inr (.inr ⟨hnone, hf, turn_of_mainStep h⟩)
    · cases h

end Process

/-! ### The invariant -/

/-- What is open belongs to the position of `main`, or was open before. -/
@[grind cases] structure Owned (table₀ : Int → Option Resource) (p : Process) : Prop where
  nonneg : ∀ d r, p.table d = some r → 0 ≤ d
  foreign : ∀ d, p.table d = some .foreign ↔ table₀ d = some .foreign
  client : ∀ d, p.table d = some .client ↔ p.main.client? = some d
  file : ∀ d, p.table d = some .file ↔ p.main.file? = some d
  fresh : ∀ d, p.main.fresh? = some d → ∀ d', p.table d' = some .listener ↔ d' = d
  bare : p.main.Bare → ∀ d, p.table d ≠ some .listener

/-- The variable names the listener from its publication to its closing. -/
@[grind cases] structure Published (p : Process) : Prop where
  before : p.main = .socket ∨ p.main.fresh? ≠ none → p.listeningSocket = -1
  behind : ∀ d, p.main.server? = some d → p.listeningSocket = d ∨ p.listeningSocket = -1
  only : p.main.fresh? = none → ∀ d, p.table d = some .listener → d = p.listeningSocket
  own : ∀ r, p.table p.listeningSocket = some r → r = .listener
  still : 0 ≤ p.listeningSocket →
    p.table p.listeningSocket = some .listener ∨ .forget ∈ p.frames ∨ p.main = .forget
  shut : ∀ d, p.main = .shut d → ∀ r, p.table d = some r → r = .listener

/-- A handler that is behind its test closes the listener or finds it closed, and a request to
stop that finds the loop running has such a handler as long as the listener is open. -/
@[grind cases] structure Heeded (p : Process) : Prop where
  tested : .load ∈ p.frames ∨ (∃ d, .close d ∈ p.frames) → p.main.fresh? = none
  own : ∀ d, .close d ∈ p.frames → ∀ r, p.table d = some r → r = .listener
  only : ∀ d, .close d ∈ p.frames → ∀ d', p.table d' = some .listener → d' = d
  closed : .forget ∈ p.frames → ∀ d, p.table d ≠ some .listener
  stop : p.main.Working → p.stopRequested = true → ∀ d, p.table d = some .listener →
    .test ∈ p.frames ∨ .load ∈ p.frames ∨ .close d ∈ p.frames
  left : p.main.Left → p.stopRequested = true

/-- The invariant of the process. -/
@[grind cases] structure Sound (table₀ : Int → Option Resource) (p : Process) : Prop where
  owned : Owned table₀ p
  published : Published p
  heeded : Heeded p

namespace Sound

variable {table₀ : Int → Option Resource} {p : Process}

/-- The process starts with nothing of its own open. -/
theorem start (h : ∀ d r, table₀ d = some r → 0 ≤ d ∧ r = .foreign) :
    Sound table₀ { table := table₀ } := by
  refine ⟨?_, ?_, ?_⟩ <;> constructor <;> dsimp only <;> grind

/-! ### Handlers keep the invariant -/

/-- A signal arrives. -/
theorem signal (hp : Sound table₀ p) : Sound table₀ { p with frames := .flag :: p.frames } := by
  refine ⟨?_, ?_, ?_⟩ <;> constructor <;> grind

private theorem handlerFlag (hp : Sound table₀ p) {outer : List Handler}
    (hf : p.frames = .flag :: outer) : Sound table₀ (p.handlerStep .flag outer) := by
  refine ⟨?_, ?_, ?_⟩ <;> constructor <;> dsimp only [Process.handlerStep] <;> grind

private theorem handlerTest (hp : Sound table₀ p) {outer : List Handler}
    (hf : p.frames = .test :: outer) : Sound table₀ (p.handlerStep .test outer) := by
  have hworking := fun h : p.main.Working ↦ h.fresh?
  dsimp only [Process.handlerStep]
  split
  · refine ⟨?_, ?_, ?_⟩ <;> constructor <;> dsimp only <;> grind
  · -- A variable that is negative names no listener.
    refine ⟨?_, ?_, ?_⟩ <;> constructor <;> dsimp only <;> grind

private theorem handlerLoad (hp : Sound table₀ p) {outer : List Handler}
    (hf : p.frames = .load :: outer) : Sound table₀ (p.handlerStep .load outer) := by
  refine ⟨?_, ?_, ?_⟩ <;> constructor <;> dsimp only [Process.handlerStep] <;> grind

private theorem exists_close (p : Process) (fd : Int) :
    ∃ table errno, p.close fd = { p with table := table, errno := errno } ∧
      ∀ d r, table d = some r ↔ d ≠ fd ∧ p.table d = some r := by
  refine ⟨(p.close fd).table, (p.close fd).errno, ?_, fun d r ↦ Process.close_table⟩
  unfold Process.close
  split <;> rfl

-- The innermost handler closes the listener. A handler below may have done so, but nothing was
-- opened since.
private theorem handlerClose (hp : Sound table₀ p) {fd : Int} {outer : List Handler}
    (hf : p.frames = .close fd :: outer) :
    Sound table₀ { p.close fd with frames := .forget :: outer } := by
  have hmem : .close fd ∈ p.frames := by
    rw [hf]
    exact List.mem_cons_self
  have hframes : ∀ {frame}, frame ≠ .forget → frame ∈ Handler.forget :: outer →
      frame ∈ p.frames := by
    intro frame hne h
    rw [hf]
    exact List.mem_cons_of_mem _ ((List.mem_cons.mp h).resolve_left hne)
  obtain ⟨table, errno, hclose, htable⟩ := exists_close p fd
  have hkept : ∀ d r, r ≠ .listener → (table d = some r ↔ p.table d = some r) := by
    intro d r hr
    rw [htable]
    refine and_iff_right_of_imp fun h ↦ ?_
    rintro rfl
    exact hr (hp.heeded.own d hmem r h)
  have hclosed : ∀ d, table d ≠ some .listener := by
    intro d h
    obtain ⟨hne, hlistener⟩ := (htable d _).mp h
    exact hne (hp.heeded.only fd hmem d hlistener)
  rw [hclose]
  refine ⟨?_, ?_, ?_⟩
  · exact {
      nonneg := fun d r h ↦ hp.owned.nonneg d r ((htable d r).mp h).2
      foreign := fun d ↦ (hkept d _ (by decide)).trans (hp.owned.foreign d)
      client := fun d ↦ (hkept d _ (by decide)).trans (hp.owned.client d)
      file := fun d ↦ (hkept d _ (by decide)).trans (hp.owned.file d)
      fresh := by
        intro d h
        rw [hp.heeded.tested (.inr ⟨fd, hmem⟩)] at h
        cases h
      bare := fun _ ↦ hclosed }
  · exact {
      before := hp.published.before
      behind := hp.published.behind
      only := fun _ d h ↦ absurd h (hclosed d)
      own := fun r h ↦ hp.published.own r ((htable _ r).mp h).2
      still := fun _ ↦ .inr (.inl List.mem_cons_self)
      shut := fun d hm r h ↦ hp.published.shut d hm r ((htable d r).mp h).2 }
  · exact {
      tested := by
        rintro (h | ⟨d, h⟩)
        · exact hp.heeded.tested (.inl (hframes (by simp) h))
        · exact hp.heeded.tested (.inr ⟨d, hframes (by simp) h⟩)
      own := fun d h r hr ↦ hp.heeded.own d (hframes (by simp) h) r ((htable d r).mp hr).2
      only := fun _ _ d h ↦ absurd h (hclosed d)
      closed := fun _ ↦ hclosed
      stop := fun _ _ d h ↦ absurd h (hclosed d)
      left := hp.heeded.left }

private theorem handlerForget (hp : Sound table₀ p) {outer : List Handler}
    (hf : p.frames = .forget :: outer) : Sound table₀ (p.handlerStep .forget outer) := by
  refine ⟨?_, ?_, ?_⟩ <;> constructor <;> dsimp only [Process.handlerStep] <;> grind

/-- The innermost handler goes on. -/
theorem handlerStep (hp : Sound table₀ p) {frame : Handler} {outer : List Handler}
    (hf : p.frames = frame :: outer) : Sound table₀ (p.handlerStep frame outer) := by
  cases frame with
  | flag => exact hp.handlerFlag hf
  | test => exact hp.handlerTest hf
  | load => exact hp.handlerLoad hf
  | close fd => exact hp.handlerClose hf
  | forget => exact hp.handlerForget hf

/-! ### Actions of `main` keep the invariant -/

private theorem ne_listeningSocket (hp : Sound table₀ p) (hf : p.frames = [])
    (hforget : p.main ≠ .forget) {fd : Int} (hfree : p.Free fd) : fd ≠ p.listeningSocket := by
  rintro rfl
  obtain ⟨h0, hnone⟩ := hfree
  have hstill := hp.published.still h0
  simp [hnone, hf, hforget] at hstill

private theorem move (hp : Sound table₀ p) (hf : p.frames = []) {errno : Nat} {m : Main}
    (h : p.Move m) : Sound table₀ { p with errno := errno, main := m } := by
  obtain ⟨h1, h2, h3, h4, -, h5, h6, h7, h8, h9, -, -⟩ := h
  refine ⟨?_, ?_, ?_⟩ <;> constructor <;> dsimp only <;> grind

private theorem refuse (hp : Sound table₀ p) {what : Bytes} (hm : p.main = .socket) :
    Sound table₀ (p.goto (.returned 2 (some what))) := by
  refine ⟨?_, ?_, ?_⟩ <;> constructor <;> simp <;> grind

private theorem create (hp : Sound table₀ p) (hf : p.frames = []) (hm : p.main = .socket)
    {fd : Int} (hfree : p.Free fd) :
    Sound table₀ ((p.hold fd .listener).goto (.configure fd)) := by
  obtain ⟨h0, hnone⟩ := hfree
  refine ⟨?_, ?_, ?_⟩ <;> constructor <;> simp <;> grind

private theorem abandon (hp : Sound table₀ p) (hf : p.frames = []) {fd : Int} {what : Bytes}
    (hm : p.main = .abandon fd what) :
    Sound table₀ ((p.close fd).goto (.returned 2 (some what))) := by
  refine ⟨?_, ?_, ?_⟩ <;> constructor <;> simp <;> grind

private theorem publish (hp : Sound table₀ p) (hf : p.frames = []) {server : Int}
    (hm : p.main = .publish server) :
    Sound table₀ { p with listeningSocket := server, main := .check server } := by
  refine ⟨?_, ?_, ?_⟩ <;> constructor <;> simp <;> grind

private theorem complain (hp : Sound table₀ p) (hf : p.frames = []) {server : Int} {what : Bytes}
    (hm : p.main = .complain server) :
    Sound table₀ (p.goto (.returned 2 (some what))) := by
  refine ⟨?_, ?_, ?_⟩ <;> constructor <;> simp <;> grind

private theorem accept (hp : Sound table₀ p) (hf : p.frames = []) {server fd : Int}
    (hm : p.main = .accept server) (hfree : p.Free fd) :
    Sound table₀ ((p.hold fd .client).goto (.receive server fd)) := by
  have hne := hp.ne_listeningSocket hf (by simp [hm]) hfree
  obtain ⟨h0, hnone⟩ := hfree
  refine ⟨?_, ?_, ?_⟩ <;> constructor <;> simp <;> grind

private theorem read (hp : Sound table₀ p) (hf : p.frames = []) {server client fd : Int}
    (hm : p.main = .receive server client) (hfree : p.Free fd) :
    Sound table₀ ((p.hold fd .file).goto (.read server client fd)) := by
  have hne := hp.ne_listeningSocket hf (by simp [hm]) hfree
  obtain ⟨h0, hnone⟩ := hfree
  refine ⟨?_, ?_, ?_⟩ <;> constructor <;> simp <;> grind

private theorem answer (hp : Sound table₀ p) (hf : p.frames = []) {server client file : Int}
    (hm : p.main = .read server client file) :
    Sound table₀ ((p.close file).goto (.answer server client)) := by
  refine ⟨?_, ?_, ?_⟩ <;> constructor <;> simp <;> grind

private theorem respond (hp : Sound table₀ p) (hf : p.frames = []) {server client : Int}
    {state : ExporterState}
    (hm : p.main = .receive server client ∨ p.main = .answer server client) :
    Sound table₀ { p with state := state, main := .release server client } := by
  refine ⟨?_, ?_, ?_⟩ <;> constructor <;> dsimp only <;> grind

private theorem release (hp : Sound table₀ p) (hf : p.frames = []) {server client : Int}
    (hm : p.main = .release server client) :
    Sound table₀ ((p.close client).goto (.check server)) := by
  refine ⟨?_, ?_, ?_⟩ <;> constructor <;> simp <;> grind

private theorem leave (hp : Sound table₀ p) (hf : p.frames = []) {server : Int}
    (hm : p.main = .leave server) :
    Sound table₀ (p.goto (if 0 ≤ p.listeningSocket then .shut server else .returned 0 none)) := by
  split
  · refine ⟨?_, ?_, ?_⟩ <;> constructor <;> simp <;> grind
  · refine ⟨?_, ?_, ?_⟩ <;> constructor <;> simp <;> grind

private theorem shut (hp : Sound table₀ p) (hf : p.frames = []) {server : Int}
    (hm : p.main = .shut server) : Sound table₀ ((p.close server).goto .forget) := by
  refine ⟨?_, ?_, ?_⟩ <;> constructor <;> simp <;> grind

private theorem forget (hp : Sound table₀ p) (hf : p.frames = []) (hm : p.main = .forget) :
    Sound table₀ { p with listeningSocket := -1, main := .returned 0 none } := by
  refine ⟨?_, ?_, ?_⟩ <;> constructor <;> simp <;> grind

/-- `main` goes on. -/
theorem turn (hp : Sound table₀ p) (hf : p.frames = []) {e : Event} {p' : Process}
    (h : p.Turn e p') : Sound table₀ p' := by
  cases h with
  | move hmove => exact hp.move hf hmove
  | refuse hm => exact hp.refuse hm
  | create hm hfree => exact hp.create hf hm hfree
  | abandon hm => exact hp.abandon hf hm
  | publish hm => exact hp.publish hf hm
  | complain hm => exact hp.complain hf hm
  | accept hm hlistener hfree => exact hp.accept hf hm hfree
  | read hm hfree => exact hp.read hf hm hfree
  | answer hm => exact hp.answer hf hm
  | respond hm hc => exact hp.respond hf hm
  | release hm => exact hp.release hf hm
  | leave hm => exact hp.leave hf hm
  | shut hm => exact hp.shut hf hm
  | forget hm => exact hp.forget hf hm

/-- Every step keeps the invariant. -/
theorem step {strerror : Nat → Bytes} {e : Event} {p' : Process} (hp : Sound table₀ p)
    (h : p.step strerror e = some p') : Sound table₀ p' := by
  rcases Process.step_cases h with ⟨-, -, rfl⟩ | ⟨-, frame, outer, hf, rfl⟩ | ⟨-, hf, hturn⟩
  · exact hp.signal
  · exact hp.handlerStep hf
  · exact hp.turn hf hturn

/-- Every run keeps the invariant. -/
theorem run {strerror : Nat → Bytes} {events : List Event} {p' : Process} (hp : Sound table₀ p)
    (h : Trace.runAll (Process.step strerror) p events = some p') : Sound table₀ p' :=
  Trace.runAll_invariant (p := fun _ p ↦ Sound table₀ p) hp
    (fun _ _ _ _ hbefore hstep ↦ hbefore.step hstep) h

end Sound

end MarketData.Exporter
