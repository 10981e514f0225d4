import MarketData.Exporter.Signals

/-!
# What every run of the exporter keeps

Over all runs of the process, with signals anywhere: nothing is accepted behind a request to stop,
each descriptor is closed by who opened it or not at all, the state is that of the connections
handled one after the other, and a request to stop ends the process as long as its calls return.
-/

namespace MarketData.Exporter

open ByteText Cpp Trace

namespace Process

/-- The process behind the installation of its handlers, with what is open before. -/
def started (table₀ : Int → Option Resource) : Process := { table := table₀ }

/-- Only what belongs to others is open. -/
def Foreign (table₀ : Int → Option Resource) : Prop :=
  ∀ d r, table₀ d = some r → 0 ≤ d ∧ r = .foreign

variable {table₀ : Int → Option Resource} {strerror : Nat → Bytes} {p p' : Process} {e : Event}
  {events later : List Event}

/-- The invariant of every run. -/
theorem sound_run (h₀ : Foreign table₀)
    (h : runAll (step strerror) (started table₀) events = some p) : Sound table₀ p :=
  (Sound.start h₀).run h

/-! ### A request to stop -/

/-- A request to stop is not taken back. -/
theorem stopRequested_step (h : p.step strerror e = some p') (hstop : p.stopRequested = true) :
    p'.stopRequested = true := by
  rcases step_cases h with ⟨-, -, rfl⟩ | ⟨-, frame, outer, -, rfl⟩ | ⟨-, -, hturn⟩
  · exact hstop
  · cases frame <;> simp [handlerStep, hstop]
  · cases hturn <;> simp [hstop]

-- Where a stop is requested and no handler runs, a socket in use is not a listener.
private theorem not_accepted (hp : Sound table₀ p) (hstop : p.stopRequested = true)
    (h : p.step strerror e = some p') : e.isAccepted = false := by
  rcases step_cases h with ⟨rfl, -, -⟩ | ⟨rfl, -⟩ | ⟨-, hf, hturn⟩
  · rfl
  · rfl
  · cases hturn with
    | accept hm hlistener =>
      have hnone := hp.heeded.stop (by rw [hm]; trivial) hstop _ hlistener
      simp [hf] at hnone
    | move _ haccepted => exact haccepted
    | _ => rfl

/-- Behind a request to stop no connection is accepted, whatever signals arrive. -/
theorem no_accept_behind_stop (h₀ : Foreign table₀)
    (h : runAll (step strerror) (started table₀) events = some p) (hstop : p.stopRequested = true)
    (hlater : runAll (step strerror) p later = some p') :
    ∀ e ∈ later, e.isAccepted = false := by
  refine (runAll_invariant
    (p := fun past s ↦ (Sound table₀ s ∧ s.stopRequested = true) ∧ ∀ e ∈ past, e.isAccepted = false)
    ⟨⟨sound_run h₀ h, hstop⟩, by simp⟩ ?_ hlater).2
  rintro past before e after ⟨⟨hsound, hbefore⟩, hpast⟩ hstep
  refine ⟨⟨hsound.step hstep, stopRequested_step hstep hbefore⟩, ?_⟩
  intro e' he'
  rcases List.mem_append.mp he' with hmem | hmem
  · exact hpast e' hmem
  · obtain rfl := List.mem_singleton.mp hmem
    exact not_accepted hsound hbefore hstep

/-! ### Descriptors -/

/-- The descriptor that the next action closes, with what it is meant to refer to. -/
def closing? (p : Process) : Option (Int × Resource) :=
  match p.frames with
  | .close fd :: _ => some (fd, .listener)
  | _ :: _ => none
  | [] =>
    match p.main with
    | .abandon fd _ => some (fd, .listener)
    | .read _ _ file => some (file, .file)
    | .release _ client => some (client, .client)
    | .shut server => some (server, .listener)
    | _ => none

-- What is meant to be closed is there, except for a listener that is closed already.
private theorem closing_own (hp : Sound table₀ p) {d : Int} {r : Resource}
    (h : p.closing? = some (d, r)) :
    p.table d = some r ∨ (r = .listener ∧ p.table d = none) := by
  have hlistener : (∀ r', p.table d = some r' → r' = .listener) → r = .listener →
      p.table d = some r ∨ (r = .listener ∧ p.table d = none) := by
    rintro hown rfl
    cases ht : p.table d with
    | none => exact .inr ⟨rfl, rfl⟩
    | some r' => exact .inl (by rw [hown r' ht])
  unfold closing? at h
  split at h
  · next fd outer hf =>
    obtain ⟨rfl, rfl⟩ := Prod.mk.inj (Option.some.inj h)
    exact hlistener (hp.heeded.own fd (by simp [hf])) rfl
  · cases h
  · split at h
    · next fd what hm =>
      obtain ⟨rfl, rfl⟩ := Prod.mk.inj (Option.some.inj h)
      exact .inl ((hp.owned.fresh fd (by rw [hm]; rfl) fd).mpr rfl)
    · next server client file hm =>
      obtain ⟨rfl, rfl⟩ := Prod.mk.inj (Option.some.inj h)
      exact .inl ((hp.owned.file file).mpr (by rw [hm]; rfl))
    · next server client hm =>
      obtain ⟨rfl, rfl⟩ := Prod.mk.inj (Option.some.inj h)
      exact .inl ((hp.owned.client client).mpr (by rw [hm]; rfl))
    · next server hm =>
      obtain ⟨rfl, rfl⟩ := Prod.mk.inj (Option.some.inj h)
      exact hlistener (hp.published.shut server hm) rfl
    · cases h

private theorem closed_by_step (hp : Sound table₀ p) (h : p.step strerror e = some p') {d : Int}
    {r : Resource} (hopen : p.table d = some r) (hclosed : p'.table d ≠ some r) :
    p.closing? = some (d, r) := by
  rcases step_cases h with ⟨-, -, rfl⟩ | ⟨-, frame, outer, hf, rfl⟩ | ⟨-, hf, hturn⟩
  · exact absurd hopen hclosed
  · cases frame with
    | close fd =>
      have hd : d = fd := by
        by_contra hne
        exact hclosed (by simp [handlerStep, hne, hopen])
      subst hd
      simp [closing?, hf, hp.heeded.own d (by simp [hf]) r hopen]
    | _ => exact absurd hopen hclosed
  · have hkept : ∀ {q : Process} {fd : Int} {what : Resource} {m : Main}, p.Free fd →
        q = (p.hold fd what).goto m → q.table d = some r := by
      rintro q fd what m ⟨-, hnone⟩ rfl
      have hne : d ≠ fd := by
        rintro rfl
        rw [hnone] at hopen
        cases hopen
      simp [hne, hopen]
    have hown : ∀ {fd : Int} {r' : Resource} {m : Main}, p' = (p.close fd).goto m →
        p.closing? = some (fd, r') → p.closing? = some (d, r) := by
      rintro fd r' m rfl hclosing
      have hd : d = fd := by
        by_contra hne
        exact hclosed (by simp [hne, hopen])
      subst hd
      rcases closing_own hp hclosing with hr | ⟨-, hnone⟩
      · rw [hclosing, ← Option.some.inj (hopen.symm.trans hr)]
      · rw [hnone] at hopen
        cases hopen
    cases hturn with
    | create _ hfree => exact absurd (hkept hfree rfl) hclosed
    | accept _ _ hfree => exact absurd (hkept hfree rfl) hclosed
    | read _ hfree => exact absurd (hkept hfree rfl) hclosed
    | abandon hm => exact hown rfl (by simp only [closing?, hf, hm]; rfl)
    | answer hm => exact hown rfl (by simp only [closing?, hf, hm]; rfl)
    | release hm => exact hown rfl (by simp only [closing?, hf, hm]; rfl)
    | shut hm => exact hown rfl (by simp only [closing?, hf, hm]; rfl)
    | _ => exact absurd hopen hclosed

-- At the return of `main` nothing of its own is open, except for the listener.
private theorem returned_open (hp : Sound table₀ p) {status : Nat} {error : Option Bytes}
    (hm : p.main = .returned status error) :
    ∀ d r, p.table d = some r → r = .foreign ∨ (r = .listener ∧ d = p.listeningSocket) := by
  intro d r hd
  cases r with
  | foreign => exact .inl rfl
  | listener => exact .inr ⟨rfl, hp.published.only (by rw [hm]; rfl) d hd⟩
  | client =>
    have hclient := (hp.owned.client d).mp hd
    rw [hm] at hclient
    cases hclient
  | file =>
    have hfile := (hp.owned.file d).mp hd
    rw [hm] at hfile
    cases hfile

private theorem returned_zero (h₀ : Foreign table₀) (hp : Sound table₀ p) {error : Option Bytes}
    (hm : p.main = .returned 0 error) : p.table = table₀ ∧ p.stopRequested = true := by
  refine ⟨?_, hp.heeded.left (by rw [hm]; rfl)⟩
  funext d
  apply Option.ext
  intro r
  constructor
  · intro hd
    rcases returned_open hp hm d r hd with rfl | ⟨rfl, -⟩
    · exact (hp.owned.foreign d).mp hd
    · exact absurd hd (hp.owned.bare (by rw [hm]; rfl) d)
  · intro hd
    obtain ⟨-, rfl⟩ := h₀ d r hd
    exact (hp.owned.foreign d).mpr hd

/-- In every run a descriptor goes only by an action that means to close what it refers to, such an
action meets its own descriptor or finds the listener closed, what was open before stays open, and
at the return of `main` nothing else is, except for the listener behind an error. -/
theorem descriptor_discipline (h₀ : Foreign table₀)
    (h : runAll (step strerror) (started table₀) events = some p) :
    (∀ e p' d r, p.step strerror e = some p' → p.table d = some r → p'.table d ≠ some r →
      p.closing? = some (d, r)) ∧
    (∀ d r, p.closing? = some (d, r) →
      p.table d = some r ∨ (r = .listener ∧ p.table d = none)) ∧
    (∀ d, p.table d = some .foreign ↔ table₀ d = some .foreign) ∧
    (∀ status error, p.main = .returned status error →
      (status = 0 → p.table = table₀ ∧ p.stopRequested = true) ∧
      ∀ d r, p.table d = some r → r = .foreign ∨ (r = .listener ∧ d = p.listeningSocket)) := by
  have hp := sound_run h₀ h
  refine ⟨fun e p' d r hstep ↦ closed_by_step hp hstep, fun d r ↦ closing_own hp,
    hp.owned.foreign, fun status error hm ↦ ⟨?_, returned_open hp hm⟩⟩
  rintro rfl
  exact returned_zero h₀ hp hm

/-! ### Connections -/

/-- A connection is accepted and not handled yet. -/
def inHand : Main → Nat
  | .receive _ _ => 1
  | .read _ _ _ => 1
  | .answer _ _ => 1
  | _ => 0

/-- The connections that are handled, in order. -/
def handledBy (events : List Event) : List Connection := events.filterMap Event.connection?

private theorem inHand_idle {m : Main} (h : m.client? = none) : inHand m = 0 := by
  cases m <;> first | rfl | cases h

private theorem handled_turn (h : p.Turn e p') :
    (∃ c response, e.connection? = some c ∧ e.isAccepted = false ∧ inHand p.main = 1 ∧
      inHand p'.main = 0 ∧ handleConnection c p.state = .ok (response, p'.state)) ∨
    (e.connection? = none ∧ p'.state = p.state ∧
      inHand p'.main = inHand p.main + if e.isAccepted then 1 else 0) := by
  cases h with
  | move hmove haccepted hconnection =>
    refine .inr ⟨hconnection, rfl, ?_⟩
    have hidle : p.main.client? = none := hmove.client.symm.trans hmove.idle
    rw [inHand_idle hmove.idle, inHand_idle hidle, haccepted]
    rfl
  | respond hm hc =>
    refine .inl ⟨_, _, rfl, rfl, ?_, rfl, hc⟩
    rcases hm with hm | hm <;> rw [hm] <;> rfl
  | leave hm =>
    refine .inr ⟨rfl, rfl, ?_⟩
    rw [hm, goto_main]
    split <;> rfl
  | refuse hm | create hm | abandon hm | publish hm | accept hm | complain hm | read hm
  | answer hm | release hm | shut hm | forget hm =>
    exact .inr ⟨rfl, by simp, by rw [hm]; rfl⟩

/-- In every run the state is that of the handled connections one after the other, and every
accepted connection is handled, except for the one in hand. -/
theorem requests_answered (h : runAll (step strerror) (started table₀) events = some p) :
    serve (handledBy events) = .ok p.state ∧
    events.countP Event.isAccepted = (handledBy events).length + inHand p.main := by
  refine runAll_invariant
    (p := fun past s ↦ serve (handledBy past) = .ok s.state ∧
      past.countP Event.isAccepted = (handledBy past).length + inHand s.main) ⟨rfl, rfl⟩ ?_ h
  rintro past before e after ⟨hstate, hcount⟩ hstep
  have hsame : e.connection? = none → e.isAccepted = false → after.state = before.state →
      inHand after.main = inHand before.main →
      serve (handledBy (past ++ [e])) = .ok after.state ∧
        (past ++ [e]).countP Event.isAccepted =
          (handledBy (past ++ [e])).length + inHand after.main := by
    intro hconnection haccepted hs hi
    simp only [handledBy] at hstate hcount
    simp [handledBy, List.filterMap_append, hconnection, haccepted, hs, hi, hstate, hcount]
  rcases step_cases hstep with ⟨rfl, -, rfl⟩ | ⟨rfl, frame, outer, -, rfl⟩ | ⟨-, -, hturn⟩
  · exact hsame rfl rfl rfl rfl
  · cases frame <;> exact hsame rfl rfl (by simp [handlerStep]) (by simp [handlerStep])
  rcases handled_turn hturn with
    ⟨c, response, hconnection, haccepted, hb, ha, hc⟩ | ⟨hconnection, hs, hi⟩
  · have hhandled : handledBy (past ++ [e]) = handledBy past ++ [c] := by
      simp [handledBy, List.filterMap_append, hconnection]
    constructor
    · rw [hhandled, serve, List.foldlM_append]
      rw [serve] at hstate
      rw [hstate, ok_bind, List.foldlM_cons, hc]
      rfl
    · rw [hhandled, List.countP_append, hcount, hb, ha]
      simp [haccepted]
  · have hhandled : handledBy (past ++ [e]) = handledBy past := by
      simp [handledBy, List.filterMap_append, hconnection]
    rw [hhandled, hs, hi, List.countP_append, hcount]
    refine ⟨hstate, ?_⟩
    simp [List.countP_singleton, Nat.add_assoc]

/-! ### The end -/

/-- The number of actions left to a handler. -/
def handlerRank : Handler → Nat
  | .flag => 5
  | .test => 4
  | .load => 3
  | .close _ => 2
  | .forget => 1

/-- The number of actions left where a stop is requested. -/
def rank (p : Process) : Nat := p.main.rank + (p.frames.map handlerRank).sum

-- Where a stop is requested, an action of `main` leaves fewer of them, and none leads out of the
-- way to a regular end.
private theorem turn_stopped (hp : Sound table₀ p) (hf : p.frames = [])
    (hstop : p.stopRequested = true) (h : p.Turn e p') :
    p'.main.rank < p.main.rank ∧ (p.main.Serving → p'.main.Serving) := by
  cases h with
  | move hmove => exact ⟨hmove.rank hstop, fun hserving ↦ hmove.serving hserving hstop⟩
  | accept hm hlistener =>
    have hnone := hp.heeded.stop (by rw [hm]; trivial) hstop _ hlistener
    simp [hf] at hnone
  | respond hm =>
    refine ⟨?_, fun _ ↦ trivial⟩
    rcases hm with hm | hm <;> rw [hm] <;> simp [Main.rank]
  | leave hm =>
    rw [hm, goto_main]
    split
    · exact ⟨by simp [Main.rank], fun _ ↦ trivial⟩
    · exact ⟨by simp [Main.rank], fun _ ↦ ⟨rfl, rfl⟩⟩
  | forget hm => exact ⟨by rw [hm]; simp [Main.rank], fun _ ↦ ⟨rfl, rfl⟩⟩
  | refuse hm | create hm | abandon hm | publish hm | complain hm | read hm | answer hm
  | release hm | shut hm =>
    refine ⟨by rw [hm]; simp [Main.rank], fun hserving ↦ ?_⟩
    rw [hm] at hserving
    first | exact hserving.elim | trivial

private theorem step_stopped (hp : Sound table₀ p) (hstop : p.stopRequested = true)
    (h : p.step strerror e = some p') :
    p'.rank + 1 ≤ p.rank + (if e.isSignal then 6 else 0) ∧
      (p.main.Serving → p'.main.Serving) := by
  rcases step_cases h with ⟨rfl, -, rfl⟩ | ⟨rfl, frame, outer, hf, rfl⟩ | ⟨hsignal, hf, hturn⟩
  · refine ⟨?_, id⟩
    simp [rank, Event.isSignal, handlerRank]
    omega
  · constructor
    · cases frame <;> simp [rank, Event.isSignal, handlerStep, hf, handlerRank]
      · split <;> simp [handlerRank]
    · cases frame <;> simp [handlerStep]
  · obtain ⟨hrank, hserving⟩ := turn_stopped hp hf hstop hturn
    refine ⟨?_, hserving⟩
    have hframes : p'.frames = [] := by
      cases hturn <;> simp [hf]
    simp [rank, hsignal, hf, hframes]
    omega

/-- A connection that delivers nothing. -/
def silent : Connection := ⟨[], ⟨.ok [], .zero, .ok .zero⟩⟩

private theorem exists_mainStep (strerror : Nat → Bytes) (h : ¬ p.Returned) :
    ∃ e p', e.isSignal = false ∧ e.isHandler = false ∧ p.mainStep strerror e = some p' := by
  unfold mainStep
  cases hm : p.main with
  | socket => exact ⟨.failed 0, _, rfl, rfl, rfl⟩
  | configure | address | bind | listen => exact ⟨.succeeded, _, rfl, rfl, rfl⟩
  | accept server => exact ⟨.failed 0, _, rfl, rfl, rfl⟩
  | receive server client | answer server client => exact ⟨.connection silent, _, rfl, rfl, rfl⟩
  | abandon | publish | check | failed | judge | complain | read | release | leave | shut
  | forget => exact ⟨.next, _, rfl, rfl, rfl⟩
  | returned status error => exact absurd ⟨status, error, hm⟩ h

private theorem exists_step (h : ¬ p.Returned) :
    ∃ e p', e.isSignal = false ∧ p.step strerror e = some p' := by
  cases hf : p.frames with
  | cons frame outer => exact ⟨.handler, p.handlerStep frame outer, rfl, by rw [step, hf]⟩
  | nil =>
    obtain ⟨e, p', hsignal, hhandler, hstep⟩ := exists_mainStep strerror h
    refine ⟨e, p', hsignal, ?_⟩
    cases e
    case signal => cases hsignal
    case handler => cases hhandler
    all_goals
      simp only [step, hf, if_true]
      exact hstep

private theorem stopped_run (hp : Sound table₀ p) (hstop : p.stopRequested = true)
    (h : runAll (step strerror) p later = some p') :
    later.length + p'.rank ≤ p.rank + 6 * later.countP Event.isSignal ∧
      (p.main.Serving → p'.main.Serving) := by
  refine (runAll_invariant
    (p := fun past s ↦ (Sound table₀ s ∧ s.stopRequested = true) ∧
      past.length + s.rank ≤ p.rank + 6 * past.countP Event.isSignal ∧
      (p.main.Serving → s.main.Serving)) ⟨⟨hp, hstop⟩, by simp, id⟩ ?_ h).2
  rintro past before e after ⟨⟨hsound, hbefore⟩, hlength, hserving⟩ hstep
  obtain ⟨hrank, hnext⟩ := step_stopped hsound hbefore hstep
  refine ⟨⟨hsound.step hstep, stopRequested_step hstep hbefore⟩, ?_, hnext ∘ hserving⟩
  rw [List.length_append, List.length_singleton, List.countP_append, List.countP_singleton]
  cases hsignal : e.isSignal with
  | true =>
    rw [hsignal, if_pos rfl] at hrank
    simp only [if_true]
    omega
  | false =>
    rw [hsignal, if_neg Bool.false_ne_true] at hrank
    simp only [Bool.false_eq_true, if_false]
    omega

/-- The calls return: as long as `main` has not returned, the next event of the sequence is
possible. -/
def CallsReturn (strerror : Nat → Bytes) (p : Process) (next : ℕ → Event) : Prop :=
  ∀ n s, runAll (step strerror) p ((List.range n).map next) = some s → ¬ s.Returned →
    (s.step strerror (next n)).isSome = true

/-- Once a stop is requested, the steps left are bounded but for the signals that still arrive, and
some answer of the system leads on until `main` returns. Where the calls return, `main` does so
within the bound. From inside the loop, unless an error is on its way behind a failed `::accept`, it
returns zero with all that it opened closed. -/
theorem shutdown_completes (h₀ : Foreign table₀)
    (h : runAll (step strerror) (started table₀) events = some p) (hstop : p.stopRequested = true) :
    (∀ later p', runAll (step strerror) p later = some p' →
      later.length + p'.rank ≤ p.rank + 6 * later.countP Event.isSignal ∧
      (¬ p'.Returned → ∃ e p'', e.isSignal = false ∧ p'.step strerror e = some p'') ∧
      (p.main.Serving → ∀ status error, p'.main = .returned status error →
        status = 0 ∧ error = none ∧ p'.table = table₀)) ∧
    (∀ next signals, CallsReturn strerror p next →
      (∀ n, ((List.range n).map next).countP Event.isSignal ≤ signals) →
      ∃ n ≤ p.rank + 6 * signals, ∃ p',
        runAll (step strerror) p ((List.range n).map next) = some p' ∧ p'.Returned) := by
  have hp := sound_run h₀ h
  constructor
  · intro later p' hlater
    obtain ⟨hlength, hserving⟩ := stopped_run hp hstop hlater
    refine ⟨hlength, exists_step, fun hs status error hm ↦ ?_⟩
    have hend := hserving hs
    rw [hm] at hend
    obtain ⟨rfl, rfl⟩ := hend
    have hrun : runAll (step strerror) (started table₀) (events ++ later) = some p' := by
      rw [runAll_append, h]
      exact hlater
    exact ⟨rfl, rfl, (returned_zero h₀ (sound_run h₀ hrun) hm).1⟩
  · intro next signals hreturn hsignals
    refine exists_final (fun n s hs ↦ ?_) hreturn
    have hlength := (stopped_run hp hstop hs).1
    rw [List.length_map, List.length_range] at hlength
    have hcount := hsignals n
    omega

/-! ### A run -/

/-- The standard streams. -/
def standardStreams (d : Int) : Option Resource := if 0 ≤ d ∧ d ≤ 2 then some .foreign else none

private theorem foreign_standardStreams : Foreign standardStreams := by
  intro d r h
  unfold standardStreams at h
  split at h
  · next hd => exact ⟨hd.1, (Option.some.inj h).symm⟩
  · cases h

/-- The exporter listens, handles one connection, and a signal sets the flag before `::accept`. -/
def signalledRun : List Event :=
  [.created 3, .succeeded, .succeeded, .succeeded, .succeeded, .next, .next, .accepted 4,
    .connection silent, .next, .next, .signal, .handler]

/-- The handler closes the listener, and `main` leaves. -/
def leavingRun : List Event :=
  [.handler, .handler, .handler, .handler, .failed 9, .next, .next]

/-- The state behind the signal. -/
def signalled : Process where
  table := Function.update (Function.update (Function.update standardStreams 3 (some .listener)) 4
    (some .client)) 4 none
  stopRequested := true
  listeningSocket := 3
  frames := [.test]
  main := .accept 3

private theorem signalledRun_eq :
    runAll (step fun _ ↦ []) (started standardStreams) signalledRun = some signalled := rfl

/-- The state at the return of `main`. -/
def stopped : Process where
  table := Function.update signalled.table 3 none
  errno := 9
  stopRequested := true
  main := .returned 0 none

private theorem leavingRun_eq : runAll (step fun _ ↦ []) signalled leavingRun = some stopped := rfl

/-- Nothing is accepted in the short run behind the signal. -/
theorem no_accept_behind_stop_signalled : leavingRun.countP Event.isAccepted = 0 := by
  rw [List.countP_eq_zero]
  intro e he
  rw [no_accept_behind_stop foreign_standardStreams signalledRun_eq rfl leavingRun_eq e he]
  exact Bool.false_ne_true

/-- The standard streams stay open in the short run. -/
theorem descriptor_discipline_signalled : signalled.table 0 = some .foreign :=
  ((descriptor_discipline foreign_standardStreams signalledRun_eq).2.2.1 0).mpr rfl

/-- The connection of the short run is handled. -/
theorem requests_answered_signalled : serve (handledBy signalledRun) = .ok signalled.state :=
  (requests_answered signalledRun_eq).1

/-- The short run behind the signal ends with zero and the standard streams. -/
theorem shutdown_completes_signalled :
    leavingRun.length + stopped.rank ≤ signalled.rank ∧ stopped.table = standardStreams := by
  obtain ⟨hlength, -, hregular⟩ :=
    (shutdown_completes foreign_standardStreams signalledRun_eq rfl).1 _ _ leavingRun_eq
  exact ⟨hlength, (hregular trivial 0 none rfl).2.2⟩

end Process

end MarketData.Exporter
