import MarketData.Base.Triples
import MarketData.Engine.TensorRT

/-!
# The owners of the handles

Every handle that is live belongs to one member of the engine or to one local of the call under
way.
-/

namespace MarketData.TensorRT

open ByteText Cpp Ledger StateProgram

/-- What a handle of the member stands for. -/
def Members.resource (m : Members) : Slot → Resource
  | .inputDevice => .buffer .inputDevice m.inputBytes
  | .outputDevice => .buffer .outputDevice m.outputBytes
  | .inputHost => .buffer .inputHost m.inputBytes
  | .outputHost => .buffer .outputHost m.outputBytes
  | .graphExecution => .executableGraph (m.handle .context).toList
  | slot => .object slot

/-- The member that a resource belongs to. -/
def Resource.slot? : Resource → Option Slot
  | .object slot => some slot
  | .buffer slot _ => some slot
  | .executableGraph _ => some .graphExecution
  | _ => none

/-- The resource of a slot belongs to it. -/
theorem slot?_resource (m : Members) (slot : Slot) : (m.resource slot).slot? = some slot := by
  cases slot <;> rfl

/-- A slot has the handle that it was given. -/
@[simp] theorem handle_set_self (m : Members) (slot : Slot) (h : Option ℕ) :
    (m.set slot h).handle slot = h :=
  Function.update_self ..

/-- The other slots keep their handles. -/
@[simp] theorem handle_set_of_ne (m : Members) {slot slot' : Slot} (h : Option ℕ)
    (hne : slot' ≠ slot) : (m.set slot h).handle slot' = m.handle slot' :=
  Function.update_of_ne hne ..

/-- Members that own the same things. -/
structure Members.Alike (m m' : Members) : Prop where
  handle : m'.handle = m.handle
  resource : ∀ slot, (m.handle slot).isSome → m'.resource slot = m.resource slot

/-- One for a stream, and nothing for another resource. -/
def Resource.streams (what : Resource) : ℕ := if what = .object .stream then 1 else 0

/-- The streams that an entry creates. -/
def entryStreams : Entry ℕ Resource Operation → ℕ
  | .create _ what => what.streams
  | .use _ _ => 0
  | .destroy _ => 0

/-- How often a stream was created. -/
def streamsCreated (log : List (Entry ℕ Resource Operation)) : ℕ := (log.map entryStreams).sum

/-- One more entry adds the streams that it creates. -/
@[simp] theorem streamsCreated_concat (log : List (Entry ℕ Resource Operation))
    (e : Entry ℕ Resource Operation) :
    streamsCreated (log ++ [e]) = streamsCreated log + entryStreams e := by
  simp [streamsCreated]

/-- The streams that the members own. -/
def Members.streams (m : Members) : ℕ := (m.handle .stream).toList.length

/-- What is known at some point: a past log, the streams created in the past, the locals of the
call under way, the contexts captured so far, and the members. -/
structure Point where
  past : List (Entry ℕ Resource Operation)
  streams : ℕ
  locals : List (ℕ × Resource)
  captured : Option (List ℕ)
  members : Members

/-- The machine is at the point, and each live handle has one owner. -/
structure At (p : Point) (s : Machine) : Prop where
  members : s.toMembers = p.members
  captured : s.captured = p.captured
  past : p.past <+: s.log
  streams : streamsCreated s.log =
    p.streams + p.members.streams + (p.locals.map (·.2.streams)).sum
  lawful : Lawful s.log
  fresh : ∀ id ∈ created s.log, id < s.next
  held : ∀ slot id, p.members.handle slot = some id → Live s.log id (p.members.resource slot)
  local_live : ∀ q ∈ p.locals, Live s.log q.1 q.2
  local_once : (p.locals.map Prod.fst).Nodup
  local_free : ∀ q ∈ p.locals, ∀ slot, p.members.handle slot ≠ some q.1
  owned : ∀ id what, Live s.log id what →
    (id, what) ∈ p.locals ∨ ∃ slot, p.members.handle slot = some id

/-- The handle belongs to a member or a local. -/
def Point.Names (p : Point) (h : Option ℕ) : Prop :=
  ∃ id, h = some id ∧ (id ∈ p.locals.map Prod.fst ∨ ∃ slot, p.members.handle slot = some id)

/-- A member that is there may be named. -/
theorem Point.names_handle {p : Point} {slot : Slot} (h : (p.members.handle slot).isSome) :
    p.Names (p.members.handle slot) := by
  obtain ⟨id, hid⟩ := Option.isSome_iff_exists.mp h
  exact ⟨id, hid, .inr ⟨slot, hid⟩⟩

/-- Members that are there may be named. -/
theorem Point.names_handles {p : Point} (slots : List Slot)
    (h : ∀ slot ∈ slots, (p.members.handle slot).isSome) :
    ∀ i ∈ slots.map p.members.handle, p.Names i := by
  intro i hi
  obtain ⟨slot, hslot, rfl⟩ := List.mem_map.mp hi
  exact Point.names_handle (h slot hslot)

/-- A local object may be named. -/
theorem Point.names_local {p : Point} {id : ℕ} (h : id ∈ p.locals.map Prod.fst) :
    p.Names (some id) :=
  ⟨id, rfl, .inl h⟩

/-- Local objects may be named. -/
theorem Point.names_locals {p : Point} (ids : List ℕ) (h : ids ⊆ p.locals.map Prod.fst) :
    ∀ i ∈ ids.map some, p.Names i := by
  intro i hi
  obtain ⟨id, hid, rfl⟩ := List.mem_map.mp hi
  exact Point.names_local (h hid)

section Steps

variable {p : Point} {s : Machine}

/-- Different members own different handles. -/
theorem At.slot_unique (h : At p s) {slot slot' : Slot} {id : ℕ}
    (hs : p.members.handle slot = some id) (hs' : p.members.handle slot' = some id) :
    slot = slot' := by
  have heq := h.lawful.content_unique (h.held slot id hs).1 (h.held slot' id hs').1
  have hslot := congrArg Resource.slot? heq
  rw [slot?_resource, slot?_resource] at hslot
  exact Option.some.inj hslot

/-- What may be named is live. -/
theorem At.names_live (h : At p s) {ids : List (Option ℕ)} (hids : ∀ h ∈ ids, p.Names h) :
    ∀ h ∈ ids, ∃ id what, h = some id ∧ Live s.log id what := by
  intro i hi
  obtain ⟨id, rfl, hid | ⟨slot, hid⟩⟩ := hids i hi
  · obtain ⟨q, hq, rfl⟩ := List.mem_map.mp hid
    exact ⟨q.1, q.2, rfl, h.local_live q hq⟩
  · exact ⟨id, _, rfl, h.held slot id hid⟩

/-- A call into the libraries that names owned handles. -/
theorem At.use (h : At p s) {op : Operation} {ids : List (Option ℕ)} {answered : ℕ}
    (hids : ∀ h ∈ ids, p.Names h) :
    At p { s with answered, log := s.log ++ [.use op ids] } where
  members := h.members
  captured := h.captured
  past := h.past.trans (List.prefix_append ..)
  streams := by simpa [entryStreams] using h.streams
  lawful := lawful_concat.mpr ⟨h.lawful, h.names_live hids⟩
  fresh := by simpa [created_concat, Entry.created?] using h.fresh
  held := fun slot id hid ↦ live_concat_use.mpr (h.held slot id hid)
  local_live := fun q hq ↦ live_concat_use.mpr (h.local_live q hq)
  local_once := h.local_once
  local_free := h.local_free
  owned := fun id what hl ↦ h.owned id what (live_concat_use.mp hl)

/-- A new local. -/
theorem At.create (h : At p s) (what : Resource) :
    At { p with locals := (s.next, what) :: p.locals }
      { s with next := s.next + 1, log := s.log ++ [.create s.next what] } := by
  have hnew : s.next ∉ created s.log := fun hm ↦ (h.fresh _ hm).false
  have hlive : ∀ {id : ℕ} {what' : Resource}, Live (s.log ++ [.create s.next what]) id what' ↔
      Live s.log id what' ∨ (id = s.next ∧ what' = what) := by
    intro id what'
    exact live_concat_create fun hd ↦ hnew (h.lawful.created_of_destroyed hd)
  exact {
    members := h.members
    captured := h.captured
    past := h.past.trans (List.prefix_append ..)
    streams := by
      simp only [streamsCreated_concat, h.streams, List.map_cons, List.sum_cons, entryStreams]
      omega
    lawful := lawful_concat.mpr ⟨h.lawful, hnew⟩
    fresh := by
      intro id hid
      rw [created_concat, Entry.created?, Option.toList_some, List.mem_append,
        List.mem_singleton] at hid
      rcases hid with hid | rfl
      · exact (h.fresh id hid).trans (Nat.lt_succ_self _)
      · exact Nat.lt_succ_self _
    held := fun slot id hid ↦ hlive.mpr (.inl (h.held slot id hid))
    local_live := by
      intro q hq
      rcases List.mem_cons.mp hq with rfl | hq
      · exact hlive.mpr (.inr ⟨rfl, rfl⟩)
      · exact hlive.mpr (.inl (h.local_live q hq))
    local_once := by
      refine List.nodup_cons.mpr ⟨?_, h.local_once⟩
      intro hm
      obtain ⟨q, hq, heq⟩ := List.mem_map.mp hm
      have hc := (h.local_live q hq).mem_created
      rw [heq] at hc
      exact hnew hc
    local_free := by
      intro q hq slot hs
      rcases List.mem_cons.mp hq with rfl | hq
      · exact hnew (h.held slot _ hs).mem_created
      · exact h.local_free q hq slot hs
    owned := by
      intro id what' hl
      rcases hlive.mp hl with hl | ⟨rfl, rfl⟩
      · exact (h.owned id what' hl).imp_left (List.mem_cons_of_mem _)
      · exact .inl (List.mem_cons_self ..) }

/-- The last local ends. -/
theorem At.destroy {id : ℕ} {what : Resource} {locals : List (ℕ × Resource)}
    (h : At { p with locals := (id, what) :: locals } s) :
    At { p with locals, streams := p.streams + what.streams }
      { s with log := s.log ++ [.destroy id] } := by
  have honce := List.nodup_cons.mp h.local_once
  exact {
    members := h.members
    captured := h.captured
    past := h.past.trans (List.prefix_append ..)
    streams := by
      simp only [streamsCreated_concat, h.streams, List.map_cons, List.sum_cons, entryStreams]
      omega
    lawful := lawful_concat.mpr ⟨h.lawful, what, h.local_live _ (List.mem_cons_self ..)⟩
    fresh := by simpa [created_concat, Entry.created?] using h.fresh
    held := fun slot id' hid ↦ live_concat_destroy.mpr ⟨h.held slot id' hid, fun heq ↦
      h.local_free _ (List.mem_cons_self ..) slot (heq ▸ hid)⟩
    local_live := fun q hq ↦ live_concat_destroy.mpr
      ⟨h.local_live q (List.mem_cons_of_mem _ hq), fun heq ↦
        honce.1 (heq ▸ List.mem_map.mpr ⟨q, hq, rfl⟩)⟩
    local_once := honce.2
    local_free := fun q hq ↦ h.local_free q (List.mem_cons_of_mem _ hq)
    owned := by
      intro id' what' hl
      obtain ⟨hl, hne⟩ := live_concat_destroy.mp hl
      rcases h.owned id' what' hl with hm | hm
      · rcases List.mem_cons.mp hm with heq | hm
        · exact absurd (Prod.mk.inj heq).1 hne
        · exact .inl hm
      · exact .inr hm }

/-- The members change without what they own. -/
theorem At.update {m : Members} (h : At p s) (hm : p.members.Alike m) :
    At { p with members := m } { s with toMembers := m } where
  members := rfl
  captured := h.captured
  past := h.past
  streams := by
    have heq : m.streams = p.members.streams := by rw [Members.streams, hm.handle, Members.streams]
    rw [heq]
    exact h.streams
  lawful := h.lawful
  fresh := h.fresh
  held := by
    intro slot id hid
    simp only [hm.handle] at hid
    rw [hm.resource slot (by rw [hid]; rfl)]
    exact h.held slot id hid
  local_live := h.local_live
  local_once := h.local_once
  local_free := by simpa only [hm.handle] using h.local_free
  owned := by simpa only [hm.handle] using h.owned

/-- A capture begins, goes on or ends. -/
theorem At.capture (h : At p s) (c : Option (List ℕ)) :
    At { p with captured := c } { s with captured := c } :=
  ⟨h.members, rfl, h.past, h.streams, h.lawful, h.fresh, h.held, h.local_live, h.local_once,
    h.local_free, h.owned⟩

/-- The resource of the other members does not depend on the member that is set, unless it is the
context under a graph. -/
theorem resource_set {m : Members} {slot slot' : Slot} {h : Option ℕ}
    (hgraph : slot = .context → m.handle .graphExecution = none)
    (hne : slot' ≠ slot) (hs : (m.handle slot').isSome) :
    (m.set slot h).resource slot' = m.resource slot' := by
  cases slot' with
  | graphExecution =>
    have hcontext : Slot.context ≠ slot := by
      rintro rfl
      rw [hgraph rfl] at hs
      cases hs
    rw [Members.resource, Members.resource, handle_set_of_ne _ _ hcontext]
  | _ => rfl

private theorem streams_set {m : Members} {slot : Slot} {id : ℕ} (h : m.handle slot = none) :
    (m.set slot (some id)).streams =
      m.streams + ((m.set slot (some id)).resource slot).streams := by
  rcases eq_or_ne slot .stream with rfl | hne
  · rw [Members.streams, Members.streams, handle_set_self, h]
    rfl
  · rw [Members.streams, handle_set_of_ne _ _ hne.symm, Members.streams]
    cases slot <;> first | rfl | exact absurd rfl hne

private theorem streams_set_none {m : Members} {slot : Slot} {id : ℕ}
    (h : m.handle slot = some id) :
    m.streams = (m.set slot none).streams + (m.resource slot).streams := by
  rcases eq_or_ne slot .stream with rfl | hne
  · rw [Members.streams, Members.streams, handle_set_self, h]
    rfl
  · rw [Members.streams, Members.streams, handle_set_of_ne _ _ hne.symm]
    cases slot <;> first | rfl | exact absurd rfl hne

/-- The last local becomes what a member owns. -/
theorem At.own {slot : Slot} {id : ℕ} {locals : List (ℕ × Resource)} {what : Resource}
    (h : At { p with locals := (id, what) :: locals } s) (hfree : p.members.handle slot = none)
    (hwhat : (p.members.set slot (some id)).resource slot = what)
    (hgraph : slot = .context → p.members.handle .graphExecution = none) :
    At { p with locals, members := p.members.set slot (some id) } (s.set slot (some id)) := by
  have honce := List.nodup_cons.mp h.local_once
  have hother : ∀ {slot' id'}, (p.members.set slot (some id)).handle slot' = some id' →
      (slot' = slot ∧ id' = id) ∨ (slot' ≠ slot ∧ p.members.handle slot' = some id') := by
    intro slot' id' hid
    rcases eq_or_ne slot' slot with rfl | hne
    · rw [handle_set_self] at hid
      exact .inl ⟨rfl, (Option.some.inj hid).symm⟩
    · rw [handle_set_of_ne _ _ hne] at hid
      exact .inr ⟨hne, hid⟩
  exact {
    members := congrArg (Members.set · slot (some id)) h.members
    captured := h.captured
    past := h.past
    streams := by
      have hstreams := h.streams
      simp only [List.map_cons, List.sum_cons] at hstreams
      simp only [Machine.set, streams_set hfree, hwhat]
      omega
    lawful := h.lawful
    fresh := h.fresh
    held := by
      intro slot' id' hid
      rcases hother hid with ⟨rfl, rfl⟩ | ⟨hne, hid⟩
      · rw [hwhat]
        exact h.local_live _ (List.mem_cons_self ..)
      · rw [resource_set hgraph hne (by rw [hid]; rfl)]
        exact h.held slot' id' hid
    local_live := fun q hq ↦ h.local_live q (List.mem_cons_of_mem _ hq)
    local_once := honce.2
    local_free := by
      intro q hq slot' hid
      rcases hother hid with ⟨-, heq⟩ | ⟨-, hid⟩
      · exact honce.1 (heq ▸ List.mem_map.mpr ⟨q, hq, rfl⟩)
      · exact h.local_free q (List.mem_cons_of_mem _ hq) slot' hid
    owned := by
      intro id' what' hl
      rcases h.owned id' what' hl with hm | ⟨slot', hid⟩
      · rcases List.mem_cons.mp hm with heq | hm
        · obtain ⟨rfl, rfl⟩ := Prod.mk.inj heq
          exact .inr ⟨slot, handle_set_self ..⟩
        · exact .inl hm
      · refine .inr ⟨slot', ?_⟩
        rw [handle_set_of_ne _ _ (by rintro rfl; rw [hfree] at hid; cases hid)]
        exact hid }

/-- What a member owns becomes a local. -/
theorem At.disown {slot : Slot} {id : ℕ} (h : At p s) (hid : p.members.handle slot = some id)
    (hgraph : slot = .context → p.members.handle .graphExecution = none) :
    At { p with
      locals := (id, p.members.resource slot) :: p.locals
      members := p.members.set slot none } (s.set slot none) := by
  have hother : ∀ {slot' id'}, (p.members.set slot none).handle slot' = some id' →
      slot' ≠ slot ∧ p.members.handle slot' = some id' := by
    intro slot' id' hid
    rcases eq_or_ne slot' slot with rfl | hne
    · rw [handle_set_self] at hid
      cases hid
    · rw [handle_set_of_ne _ _ hne] at hid
      exact ⟨hne, hid⟩
  exact {
    members := congrArg (Members.set · slot none) h.members
    captured := h.captured
    past := h.past
    streams := by
      simp only [Machine.set, List.map_cons, List.sum_cons, h.streams, streams_set_none hid]
      omega
    lawful := h.lawful
    fresh := h.fresh
    held := by
      intro slot' id' hid'
      obtain ⟨hne, hid'⟩ := hother hid'
      rw [resource_set hgraph hne (by rw [hid']; rfl)]
      exact h.held slot' id' hid'
    local_live := by
      intro q hq
      rcases List.mem_cons.mp hq with rfl | hq
      · exact h.held slot id hid
      · exact h.local_live q hq
    local_once := by
      refine List.nodup_cons.mpr ⟨?_, h.local_once⟩
      intro hm
      obtain ⟨q, hq, rfl⟩ := List.mem_map.mp hm
      exact h.local_free q hq slot hid
    local_free := by
      intro q hq slot' hid'
      obtain ⟨hne, hid'⟩ := hother hid'
      rcases List.mem_cons.mp hq with rfl | hq
      · exact hne (h.slot_unique hid' hid)
      · exact h.local_free q hq slot' hid'
    owned := by
      intro id' what' hl
      rcases h.owned id' what' hl with hm | ⟨slot', hid'⟩
      · exact .inl (List.mem_cons_of_mem _ hm)
      · rcases eq_or_ne slot' slot with rfl | hne
        · obtain rfl := Option.some.inj (hid.symm.trans hid')
          refine .inl (List.mem_cons.mpr (.inl ?_))
          rw [h.lawful.content_unique hl.1 (h.held _ _ hid).1]
        · exact .inr ⟨slot', by rw [handle_set_of_ne _ _ hne]; exact hid'⟩ }

end Steps

/-! ### Calls and locals -/

variable {libraries : Libraries} {p : Point}

/-- The point with a new local, when there is one. -/
def Point.allot (p : Point) (what : Resource) : Option ℕ → Point
  | none => p
  | some id => { p with locals := (id, what) :: p.locals }

/-- The machine is at the point, but for members that have a property. -/
def Among (p : Point) (Q : Members → Prop) (s : Machine) : Prop :=
  ∃ m, Q m ∧ At { p with members := m } s

/-- A program that reads the machine first. -/
theorem get_spec {α : Type} {f : Machine → Program α} {Q : α → Machine → Prop}
    (h : ∀ s, s.toMembers = p.members → s.captured = p.captured → Ensures (At p) (f s) Q) :
    Ensures (At p) (MonadState.get >>= f) Q := by
  intro s hs
  exact h s hs.members hs.captured s hs

/-- Members with a property, for whichever members have it. -/
theorem among_spec {α : Type} {x : Program α} {P : Members → Prop} {Q : α → Machine → Prop}
    (h : ∀ m, P m → Ensures (At { p with members := m }) x Q) : Ensures (Among p P) x Q := by
  rintro s ⟨m, hm, hs⟩
  exact h m hm s hs

/-- A call that uses what may be named changes nothing. -/
theorem invoke_spec {α : Type} {op : Operation} {ids : List (Option ℕ)} {answer : ℕ → α}
    (hids : ∀ h ∈ ids, p.Names h) : Ensures (At p) (invoke op ids answer) fun _ ↦ At p := by
  intro s hs
  exact hs.use hids

/-- A program that reads the machine first, whichever of the members it has. -/
theorem get_among {α : Type} {f : Machine → Program α} {P : Members → Prop}
    {Q : α → Machine → Prop} (h : ∀ s, P s.toMembers → Ensures (Among p P) (f s) Q) :
    Ensures (Among p P) (MonadState.get >>= f) Q := by
  rintro s ⟨m, hm, hs⟩
  have hP : P s.toMembers := by
    rw [hs.members]
    exact hm
  exact h s hP s ⟨m, hm, hs⟩

/-- The same where the members are known in part. -/
theorem invoke_among {α : Type} {op : Operation} {ids : List (Option ℕ)} {answer : ℕ → α}
    {P : Members → Prop} (hids : ∀ m, P m → ∀ h ∈ ids, { p with members := m }.Names h) :
    Ensures (Among p P) (invoke op ids answer) fun _ ↦ Among p P := by
  refine among_spec fun m hm ↦ (invoke_spec (hids m hm)).weaken ?_
  exact fun _ _ hs ↦ ⟨m, hm, hs⟩

/-- An object that a call creates is owned by the function. -/
theorem tryCreate_spec {op : Operation} {ids : List (Option ℕ)} (what : Resource)
    (hids : ∀ h ∈ ids, p.Names h) :
    Ensures (At p) (tryCreate libraries op ids what) fun h ↦ At (p.allot what h) := by
  refine Ensures.bind (invoke_spec hids) fun ok ↦ ?_
  cases ok with
  | false => exact fun _ hs ↦ hs
  | true => exact fun _ hs ↦ hs.create what

private theorem resource_set_self (m : Members) (slot : Slot) (h : Option ℕ) :
    (m.set slot h).resource slot = m.resource slot := by
  cases slot <;> rfl

private theorem set_none {m : Members} {slot : Slot} (h : m.handle slot = none) :
    m.set slot none = m := by
  have hupdate : Function.update m.handle slot none = m.handle := by
    rw [← h]
    exact Function.update_eq_self ..
  rw [Members.set, hupdate]

/-- An object that a call creates for a free slot is owned by the slot. -/
theorem createInto_spec {slot : Slot} {op : Operation} {ids : List (Option ℕ)} {what : Resource}
    (hids : ∀ h ∈ ids, p.Names h) (hfree : p.members.handle slot = none)
    (hwhat : p.members.resource slot = what)
    (hgraph : slot = .context → p.members.handle .graphExecution = none) :
    Ensures (At p) (createInto libraries slot op ids what) fun ok ↦
      Among p fun m ↦ ∃ h, m = p.members.set slot h ∧ h.isSome = ok := by
  refine Ensures.bind (tryCreate_spec what hids) fun h ↦ ?_
  intro s hs
  refine ⟨p.members.set slot h, ⟨h, rfl, rfl⟩, ?_⟩
  cases h with
  | none =>
    have heq : (p.allot what none).members = p.members := rfl
    have hset : s.set slot none = s := by
      rw [Machine.set, hs.members, heq, set_none hfree, ← heq, ← hs.members]
    change At _ (s.set slot none)
    rw [hset, set_none hfree]
    exact hs
  | some id => exact hs.own hfree ((resource_set_self ..).trans hwhat) hgraph

/-- A change of the members that leaves what they own. -/
theorem modify_spec {P P' : Members → Prop} (g : Members → Members)
    (h : ∀ m, P m → P' (g m) ∧ m.Alike (g m)) :
    Ensures (Among p P) (modify fun s ↦ { s with toMembers := g s.toMembers } : Program Unit)
      fun _ ↦ Among p P' := by
  rintro s ⟨m, hm, hs⟩
  obtain ⟨hP, halike⟩ := h m hm
  refine ⟨g m, hP, ?_⟩
  have hend := hs.update halike
  rw [show m = s.toMembers from hs.members.symm] at hend ⊢
  exact hend

/-- A local that is no stream, whose scope leaves it in place. -/
theorem withLocal_spec {op : Operation} {ids : List (Option ℕ)} {what : Resource}
    {body : ℕ → Program Bool} {Q : Bool → Members → Prop} (hids : ∀ h ∈ ids, p.Names h)
    (hwhat : what.streams = 0) (hnone : Q false p.members)
    (hbody : ∀ id, Ensures (At { p with locals := (id, what) :: p.locals }) (body id)
      fun ok ↦ Among { p with locals := (id, what) :: p.locals } (Q ok)) :
    Ensures (At p) (withLocal libraries op ids what body) fun ok ↦ Among p (Q ok) := by
  refine Ensures.bind (tryCreate_spec what hids) fun h ↦ ?_
  cases h with
  | none => exact fun _ hs ↦ ⟨p.members, hnone, hs⟩
  | some id =>
    refine Ensures.bind (hbody id) fun ok ↦ ?_
    rintro s ⟨m, hm, hs⟩
    have hend := At.destroy (p := { p with members := m }) hs
    rw [hwhat] at hend
    exact ⟨m, hm, hend⟩

/-! ### Destruction -/

/-- A released slot owns nothing, and its stream is counted once. -/
theorem release_spec {slot : Slot}
    (hgraph : slot = .context → p.members.handle .graphExecution = none) :
    Ensures (At p) (release slot) fun _ s ↦ ∃ n,
      n + (p.members.set slot none).streams = p.streams + p.members.streams ∧
        At { p with members := p.members.set slot none, streams := n } s := by
  refine Ensures.get fun s ↦ ?_
  cases hslot : s.handle slot with
  | none =>
    rintro _ ⟨rfl, hs⟩
    rw [hs.members] at hslot
    rw [set_none hslot]
    exact ⟨p.streams, rfl, hs⟩
  | some id =>
    rintro _ ⟨rfl, hs⟩
    rw [hs.members] at hslot
    refine ⟨p.streams + (p.members.resource slot).streams, ?_, ?_⟩
    · rw [streams_set_none hslot]
      omega
    · exact At.destroy (p := { p with members := p.members.set slot none })
        (hs.disown hslot hgraph)

private theorem releaseAll_spec {slots : List Slot} {p : Point}
    (hp : p.members.handle .graphExecution = none ∨
      .context ∉ slots.takeWhile (· ≠ .graphExecution)) :
    Ensures (At p) (releaseAll slots) fun _ s ↦ ∃ n m,
      n + m.streams = p.streams + p.members.streams ∧
        (∀ slot, m.handle slot = if slot ∈ slots then none else p.members.handle slot) ∧
        At { p with members := m, streams := n } s := by
  induction slots generalizing p with
  | nil => exact fun _ hs ↦ ⟨p.streams, p.members, rfl, fun _ ↦ rfl, hs⟩
  | cons slot slots ih =>
    have hgraph : slot = .context → p.members.handle .graphExecution = none := by
      rintro rfl
      exact hp.resolve_right (by simp)
    refine Ensures.bind (release_spec hgraph) fun _ ↦ ?_
    rintro s ⟨n, hn, hs⟩
    have hrest : (p.members.set slot none).handle .graphExecution = none ∨
        .context ∉ slots.takeWhile (· ≠ .graphExecution) := by
      rcases eq_or_ne slot .graphExecution with rfl | hne
      · exact .inl (handle_set_self ..)
      · rw [handle_set_of_ne _ _ hne.symm]
        exact hp.imp_right fun hnot hm ↦ hnot (by
          rw [List.takeWhile_cons_of_pos (by simpa using hne)]
          exact List.mem_cons_of_mem _ hm)
    obtain ⟨n', m, hn', hm, hend⟩ :=
      ih (p := { p with members := p.members.set slot none, streams := n }) hrest s hs
    refine ⟨n', m, hn'.trans hn, ?_, hend⟩
    intro slot'
    rw [hm]
    rcases eq_or_ne slot' slot with rfl | hne
    · simp
    · simp [hne]

private theorem synchronize_spec :
    Ensures (At p) (synchronize libraries) fun _ ↦ At p := by
  refine get_spec fun s hm _ ↦ Ensures.ite (fun hsome ↦ ?_) fun _ _ hs ↦ hs
  rw [hm] at hsome ⊢
  refine Ensures.bind (invoke_spec ?_) fun _ _ hs ↦ hs
  exact List.forall_mem_singleton.mpr (p.names_handle hsome)

/-- Destruction leaves nothing of the members. -/
theorem destroyResources_spec (libraries : Libraries) :
    Ensures (At p) (destroyResources libraries) fun _ ↦
      At { p with members := {}, streams := p.streams + p.members.streams } := by
  refine Ensures.bind synchronize_spec fun _ ↦ ?_
  refine Ensures.bind (releaseAll_spec (.inr (by decide))) fun _ ↦ ?_
  rintro s ⟨n, m, hn, hm, hs⟩
  have hnone : m.handle = fun _ ↦ none := by
    funext slot
    rw [hm, if_pos (by cases slot <;> decide)]
  have hn' : n = p.streams + p.members.streams := by
    rw [← hn, Members.streams, hnone]
    rfl
  subst hn'
  have hempty : m.Alike {} := ⟨hnone.symm, fun slot hslot ↦ by rw [hnone] at hslot; cases hslot⟩
  have hhandle : s.handle = fun _ ↦ none := by
    rw [hs.members]
    exact hnone
  change At _ { s with toMembers := { handle := s.handle } }
  rw [hhandle]
  exact hs.update hempty

end MarketData.TensorRT
