import Mst5Client.ConnectionState

set_option autoImplicit false

/-!
# Routing without the queues

What the connection does with ids, channels and frames, apart from the locks, permits and queues it
does it with.
-/
namespace Mst5Client.FrameRouting
open TaskPrograms ConnectionState

structure Router where
  nextId : ℕ
  registered : List (ℕ × ℕ)
  pending : List (ℕ × ℕ)
  handles : List (ℕ × ℕ)
  logs : List (List Arrived)
  arrived : List Frame
  routes : List (Arrived × Option ℕ)
  events : List Arrived

inductive Reading where
  | idle
  | read (a : Arrived)
  | routed (a : Arrived) (channel : ℕ)
  | missed (a : Arrived)

def Reading.found (a : Arrived) : Option ℕ → Reading
  | some channel => .routed a channel
  | none => .missed a

namespace Router

def allocate (s : Router) : Router := { s with nextId := s.nextId + 1 }
def openChannel (s : Router) : Router := { s with logs := s.logs ++ [[]] }
def lose (s : Router) (pending : List (ℕ × ℕ)) : Router := { s with pending }
def giveHandle (s : Router) (e : ℕ × ℕ) : Router := { s with handles := s.handles ++ [e] }
def read (s : Router) (frame : Frame) : Router := { s with arrived := s.arrived ++ [frame] }
def push (s : Router) (a : Arrived) (n : ℕ) : Router :=
  { s with logs := s.logs.modify n (· ++ [a]) }
def announce (s : Router) (a : Arrived) : Router := { s with events := s.events ++ [a] }

def register (s : Router) (id channel : ℕ) : Router :=
  { s with
    pending := without id s.pending ++ [(id, channel)]
    registered := s.registered ++ [(id, channel)] }

def lookup (s : Router) (a : Arrived) : Router :=
  { s with
    pending := if isTerminalResponse a.frame.kind then without a.frame.id s.pending else s.pending
    routes := s.routes ++ [(a, senderOf a.frame.id s.pending)] }

end Router

theorem mem_of_senderOf {id n : ℕ} {pending : List (ℕ × ℕ)} (h : senderOf id pending = some n) :
    (id, n) ∈ pending := by
  obtain ⟨e, he, rfl⟩ := Option.map_eq_some_iff.mp h
  have hid : e.1 = id := by simpa using List.find?_some he
  rw [← hid]
  exact List.mem_of_find?_eq_some he

theorem mem_without {id : ℕ} {pending : List (ℕ × ℕ)} {e : ℕ × ℕ} :
    e ∈ without id pending ↔ e ∈ pending ∧ e.1 ≠ id := by
  simp [without, List.mem_filter]

theorem lookup_pending (s : Router) (a : Arrived) : ∀ e ∈ (s.lookup a).pending, e ∈ s.pending := by
  intro e he
  simp only [Router.lookup] at he
  split at he
  · exact (mem_without.mp he).1
  · exact he

/-- Ids, channels and handles are made once and used once. -/
structure Registry (s : Router) (ids channels : ℕ → Option ℕ) (owed : ℕ → Option (ℕ × ℕ)) :
    Prop where
  ids : Tokens (fun id => 0 < id ∧ id < s.nextId) (s.registered.map Prod.fst) ids
  channels : Tokens (fun n => n < s.logs.length) (s.registered.map Prod.snd) channels
  handles : Tokens (fun e => e ∈ s.registered) s.handles owed
  pending : ∀ e ∈ s.pending, e ∈ s.registered

variable {s s' : Router} {ids channels : ℕ → Option ℕ} {owed : ℕ → Option (ℕ × ℕ)}

theorem Registry.id_of_channel (h : Registry s ids channels owed) {e e' : ℕ × ℕ}
    (he : e ∈ s.registered) (he' : e' ∈ s.registered) (hchannel : e.2 = e'.2) : e = e' :=
  List.inj_on_of_nodup_map h.channels.used_nodup he he' hchannel

theorem Registry.keep (h : Registry s ids channels owed) (hnext : s'.nextId = s.nextId)
    (hregistered : s'.registered = s.registered) (hhandles : s'.handles = s.handles)
    (hlogs : s'.logs.length = s.logs.length) (hpending : ∀ e ∈ s'.pending, e ∈ s.pending) :
    Registry s' ids channels owed := by
  refine ⟨?_, ?_, ?_, ?_⟩
  · rw [hnext, hregistered]
    exact h.ids
  · rw [hlogs, hregistered]
    exact h.channels
  · rw [hhandles, hregistered]
    exact h.handles
  · rw [hregistered]
    exact fun e he => h.pending e (hpending e he)

theorem Registry.forget (h : Registry s ids channels owed) (i : ℕ) :
    Registry s (Function.update ids i none) (Function.update channels i none)
      (Function.update owed i none) :=
  ⟨h.ids.forget i, h.channels.forget i, h.handles.forget i, h.pending⟩

theorem Registry.allocate (h : Registry s ids channels owed) (i : ℕ) (hnext : s.nextId ≠ 0) :
    Registry s.allocate (Function.update ids i (some s.nextId)) channels owed := by
  refine ⟨h.ids.make i (fun hmade => Nat.lt_irrefl _ hmade.2) ?_, h.channels, h.handles, h.pending⟩
  intro id
  simp only [Router.allocate]
  omega

theorem Registry.openChannel (h : Registry s ids channels owed) (i : ℕ) :
    Registry s.openChannel ids (Function.update channels i (some s.logs.length)) owed := by
  refine ⟨h.ids, h.channels.make i (Nat.lt_irrefl _) ?_, h.handles, h.pending⟩
  intro n
  simp only [Router.openChannel, List.length_append, List.length_singleton]
  omega

theorem Registry.register (h : Registry s ids channels owed) {i id n : ℕ} (hid : ids i = some id)
    (hn : channels i = some n) :
    Registry (s.register id n) (Function.update ids i none) (Function.update channels i none)
      (Function.update owed i (some (id, n))) := by
  have hfresh : (id, n) ∉ s.registered := fun hmem =>
    h.ids.held_unused i id hid (List.mem_map_of_mem (f := Prod.fst) hmem)
  refine ⟨?_, ?_, h.handles.make i hfresh (by simp [Router.register]), ?_⟩
  · simpa only [Router.register, List.map_append, List.map_singleton] using h.ids.use hid
  · simpa only [Router.register, List.map_append, List.map_singleton] using h.channels.use hn
  · intro e he
    simp only [Router.register, List.mem_append, List.mem_singleton] at he ⊢
    exact he.imp_left fun he => h.pending e (mem_without.mp he).1

theorem Registry.giveHandle (h : Registry s ids channels owed) {i : ℕ} {e : ℕ × ℕ}
    (he : owed i = some e) : Registry (s.giveHandle e) ids channels (Function.update owed i none) :=
  ⟨h.ids, h.channels, h.handles.use he, h.pending⟩

variable {n : ℕ} {log : List Arrived} {r : Reading} {a : Arrived}

def Before (a b : Arrived) : Prop := a.seq < b.seq ∧ isTerminalResponse a.frame.kind = false

structure Log (s : Router) (n : ℕ) (log : List Arrived) : Prop where
  routed : ∀ a ∈ log, (a.frame.id, n) ∈ s.registered ∧ (a, some n) ∈ s.routes
  ordered : log.Pairwise Before
  ended : ∀ a ∈ log, isTerminalResponse a.frame.kind = true → a.frame.id ∉ s.pending.map Prod.fst

def Reading.Valid (s : Router) : Reading → Prop
  | .idle => True
  | .read a =>
    a.seq + 1 = s.arrived.length ∧ s.arrived[a.seq]? = some a.frame ∧ ∀ e ∈ s.routes, e.1.seq < a.seq
  | .routed a n => Log s n [a] ∧ ∀ log, s.logs[n]? = some log → ∀ b ∈ log, Before b a
  | .missed a => (a, none) ∈ s.routes

structure Delivery (s : Router) (reading : Option Reading) : Prop where
  logs : ∀ (n : ℕ) log, s.logs[n]? = some log → Log s n log
  arrived : ∀ e ∈ s.routes, s.arrived[e.1.seq]? = some e.1.frame
  once : (s.routes.map fun e => e.1.seq).Nodup
  events : ∀ a ∈ s.events, (a, none) ∈ s.routes ∧ a.frame.kind = kindEventBatch
  latest : ∀ a, (a, none) ∈ s.routes → a.frame.kind = kindEventBatch →
    a ∈ s.events ∨ a.seq + 1 = s.arrived.length
  valid : ∀ r, reading = some r → r.Valid s
  announced : ∀ r, reading = some r → ∀ a, (a, none) ∈ s.routes → a.frame.kind = kindEventBatch →
    a ∈ s.events ∨ r = .missed a

variable {reading : Option Reading}

theorem Log.extend (h : Log s n log) (hregistered : ∀ e ∈ s.registered, e ∈ s'.registered)
    (hroutes : ∀ e ∈ s.routes, e ∈ s'.routes)
    (hpending : ∀ e ∈ s'.pending, e ∈ s.pending ∨ e.1 ∉ s.registered.map Prod.fst) :
    Log s' n log := by
  refine ⟨fun a ha => ⟨hregistered _ (h.routed a ha).1, hroutes _ (h.routed a ha).2⟩, h.ordered, ?_⟩
  intro a ha hterminal hmem
  obtain ⟨e, he, hid⟩ := List.mem_map.mp hmem
  obtain hold | hnew := hpending e he
  · exact h.ended a ha hterminal (hid ▸ List.mem_map_of_mem hold)
  · exact hnew (hid ▸ List.mem_map_of_mem (f := Prod.fst) (h.routed a ha).1)

/-- The frames are left alone. -/
structure Quiet (s s' : Router) : Prop where
  arrived : s'.arrived = s.arrived
  routes : s'.routes = s.routes
  events : s'.events = s.events
  logs : ∀ (n : ℕ) log, s'.logs[n]? = some log → s.logs[n]? = some log ∨ log = []
  registered : ∀ e ∈ s.registered, e ∈ s'.registered
  pending : ∀ e ∈ s'.pending, e ∈ s.pending ∨ e.1 ∉ s.registered.map Prod.fst

theorem Quiet.extend (q : Quiet s s') (h : Log s n log) : Log s' n log :=
  h.extend q.registered (fun _ he => q.routes ▸ he) q.pending

theorem Quiet.valid (q : Quiet s s') (h : r.Valid s) : r.Valid s' := by
  cases r with
  | idle => trivial
  | read a =>
    simp only [Reading.Valid, q.arrived, q.routes]
    exact h
  | routed a n =>
    refine ⟨q.extend h.1, fun log hlog => ?_⟩
    obtain hold | rfl := q.logs n log hlog
    · exact h.2 log hold
    · exact fun b hb => absurd hb List.not_mem_nil
  | missed a =>
    simp only [Reading.Valid, q.routes]
    exact h

theorem Delivery.quiet (h : Delivery s reading) (q : Quiet s s') : Delivery s' reading := by
  refine ⟨?_, ?_, ?_, ?_, ?_, fun r hr => q.valid (h.valid r hr), ?_⟩
  · intro n log hlog
    obtain hold | rfl := q.logs n log hlog
    · exact q.extend (h.logs n log hold)
    · exact ⟨fun a ha => absurd ha List.not_mem_nil, List.Pairwise.nil,
        fun a ha => absurd ha List.not_mem_nil⟩
  · rw [q.routes, q.arrived]
    exact h.arrived
  · rw [q.routes]
    exact h.once
  · rw [q.events, q.routes]
    exact h.events
  · rw [q.routes, q.events, q.arrived]
    exact h.latest
  · rw [q.routes, q.events]
    exact h.announced

theorem Delivery.forget (h : Delivery s reading) : Delivery s none :=
  ⟨h.logs, h.arrived, h.once, h.events, h.latest, fun _ hr => (by cases hr), fun _ hr => (by cases hr)⟩

theorem Delivery.settle (h : Delivery s (some r)) (hr : ∀ a, r ≠ .missed a) :
    Delivery s (some .idle) := by
  refine ⟨h.logs, h.arrived, h.once, h.events, h.latest, ?_, ?_⟩
  · rintro _ ⟨⟩
    trivial
  · rintro _ ⟨⟩ a ha hkind
    exact .inl ((h.announced r rfl a ha hkind).resolve_right (hr a))

theorem Quiet.allocate : Quiet s s.allocate :=
  ⟨rfl, rfl, rfl, fun _ _ h => .inl h, fun _ h => h, fun _ h => .inl h⟩

theorem Quiet.giveHandle (e : ℕ × ℕ) : Quiet s (s.giveHandle e) :=
  ⟨rfl, rfl, rfl, fun _ _ h => .inl h, fun _ h => h, fun _ h => .inl h⟩

theorem Quiet.lose {pending : List (ℕ × ℕ)} (h : ∀ e ∈ pending, e ∈ s.pending) :
    Quiet s (s.lose pending) :=
  ⟨rfl, rfl, rfl, fun _ _ h => .inl h, fun _ h => h, fun e he => .inl (h e he)⟩

theorem Quiet.openChannel : Quiet s s.openChannel := by
  refine ⟨rfl, rfl, rfl, ?_, fun _ h => h, fun _ h => .inl h⟩
  intro n log hlog
  by_cases hn : n < s.logs.length
  · rw [Router.openChannel, List.getElem?_append_left hn] at hlog
    exact .inl hlog
  · rw [Router.openChannel, List.getElem?_append_right (by omega)] at hlog
    exact .inr (List.mem_singleton.mp (List.mem_of_getElem? hlog))

theorem Quiet.register {id : ℕ} (hid : id ∉ s.registered.map Prod.fst) :
    Quiet s (s.register id n) := by
  refine ⟨rfl, rfl, rfl, fun _ _ h => .inl h, fun _ h => List.mem_append_left _ h, ?_⟩
  intro e he
  simp only [Router.register, List.mem_append, List.mem_singleton] at he
  obtain he | rfl := he
  · exact .inl (mem_without.mp he).1
  · exact .inr hid

theorem Delivery.read (h : Delivery s (some r)) (frame : Frame)
    (hr : ∀ a, r = .missed a → a.frame.kind ≠ kindEventBatch) :
    Delivery (s.read frame) (some (.read ⟨s.arrived.length, frame⟩)) := by
  have hbound : ∀ e ∈ s.routes, e.1.seq < s.arrived.length := fun e he =>
    (List.getElem?_eq_some_iff.mp (h.arrived e he)).1
  have hannounced : ∀ a, (a, none) ∈ s.routes → a.frame.kind = kindEventBatch → a ∈ s.events :=
    fun a ha hkind => (h.announced r rfl a ha hkind).resolve_right fun hmissed => hr a hmissed hkind
  refine ⟨?_, ?_, h.once, h.events, fun a ha hkind => .inl (hannounced a ha hkind), ?_, ?_⟩
  · intro n log hlog
    exact (h.logs n log hlog).extend (fun _ he => he) (fun _ he => he) fun _ he => .inl he
  · intro e he
    rw [Router.read, List.getElem?_append_left (hbound e he)]
    exact h.arrived e he
  · rintro _ ⟨⟩
    exact ⟨by simp [Router.read], by simp [Router.read], hbound⟩
  · exact fun _ _ a ha hkind => .inl (hannounced a ha hkind)

theorem Delivery.announce (h : Delivery s (some (.missed a))) (ha : a.frame.kind = kindEventBatch) :
    Delivery (s.announce a) (some .idle) := by
  have hmissed : (a, none) ∈ s.routes := h.valid _ rfl
  have hannounced : ∀ b, (b, none) ∈ s.routes → b.frame.kind = kindEventBatch →
      b ∈ s.events ++ [a] := by
    intro b hb hkind
    obtain hb | hb := h.announced _ rfl b hb hkind
    · exact List.mem_append_left _ hb
    · cases hb
      exact List.mem_append_right _ List.mem_cons_self
  refine ⟨?_, h.arrived, h.once, ?_, fun b hb hkind => .inl (hannounced b hb hkind), ?_,
    fun _ _ b hb hkind => .inl (hannounced b hb hkind)⟩
  · intro n log hlog
    exact (h.logs n log hlog).extend (fun _ he => he) (fun _ he => he) fun _ he => .inl he
  · intro b hb
    simp only [Router.announce, List.mem_append, List.mem_singleton] at hb
    obtain hb | rfl := hb
    · exact h.events b hb
    · exact ⟨hmissed, ha⟩
  · rintro _ ⟨⟩
    trivial

theorem Log.append (h : Log s n log) (ha : Log s n [a]) (hbefore : ∀ b ∈ log, Before b a) :
    Log s n (log ++ [a]) := by
  refine ⟨?_, ?_, ?_⟩
  · exact fun b hb => (List.mem_append.mp hb).elim (h.routed b) (ha.routed b)
  · exact List.pairwise_append.mpr ⟨h.ordered, ha.ordered, fun b hb c hc =>
      List.mem_singleton.mp hc ▸ hbefore b hb⟩
  · exact fun b hb => (List.mem_append.mp hb).elim (h.ended b) (ha.ended b)

theorem Delivery.push (h : Delivery s (some (.routed a n))) :
    Delivery (s.push a n) (some .idle) := by
  have hsettled := h.settle (fun _ => nofun)
  have hvalid : Reading.Valid s (.routed a n) := h.valid _ rfl
  refine ⟨?_, h.arrived, h.once, h.events, h.latest, fun r hr => ?_, hsettled.announced⟩
  · intro m log hlog
    have hlog' : Log s m log := by
      rw [Router.push, List.getElem?_modify] at hlog
      obtain ⟨old, hold, rfl⟩ := Option.map_eq_some_iff.mp hlog
      by_cases hm : n = m
      · subst hm
        rw [if_pos rfl]
        exact (h.logs n old hold).append hvalid.1 (hvalid.2 old hold)
      · rw [if_neg hm]
        exact h.logs m old hold
    exact hlog'.extend (fun _ he => he) (fun _ he => he) fun _ he => .inl he
  · cases hr
    trivial

theorem Delivery.routed_valid {ids channels : ℕ → Option ℕ} (h : Delivery s (some (.read a)))
    (hregistry : Registry s ids channels owed) (hsender : senderOf a.frame.id s.pending = some n) :
    Reading.Valid (s.lookup a) (.routed a n) := by
  have hown : (a.frame.id, n) ∈ s.pending := mem_of_senderOf hsender
  have hregistered := hregistry.pending _ hown
  refine ⟨⟨?_, List.pairwise_singleton _ _, ?_⟩, ?_⟩
  · intro b hb
    obtain rfl := List.mem_singleton.mp hb
    exact ⟨hregistered, by simp [Router.lookup, hsender]⟩
  · intro b hb hterminal hmem
    obtain rfl := List.mem_singleton.mp hb
    obtain ⟨e, he, hid⟩ := List.mem_map.mp hmem
    simp only [Router.lookup, hterminal, if_true] at he
    exact (mem_without.mp he).2 hid
  · intro log hlog b hb
    have hb' := (h.logs n log hlog).routed b hb
    obtain ⟨_, _, hbefore⟩ : Reading.Valid s (.read a) := h.valid _ rfl
    refine ⟨hbefore _ hb'.2, Bool.eq_false_iff.mpr fun hterminal => ?_⟩
    have hid : b.frame.id = a.frame.id :=
      congrArg Prod.fst (hregistry.id_of_channel hb'.1 hregistered rfl)
    exact (h.logs n log hlog).ended b hb hterminal (hid ▸ List.mem_map_of_mem (f := Prod.fst) hown)

theorem Delivery.lookup {ids channels : ℕ → Option ℕ} (h : Delivery s (some (.read a)))
    (hregistry : Registry s ids channels owed) :
    Delivery (s.lookup a) (some (.found a (senderOf a.frame.id s.pending))) := by
  obtain ⟨hseq, harrived, hbefore⟩ : Reading.Valid s (.read a) := h.valid _ rfl
  have hextend : ∀ {n log}, Log s n log → Log (s.lookup a) n log := fun hlog =>
    hlog.extend (fun _ he => he) (fun _ he => List.mem_append_left _ he) fun e he =>
      .inl (lookup_pending s a e he)
  have hmissed : ∀ b, (b, none) ∈ (s.lookup a).routes → (b, none) ∈ s.routes ∨
      b = a ∧ senderOf a.frame.id s.pending = none := by
    intro b hb
    simp only [Router.lookup, List.mem_append, List.mem_singleton, Prod.mk.injEq] at hb
    exact hb.imp_right fun hb => ⟨hb.1, hb.2.symm⟩
  have hannounced : ∀ b, (b, none) ∈ s.routes → b.frame.kind = kindEventBatch → b ∈ s.events :=
    fun b hb hkind => (h.announced _ rfl b hb hkind).resolve_right nofun
  refine ⟨fun n log hlog => hextend (h.logs n log hlog), ?_, ?_, ?_, ?_, ?_, ?_⟩
  · intro e he
    simp only [Router.lookup, List.mem_append, List.mem_singleton] at he
    obtain he | rfl := he
    · exact h.arrived e he
    · exact harrived
  · simp only [Router.lookup, List.map_append, List.map_singleton]
    rw [List.nodup_append_comm]
    -- all frames looked up so far were read earlier
    refine h.once.cons fun hmem => ?_
    obtain ⟨e, he, heq⟩ := List.mem_map.mp hmem
    exact Nat.ne_of_lt (hbefore e he) heq
  · exact fun b hb => ⟨List.mem_append_left _ (h.events b hb).1, (h.events b hb).2⟩
  · intro b hb hkind
    obtain hb | ⟨rfl, _⟩ := hmissed b hb
    · exact .inl (hannounced b hb hkind)
    · exact .inr hseq
  · rintro _ ⟨⟩
    cases hsender : senderOf a.frame.id s.pending with
    | none => exact List.mem_append_right _ (by rw [hsender]; exact List.mem_cons_self)
    | some n => exact h.routed_valid hregistry hsender
  · rintro _ ⟨⟩ b hb hkind
    obtain hb | ⟨rfl, hnone⟩ := hmissed b hb
    · exact .inl (hannounced b hb hkind)
    · rw [hnone]
      exact .inr rfl

end Mst5Client.FrameRouting
