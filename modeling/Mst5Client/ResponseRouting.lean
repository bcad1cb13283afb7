import Mst5Client.ConnectionEffects
import Mst5Client.RoutingDiscipline

set_option autoImplicit false

/-!
# Responses reach the request they answer

The connection refines the router: each operation either leaves the router's state alone, possibly
with fewer pending ids, or is one of its steps.
-/
namespace Mst5Client.ResponseRouting
open MachineRuns TaskPrograms ConnectionState ConnectionCalls ConnectionEffects FrameRouting
open RoutingDiscipline

def key (h : Handle) : ℕ × ℕ := (h.id, h.channel)

def view (c : Connection) : Router where
  nextId := c.nextId
  registered := c.registered
  pending := c.pending
  handles := c.handles.map key
  logs := c.channels.map Channel.log
  arrived := c.arrived
  routes := c.routes
  events := c.events

variable {c : Connection}

/-- The router's state is the same but for ids that are no longer pending. -/
def Keeps (c c' : Connection) : Prop :=
  ∃ pending, (∀ x ∈ pending, x ∈ c.pending) ∧ view c' = (view c).lose pending

theorem keeps_of_same {c' : Connection} (hrouting : Part.routing.Same c c')
    (hregistered : Part.registered.Same c c') (hpending : ∀ x ∈ c'.pending, x ∈ c.pending) :
    Keeps c c' := by
  refine ⟨c'.pending, hpending, ?_⟩
  have hregistered : c'.registered = c.registered := hregistered
  have hrouting : (c'.nextId, c'.handles.map key, c'.channels.map Channel.log, c'.arrived,
    c'.routes, c'.events) =
      (c.nextId, c.handles.map key, c.channels.map Channel.log, c.arrived, c.routes, c.events) :=
        hrouting
  simp only [Prod.mk.injEq] at hrouting
  obtain ⟨hnext, hhandles, hlogs, harrived, hroutes, hevents⟩ := hrouting
  rw [view, hnext, hregistered, hhandles, hlogs, harrived, hroutes, hevents]
  rfl

theorem ready_aftermath {handle : ℕ} {n : Name} (h : Aftermath c handle n) :
    ready n Owned.nothing := by
  obtain ⟨id, -, rfl | rfl⟩ := h <;> trivial

theorem discard_keeps (c : Connection) (l : Locals) : Keeps c (c.discard l).1 := by
  have hpending : (c.discard l).1.pending = c.pending := discard_same c l .pending
  exact keeps_of_same (discard_same c l .routing) (discard_same c l .registered) fun x hx =>
    hpending ▸ hx

theorem perform_keeps {l : Locals} {op : Op} {choice : Choice} {e : Performed (Ans op)}
    (hplain : plain op = true) (he : perform c l op choice = some e) : Keeps c e.shared := by
  have hsame := (perform_frames choice e he).same
  cases op with
  | newChannel => cases hplain
  | allocateId => cases hplain
  | insertPending id channel => cases hplain
  | lookupPending a remove => cases hplain
  | newHandle stream id channel => cases hplain
  | readFrame => cases hplain
  | broadcast a => cases hplain
  | removePending id =>
    refine keeps_of_same (hsame .routing rfl) (hsame .registered rfl) fun x hx => ?_
    rw [show e.shared.pending = without id c.pending from removePending_effect he] at hx
    exact (mem_without.mp hx).1
  | takePending =>
    refine keeps_of_same (hsame .routing rfl) (hsame .registered rfl) fun x hx => ?_
    rw [show e.shared.pending = [] from (takePending_effect he).2] at hx
    cases hx
  | sendChannel channel item =>
    cases item with
    | frame a => cases hplain
    | failed message =>
      have hpending : e.shared.pending = c.pending := hsame .pending rfl
      exact keeps_of_same (hsame .routing rfl) (hsame .registered rfl) fun x hx => hpending ▸ hx
  -- the others change nothing that the router has
  | _ =>
    have hpending : e.shared.pending = c.pending := hsame .pending rfl
    exact keeps_of_same (hsame .routing rfl) (hsame .registered rfl) fun x hx => hpending ▸ hx

def Plain {ω : Type} (c : Connection) (e : Performed ω) : Prop :=
  Keeps c e.shared ∧ ∀ n ∈ e.spawned, ready n Owned.nothing

theorem perform_plain {l : Locals} {op : Op} (choice : Choice) (hplain : plain op = true) :
    Always (Plain c) (perform c l op choice) := by
  intro e he
  refine ⟨perform_keeps hplain he, fun n hn => ?_⟩
  obtain ⟨_, -, haftermath⟩ := (perform_frames choice e he).spawned n hn
  exact ready_aftermath haftermath

variable {c' : Connection} {rs : ℕ → Owned} {i : ℕ}

/-- Task `0` is the only reader. -/
structure Invariant (c : Connection) (rs : ℕ → Owned) : Prop where
  registry : Registry (view c) (Owned.id ∘ rs) (Owned.channel ∘ rs) (Owned.registered ∘ rs)
  delivery : Delivery (view c) (rs 0).reader
  readers : ∀ i ≠ 0, (rs i).reader = none

theorem Invariant.reader_eq (h : Invariant c rs) {r : Reading} (hr : (rs i).reader = some r) :
    i = 0 := by
  by_contra hi
  rw [h.readers i hi] at hr
  cases hr

theorem Invariant.quiet (h : Invariant c rs) {r : Owned} {ids channels : ℕ → Option ℕ}
    {owed : ℕ → Option (ℕ × ℕ)} (hreader : r.reader = (rs i).reader)
    (hids : Function.update (Owned.id ∘ rs) i r.id = ids)
    (hchannels : Function.update (Owned.channel ∘ rs) i r.channel = channels)
    (howed : Function.update (Owned.registered ∘ rs) i r.registered = owed)
    (hregistry : Registry (view c') ids channels owed) (q : Quiet (view c) (view c')) :
    Invariant c' (Function.update rs i r) := by
  have hreaders : Owned.reader ∘ Function.update rs i r = Owned.reader ∘ rs := by
    rw [Function.comp_update, hreader]
    exact Function.update_eq_self i (Owned.reader ∘ rs)
  refine ⟨?_, ?_, ?_⟩
  · rw [Function.comp_update, Function.comp_update, Function.comp_update, hids, hchannels, howed]
    exact hregistry
  · rw [show (Function.update rs i r 0).reader = (rs 0).reader from congrFun hreaders 0]
    exact h.delivery.quiet q
  · intro j hj
    exact (congrFun hreaders j).trans (h.readers j hj)

theorem Invariant.read (h : Invariant c rs) {reading : Reading}
    (hregistry : Registry (view c') (Owned.id ∘ rs) (Owned.channel ∘ rs) (Owned.registered ∘ rs))
    (hdelivery : Delivery (view c') (some reading)) :
    Invariant c' (Function.update rs 0 { rs 0 with reader := some reading }) := by
  refine ⟨?_, ?_, ?_⟩
  · have hids := Function.update_eq_self 0 (Owned.id ∘ rs)
    have hchannels := Function.update_eq_self 0 (Owned.channel ∘ rs)
    have howed := Function.update_eq_self 0 (Owned.registered ∘ rs)
    rw [← hids, ← hchannels, ← howed] at hregistry
    simp only [Function.comp_update]
    exact hregistry
  · rw [Function.update_self]
    exact hdelivery
  · intro j hj
    rw [Function.update_of_ne hj]
    exact h.readers j hj

theorem Invariant.keeps (h : Invariant c rs) (hk : Keeps c c') : Invariant c' rs := by
  obtain ⟨pending, hsub, hview⟩ := hk
  refine ⟨?_, ?_, h.readers⟩
  · rw [hview]
    exact h.registry.keep rfl rfl rfl rfl hsub
  · rw [hview]
    exact h.delivery.quiet (Quiet.lose hsub)

theorem Invariant.forget (h : Invariant c rs) (i : ℕ) :
    Invariant c (Function.update rs i Owned.nothing) := by
  refine ⟨?_, ?_, ?_⟩
  · simp only [Function.comp_update]
    exact h.registry.forget i
  · by_cases hi : i = 0
    · rw [hi, Function.update_self]
      exact h.delivery.forget
    · rw [Function.update_of_ne (Ne.symm hi)]
      exact h.delivery
  · intro j hj
    by_cases hi : j = i
    · rw [hi, Function.update_self]
      rfl
    · rw [Function.update_of_ne hi]
      exact h.readers j hj

theorem view_newChannel :
    view { c with channels := c.channels ++ [⟨[], true, []⟩] } = (view c).openChannel := by
  simp only [view, Router.openChannel, List.map_append, List.map_singleton]

theorem view_newHandle (h : Handle) :
    view { c with handles := c.handles ++ [h] } = (view c).giveHandle (key h) := by
  simp only [view, Router.giveHandle, List.map_append, List.map_singleton]

theorem view_send (a : Arrived) (n : ℕ) {f : Channel → Channel}
    (hf : ∀ ch, (f ch).log = ch.log ++ [a]) : view (c.setChannel n f) = (view c).push a n := by
  have hlogs : (c.channels.modify n f).map Channel.log =
      (c.channels.map Channel.log).modify n (· ++ [a]) := by
    apply List.ext_getElem?
    intro m
    rw [List.getElem?_map, List.getElem?_modify, List.getElem?_modify, List.getElem?_map]
    by_cases hm : n = m
    · simp [hm, Function.comp_def, hf]
    · simp [hm]
  simp only [view, Connection.setChannel, Router.push, hlogs]

def Sound (rs : ℕ → Owned) (i : ℕ) (op : Op) (e : Performed (Ans op)) : Prop :=
  Invariant e.shared (Function.update rs i (post (rs i) op e.answer)) ∧ ∀ n ∈ e.spawned,
    ready n Owned.nothing

theorem sound_done {op : Op} {answer : Ans op} {l : Locals}
    (h : Invariant c' (Function.update rs i (post (rs i) op answer))) :
    Always (Sound rs i op) (done c' l answer) := by
  rintro _ ⟨⟩
  exact ⟨h, fun n hn => by cases hn⟩

section Operations
variable {l : Locals}

theorem sound_plain (h : Invariant c rs) {op : Op} (choice : Choice) (hop : plain op = true) :
    Always (Sound rs i op) (perform c l op choice) := by
  intro e he
  obtain ⟨hkeeps, hready⟩ := perform_plain choice hop e he
  refine ⟨?_, hready⟩
  rw [post_plain hop, Function.update_eq_self]
  exact h.keeps hkeeps

theorem sound_newChannel (h : Invariant c rs) (choice : Choice) :
    Always (Sound rs i .newChannel) (perform c l .newChannel choice) := by
  cases choice with
  | proceed =>
    refine sound_done (h.quiet rfl (Function.update_eq_self i _) rfl (Function.update_eq_self i _)
      ?_ ?_)
    · have hregistry := h.registry.openChannel i
      rw [show (view c).logs.length = c.channels.length from List.length_map _] at hregistry
      rw [view_newChannel]
      exact hregistry
    · rw [view_newChannel]
      exact Quiet.openChannel
  | _ => exact always_none

theorem sound_allocateId (h : Invariant c rs) (choice : Choice) :
    Always (Sound rs i .allocateId) (perform c l .allocateId choice) := by
  cases choice with
  | proceed =>
    change Always (Sound rs i .allocateId) (if c.nextId = 0 ∨ c.nextId = 2 ^ 64 - 1 then _ else _)
    split_ifs with hexhausted
    · refine sound_done ?_
      rw [show post (rs i) .allocateId none = rs i from rfl, Function.update_eq_self]
      exact h
    · refine sound_done (h.quiet rfl rfl (Function.update_eq_self i _) (Function.update_eq_self i _)
        (h.registry.allocate i fun hnext => hexhausted (.inl hnext)) Quiet.allocate)
  | _ => exact always_none

theorem sound_insertPending (h : Invariant c rs) (choice : Choice) {id n : ℕ}
    (hpre : pre (rs i) (.insertPending id n)) :
    Always (Sound rs i (.insertPending id n)) (perform c l (.insertPending id n) choice) := by
  obtain ⟨hid, hn⟩ := hpre
  cases choice with
  | proceed =>
    exact sound_done (h.quiet rfl rfl rfl rfl (h.registry.register hid hn)
      (Quiet.register (h.registry.ids.held_unused i id hid)))
  | _ => exact always_none

theorem sound_newHandle (h : Invariant c rs) (choice : Choice) {stream : Bool} {id n : ℕ}
    (hpre : pre (rs i) (.newHandle stream id n)) :
    Always (Sound rs i (.newHandle stream id n)) (perform c l (.newHandle stream id n) choice) := by
  cases choice with
  | proceed =>
    refine sound_done (h.quiet rfl (Function.update_eq_self i _) (Function.update_eq_self i _) rfl
      ?_ ?_)
    · rw [view_newHandle]
      exact h.registry.giveHandle hpre
    · rw [view_newHandle]
      exact Quiet.giveHandle _
  | _ => exact always_none

theorem sound_readFrame (h : Invariant c rs) (choice : Choice) (hpre : pre (rs i) .readFrame) :
    Always (Sound rs i .readFrame) (perform c l .readFrame choice) := by
  obtain ⟨r, hr, hmissed⟩ := hpre
  obtain rfl := h.reader_eq hr
  have hsame : ∀ result : ReadResult, post (rs 0) .readFrame result = rs 0 →
      Always (Sound rs 0 .readFrame) (done c l result) := by
    intro result hpost
    refine sound_done ?_
    rw [hpost, Function.update_eq_self]
    exact h
  cases choice with
  | read result =>
    cases result with
    | error message => exact hsame (.failed message) rfl
    | ok frame =>
      cases frame with
      | none => exact hsame .closed rfl
      | some frame =>
        have hdelivery := h.delivery
        rw [hr] at hdelivery
        exact sound_done (h.read (h.registry.keep rfl rfl rfl rfl fun _ he => he)
          (hdelivery.read frame hmissed))
  | _ => exact always_none

theorem sound_lookupPending (h : Invariant c rs) (choice : Choice) {a : Arrived} {remove : Bool}
    (hpre : pre (rs i) (.lookupPending a remove)) :
    Always (Sound rs i (.lookupPending a remove)) (perform c l (.lookupPending a remove) choice) := by
  obtain ⟨hr, rfl⟩ := hpre
  obtain rfl := h.reader_eq hr
  have hdelivery := h.delivery
  rw [hr] at hdelivery
  cases choice with
  | proceed =>
    exact sound_done (h.read (h.registry.keep rfl rfl rfl rfl (lookup_pending (view c) a))
      (hdelivery.lookup h.registry))
  | _ => exact always_none

theorem sound_sendChannel (h : Invariant c rs) (choice : Choice) {a : Arrived} {n : ℕ}
    (hpre : pre (rs i) (.sendChannel n (.frame a))) :
    Always (Sound rs i (.sendChannel n (.frame a)))
    (perform c l (.sendChannel n (.frame a)) choice) := by
  obtain rfl := h.reader_eq hpre
  have hdelivery := h.delivery
  rw [show (rs 0).reader = some (.routed a n) from hpre] at hdelivery
  cases choice with
  | proceed =>
    refine always_bind (fun ch => always_ite ?_ (always_ite ?_ always_none)) _
    · exact sound_done (h.read h.registry (hdelivery.settle fun _ => nofun))
    · refine sound_done (h.read ?_ ?_)
      · rw [view_send a n (fun _ => rfl)]
        exact h.registry.keep rfl rfl rfl (List.length_modify ..) fun _ he => he
      · rw [view_send a n (fun _ => rfl)]
        exact hdelivery.push
  | _ => exact always_none

theorem sound_broadcast (h : Invariant c rs) (choice : Choice) {a : Arrived}
    (hpre : pre (rs i) (.broadcast a)) :
    Always (Sound rs i (.broadcast a)) (perform c l (.broadcast a) choice) := by
  obtain ⟨hr, hkind⟩ := hpre
  obtain rfl := h.reader_eq hr
  have hdelivery := h.delivery
  rw [hr] at hdelivery
  cases choice with
  | proceed =>
    exact sound_done (h.read (h.registry.keep rfl rfl rfl rfl fun _ he => he)
      (hdelivery.announce hkind))
  | _ => exact always_none

end Operations

theorem sound_perform (h : Invariant c rs) {l : Locals} {op : Op} (choice : Choice)
    (hpre : pre (rs i) op) : Always (Sound rs i op) (perform c l op choice) := by
  cases op with
  | newChannel => exact sound_newChannel h choice
  | allocateId => exact sound_allocateId h choice
  | insertPending id n => exact sound_insertPending h choice hpre
  | newHandle stream id n => exact sound_newHandle h choice hpre
  | readFrame => exact sound_readFrame h choice hpre
  | lookupPending a remove => exact sound_lookupPending h choice hpre
  | broadcast a => exact sound_broadcast h choice hpre
  | sendChannel n item =>
    cases item with
    | frame a => exact sound_sendChannel h choice hpre
    | failed message => exact sound_plain h choice rfl
  | _ => exact sound_plain h choice rfl

theorem sustains_invariant : Sustains system discipline (fun _ => True) fun c hs =>
    Invariant c (Prod.fst ∘ hs) where
  code := verified_code
  perform := by
    intro _ _ _ _ choice e h hpre he
    rw [Function.comp_update]
    exact sound_perform h choice hpre e he
  ended := by
    intro c _ i h
    rw [Function.comp_update]
    exact (h.keeps (discard_keeps c _)).forget i
  resumed := by
    intro c hs i _ h _
    rw [Function.comp_update, show (hs i).1 = (Prod.fst ∘ hs) i from rfl, Function.update_eq_self]
    exact h.keeps (discard_keeps c _)
  spawned := by
    intro c _ _ _ n hn
    obtain ⟨_, -, haftermath⟩ := discard_aftermath c _ n hn
    exact ready_aftermath haftermath
  external := fun n hn _ => by cases n <;> trivial

def atStart : ℕ → Owned
  | 0 => { Owned.nothing with reader := some .idle }
  | _ + 1 => Owned.nothing

theorem invariant_start (now : ℕ) : Invariant (Connection.start now) atStart where
  registry := by
    refine ⟨Tokens.empty ?_, Tokens.empty ?_, Tokens.empty ?_, nofun⟩ <;>
    · intro i
      cases i <;> rfl
  delivery := by
    refine ⟨?_, nofun, List.nodup_nil, nofun, nofun, ?_, nofun⟩
    · intro n log hlog
      simp [view, Connection.start] at hlog
    · rintro _ ⟨⟩
      trivial
  readers := by
    intro i hi
    cases i with
    | zero => exact absurd rfl hi
    | succ i => rfl

theorem backed_initial (now : ℕ) :
    Backed system discipline (fun c hs => Invariant c (Prod.fst ∘ hs)) (initial now)
    fun i => (atStart i, Locals.none) := by
  refine ⟨?_, ?_, invariant_start now⟩
  · refine ConnectionPrograms.initial_tasks now ⟨rfl, ?_⟩ ⟨rfl, verified_writerLoop _⟩
      ⟨rfl, verified_keepaliveLoop _⟩
    exact verified_readerLoop ⟨.idle, rfl, fun _ => nofun⟩
  · intro i hi
    cases i with
    | zero => exact absurd hi (by simp [initial])
    | succ i => rfl

theorem invariant_run {now : ℕ} {labels : Schedule} {q : Pool Op Ans Name Connection Locals}
    (hrun : runFrom system.step (initial now) labels = some q) : ∃ rs, Invariant q.shared rs := by
  obtain ⟨_, h⟩ := sustains_invariant.run (backed_initial now) (fun _ _ => trivial) hrun
  exact ⟨_, h.invariant⟩

theorem Invariant.handle_registered (h : Invariant c rs) {x : Handle} (hx : x ∈ c.handles) :
    key x ∈ c.registered := h.registry.handles.used_made (key x) (List.mem_map_of_mem hx)

theorem Invariant.handle_ids_nodup (h : Invariant c rs) : (c.handles.map Handle.id).Nodup := by
  have hkeys : c.handles.map Handle.id = (c.handles.map key).map Prod.fst := by
    rw [List.map_map]
    rfl
  rw [hkeys]
  refine List.Nodup.map_on ?_ h.registry.handles.used_nodup
  intro x hx y hy hid
  exact List.inj_on_of_nodup_map h.registry.ids.used_nodup (h.registry.handles.used_made x hx)
    (h.registry.handles.used_made y hy) hid

theorem Invariant.log (h : Invariant c rs) {n : ℕ} {ch : Channel} (hch : c.channels[n]? = some ch) :
    Log (view c) n ch.log := by
  refine h.delivery.logs n ch.log ?_
  simp only [view, List.getElem?_map, hch, Option.map_some]

theorem Invariant.handle_log (h : Invariant c rs) {x : Handle} (hx : x ∈ c.handles) :
    ∃ ch, c.channels[x.channel]? = some ch ∧
      (∀ a ∈ ch.log, a.frame.id = x.id ∧ c.arrived[a.seq]? = some a.frame ∧
        (a, some x.channel) ∈ c.routes) ∧
      ch.log.Pairwise fun a b => a.seq < b.seq ∧ isTerminalResponse a.frame.kind = false := by
  have hregistered := h.handle_registered hx
  have hbound : x.channel < c.channels.length := by
    have := h.registry.channels.used_made x.channel (List.mem_map_of_mem (f := Prod.snd) hregistered)
    rwa [show (view c).logs.length = c.channels.length from List.length_map _] at this
  have hch := List.getElem?_eq_getElem hbound
  refine ⟨_, hch, ?_, (h.log hch).ordered⟩
  intro a ha
  obtain ⟨hid, hroute⟩ := (h.log hch).routed a ha
  have hown := h.registry.id_of_channel hid hregistered rfl
  exact ⟨congrArg Prod.fst hown, h.delivery.arrived _ hroute, hroute⟩

theorem Invariant.missed (h : Invariant c rs) {a : Arrived} (ha : (a, none) ∈ c.routes) :
    ∀ ch ∈ c.channels, ∀ b ∈ ch.log, b.seq ≠ a.seq := by
  intro ch hmem b hb hseq
  obtain ⟨n, hn⟩ := List.mem_iff_getElem?.mp hmem
  have hroute := ((h.log hn).routed b hb).2
  have hsame := List.inj_on_of_nodup_map h.delivery.once hroute ha hseq
  cases congrArg Prod.snd hsame

/-- In every interleaving of calls, timeouts, drops and server frames: no id is registered twice
and no two handles share one; the channel of a handle gets frames with that id only, in the order
in which they were read, and none after the one that ends the response; a frame whose id was not
pending when it was looked up reaches no channel, and is broadcast if it is a batch of events,
unless the reader is just about to. -/
theorem responses_routed {now : ℕ} {labels : Schedule} {q : Pool Op Ans Name Connection Locals}
    (hrun : runFrom system.step (initial now) labels = some q) :
    ((q.shared.registered.map Prod.fst).Nodup ∧ 0 ∉ q.shared.registered.map Prod.fst ∧
      ∀ e ∈ q.shared.pending, e ∈ q.shared.registered) ∧
    ((q.shared.handles.map Handle.id).Nodup ∧ ∀ x ∈ q.shared.handles, ∃ ch,
      q.shared.channels[x.channel]? = some ch ∧
      (∀ a ∈ ch.log, a.frame.id = x.id ∧ q.shared.arrived[a.seq]? = some a.frame ∧
        (a, some x.channel) ∈ q.shared.routes) ∧
      ch.log.Pairwise fun a b => a.seq < b.seq ∧ isTerminalResponse a.frame.kind = false) ∧
    (∀ a, (a, none) ∈ q.shared.routes → (∀ ch ∈ q.shared.channels, ∀ b ∈ ch.log, b.seq ≠ a.seq) ∧
      (a.frame.kind = kindEventBatch → a ∈ q.shared.events ∨ a.seq + 1 = q.shared.arrived.length)) ∧
    ∀ a ∈ q.shared.events, (a, none) ∈ q.shared.routes ∧ a.frame.kind = kindEventBatch := by
  obtain ⟨rs, h⟩ := invariant_run hrun
  refine ⟨⟨h.registry.ids.used_nodup, ?_, h.registry.pending⟩,
    ⟨h.handle_ids_nodup, fun x hx => h.handle_log hx⟩, ?_, h.delivery.events⟩
  · exact fun hzero => Nat.lt_irrefl 0 (h.registry.ids.used_made 0 hzero).1
  · exact fun a ha => ⟨h.missed ha, h.delivery.latest a ha⟩

def answer : Frame := ⟨kindResult, 0, 200, 1, zeroNonce, 0, []⟩

def sampleLabels : Schedule :=
  [.start (.begin 3 1 zeroNonce 0 []), .step 3 (.clock 0), .step 3 .proceed, .step 3 .proceed,
    .step 3 .proceed, .step 3 (.clock 0), .step 3 .proceed, .step 3 .proceed, .step 3 .proceed,
    .step 3 .proceed, .step 3 .proceed,
    .step 0 (.read (.ok (some answer))), .step 0 .proceed, .step 0 .proceed, .step 0 .proceed,
    .step 0 .proceed,
    .step 0 (.read (.ok (some answer))), .step 0 .proceed, .step 0 .proceed]

theorem responses_routed_sample : ∃ q : Pool Op Ans Name Connection Locals,
    runFrom system.step (initial 0) sampleLabels = some q ∧
    q.shared.registered = [(1, 0)] ∧ q.shared.routes = [(⟨0, answer⟩, some 0), (⟨1, answer⟩, none)] ∧
    q.shared.channels.map Channel.log = [[⟨0, answer⟩]] ∧
    (q.shared.handles.map Handle.id).Nodup ∧ ∀ ch ∈ q.shared.channels, ∀ b ∈ ch.log, b.seq ≠ 1 := by
  have hsome : (runFrom system.step (initial 0) sampleLabels).isSome = true := by decide +kernel
  obtain ⟨q, hq⟩ := Option.isSome_iff_exists.mp hsome
  have hresult : ((runFrom system.step (initial 0) sampleLabels).map fun q =>
      (q.shared.registered, q.shared.routes, q.shared.channels.map Channel.log)) =
        some ([(1, 0)], [(⟨0, answer⟩, some 0), (⟨1, answer⟩, none)], [[⟨0, answer⟩]]) := by
          decide +kernel
  rw [hq] at hresult
  obtain ⟨hregistered, hroutes, hlogs⟩ : q.shared.registered = [(1, 0)] ∧
      q.shared.routes = [(⟨0, answer⟩, some 0), (⟨1, answer⟩, none)] ∧
      q.shared.channels.map Channel.log = [[⟨0, answer⟩]] := by simpa using hresult
  have h := responses_routed hq
  refine ⟨q, hq, hregistered, hroutes, hlogs, h.2.1.1, (h.2.2.1 ⟨1, answer⟩ ?_).1⟩
  rw [hroutes]
  exact List.mem_cons_of_mem _ List.mem_cons_self

end Mst5Client.ResponseRouting
