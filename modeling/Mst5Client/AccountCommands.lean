import Mst5Client.AccountTokens

set_option autoImplicit false

/-!
# What the frames of one call carry

A call keeps its request with a nonce through all its attempts, so that a COMMAND that is sent again
can be recognised by the server.
-/
namespace Mst5Client.AccountCommands
open ByteOrder IoResult AccountClient AccountClosing AccountMoves AccountTokens MachineRuns

def zeroNonce : Block 16 := blockOf 16 []

def pcOf (w : World) (i : ℕ) : Option Pc := (w.calls[i]?).map Call.pc

/-- The call that goes on in a move, and the wall clock it sees. -/
def turn (w : World) (m : Move) : Option (ℕ × ℕ) :=
  ((requests m).map fun p => (w.calls.length, p.2.unixMs)).or ((resumes m).map
    fun p => (p.1, p.2.2.unixMs))

/-- Call `i` has come to `pc` in a turn of its own, at this time of the wall clock, and has been
there since. -/
def Began (w₀ : World) (moves : List Move) (i : ℕ) (pc : Pc) (now : ℕ) : Prop :=
  ∃ before m since, moves = before ++ m :: since ∧
    (∃ s, runFrom move (opened w₀) before = some s ∧ turn s.world m = some (i, now) ∧
      pcOf s.world i ≠ some pc) ∧
    ∀ part, part <+: since → ∃ t, runFrom move (opened w₀) (before ++ m :: part) = some t ∧
      pcOf t.world i = some pc

/-- The frame was queued in the attempt that its call had begun at this time. -/
def Queued (w₀ : World) (moves : List Move) (f : Outgoing) (now : ℕ) : Prop :=
  ∃ before a since generation conn,
    moves = before ++ .other (.other (.resume f.call .enqueued a)) :: since ∧
    Began w₀ before f.call (.requesting generation conn f.nonce f.deadlineMs false) now

variable {r : Request}

def deadlineAt (readTimeout : ℕ) (r : Request) (now : ℕ) : ℕ :=
  r.options.deadlineMs.getD (min (now + readTimeout) (2 ^ 64 - 1))

def NonceFits (r : Request) (nonce : Block 16) : Prop :=
  r.frameKind = kindCommand ∧ r.options.requestNonce = some nonce ∧ nonce ≠ zeroNonce ∨
    r.frameKind = kindQuery ∧ nonce = zeroNonce

/-- The frame is one of the request that call `i` keeps. -/
structure Stems (r : Request) (f : Outgoing) : Prop where
  kind : f.kind = r.frameKind
  opcode : f.opcode = r.opcode
  payload : f.payload = r.payload
  nonce : NonceFits r f.nonce

theorem prepare_fits {w : World} {call : Call} {a : Ambient} {conn deadlineMs : ℕ}
    {nonce : Block 16} (h : w.prepare call a conn = .ok (nonce, deadlineMs))
    (hdrawn : Drawn call.request) :
    NonceFits call.request nonce ∧
      deadlineMs = deadlineAt w.config.readTimeout call.request a.unixMs := by
  unfold World.prepare at h
  dsimp only at h
  by_cases hprincipal : ¬ (w.conns[conn]?).any Conn.principal = true
  · rw [if_pos hprincipal] at h
    cases h
  by_cases hkind : call.request.frameKind ≠ kindQuery ∧ call.request.frameKind ≠ kindCommand
  · rw [if_neg hprincipal, if_pos hkind] at h
    cases h
  rw [if_neg hprincipal, if_neg hkind] at h
  obtain ⟨value, hvalue, hrest⟩ := bind_eq_ok h
  split_ifs at hrest
  cases hrest
  refine ⟨?_, rfl⟩
  by_cases hcommand : call.request.frameKind = kindCommand
  · obtain ⟨given, hnonce⟩ := hdrawn hcommand
    simp only [if_pos hcommand, hnonce] at hvalue
    split_ifs at hvalue with hzero
    cases hvalue
    exact .inl ⟨hcommand, hnonce, hzero⟩
  · rw [if_neg hcommand] at hvalue
    split_ifs at hvalue
    cases hvalue
    refine .inr ⟨?_, rfl⟩
    by_contra hquery
    exact hkind ⟨hquery, hcommand⟩

variable {readTimeout : ℕ} {skip : ℕ → Prop} {w v : World} {i : ℕ} {call : Call} {a : Ambient}

/-- What is known of the past: when the attempt that a call makes was begun, and the one a frame is
from. -/
structure Past where
  begun : ℕ → Pc → ℕ → Prop
  queued : Outgoing → ℕ → Prop

variable {H H' : Past}

def PcFits (readTimeout : ℕ) (begun : Pc → ℕ → Prop) (r : Request) : Pc → Prop
  | .closing => False
  | .returned _ | .dropped => True
  | .requesting generation conn nonce deadlineMs enqueued => Drawn r ∧ NonceFits r nonce ∧
    (enqueued = false →
      ∃ now, begun (.requesting generation conn nonce deadlineMs false) now ∧
        deadlineMs = deadlineAt readTimeout r now)
  | _ => Drawn r

def asked (w : World) : List Request := w.calls.map Call.request

/-- Every call but those of `skip` is at a place that fits its request, and so is every frame. -/
structure Framed (readTimeout : ℕ) (H : Past) (skip : ℕ → Prop) (w : World) : Prop where
  config : w.config.readTimeout = readTimeout
  calls : EachCall (fun j c => ¬ skip j → PcFits readTimeout (H.begun j) c.request c.pc) w
  frames : ∀ f ∈ w.queued ++ w.sent, ∃ r, (asked w)[f.call]? = some r ∧ Stems r f ∧
    ∃ now, H.queued f now ∧ f.deadlineMs = deadlineAt readTimeout r now

theorem PcFits.imp {begun begun' : Pc → ℕ → Prop} {r : Request} {pc : Pc}
    (h : PcFits readTimeout begun r pc) (himp : ∀ now, begun pc now → begun' pc now) :
    PcFits readTimeout begun' r pc := by
  cases pc with
  | requesting generation conn nonce deadlineMs enqueued =>
    refine ⟨h.1, h.2.1, ?_⟩
    rintro rfl
    obtain ⟨now, hbegun, hdeadline⟩ := h.2.2 rfl
    exact ⟨now, himp now hbegun, hdeadline⟩
  | _ => exact h

theorem Framed.imp (h : Framed readTimeout H skip w)
    (hbegun : ∀ j c, w.calls[j]? = some c → ∀ now, H.begun j c.pc now → H'.begun j c.pc now)
    (hqueued : ∀ f now, H.queued f now → H'.queued f now) : Framed readTimeout H' skip w := by
  refine ⟨h.config, h.calls.imp fun j c hc hfits hj => (hfits hj).imp (hbegun j c hc), ?_⟩
  intro f hf
  obtain ⟨r, hr, hstems, now, hnow, hdeadline⟩ := h.frames f hf
  exact ⟨r, hr, hstems, now, hqueued f now hnow, hdeadline⟩

/-- What is known after a move: the call whose turn it was may have begun an attempt, or queued its
frame. -/
def Past.after (H : Past) (w : World) (m : Move) : Past where
  begun i pc now := H.begun i pc now ∨ turn w m = some (i, now) ∧ pcOf w i ≠ some pc
  queued f now := H.queued f now ∨ (∃ a, m = .other (.other (.resume f.call .enqueued a))) ∧
    ∃ generation conn, H.begun f.call (.requesting generation conn f.nonce f.deadlineMs false) now

theorem Framed.after (h : Framed readTimeout H skip w) (m : Move) :
    Framed readTimeout (H.after w m) skip w :=
  h.imp (fun _ _ _ _ => .inl) fun _ _ => .inl

theorem update_asked {f : Call → Call} (hf : ∀ c, (f c).request = c.request) :
    asked (w.update i f) = asked w := by
  unfold asked World.update
  apply List.ext_getElem?
  intro j
  rw [List.getElem?_map, List.getElem?_map, List.getElem?_modify]
  cases w.calls[j]? with
  | none => rfl
  | some c =>
    by_cases hij : i = j
    · simp [hij, hf]
    · simp [hij]

theorem Framed.update (h : Framed readTimeout H (· = i) w) {f : Call → Call}
    (hf : ∀ c, (f c).request = c.request)
    (hpc : ∀ c, w.calls[i]? = some c → PcFits readTimeout (H.begun i) c.request (f c).pc) :
    Framed readTimeout H nobody (w.update i f) := by
  refine ⟨h.config, EachCall.update (h.calls.imp fun j c _ hc hj _ => hc hj) ?_, ?_⟩
  · intro c hc _
    rw [hf]
    exact hpc c hc
  · rw [update_asked hf]
    exact h.frames

theorem Framed.setPc {pc : Pc} (h : Framed readTimeout H (· = i) w)
    (hpc : ∀ c, w.calls[i]? = some c → PcFits readTimeout (H.begun i) c.request pc) :
    Framed readTimeout H nobody (w.setPc i pc) :=
  h.update (fun _ => rfl) hpc

theorem Framed.congr (h : Framed readTimeout H skip w) (hconfig : v.config = w.config)
    (hcalls : v.calls = w.calls) (hframes : ∀ f ∈ v.queued ++ v.sent, f ∈ w.queued ++ w.sent) :
    Framed readTimeout H skip v := by
  refine ⟨hconfig ▸ h.config, ?_, ?_⟩
  · rw [EachCall, hcalls]
    exact h.calls
  · intro f hf
    rw [asked, hcalls]
    exact h.frames f (hframes f hf)

theorem Framed.skipping (h : Framed readTimeout H nobody w) : Framed readTimeout H (· = i) w :=
  ⟨h.config, h.calls.imp fun _ _ _ hc _ => hc id, h.frames⟩

theorem Framed.told {u : World} (h : Framed readTimeout H skip w) (hu : Told w u) :
    Framed readTimeout H skip u := by
  cases hu with
  | nothing => exact h
  | event he => exact h.congr rfl rfl fun f hf => hf

theorem parked_fits {begun : Pc → ℕ → Prop} {r : Request} {pc : Pc} (hpc : parked pc = true)
    (hr : Drawn r) : PcFits readTimeout begun r pc := by
  cases pc <;> first | exact hr | trivial

def DrawnAt (w : World) (i : ℕ) : Prop := ∀ c, w.calls[i]? = some c → Drawn c.request

theorem drawnAt (hcall : w.calls[i]? = some call) (hdrawn : Drawn call.request) : DrawnAt w i :=
  fun _ hc => Option.some.inj (hcall.symm.trans hc) ▸ hdrawn

theorem Framed.ends {generation : Option ℕ} (h : Framed readTimeout H (· = i) w)
    (hends : Ends w i generation v) (hi : DrawnAt w i) : Framed readTimeout H nobody v := by
  cases hends with
  | parks hu hf =>
    cases hu with
    | nothing => exact h.update (fun c => (hf c).1) fun c hc => parked_fits (hf c).2 (hi c hc)
    | event he =>
      exact (h.told (.event he)).update (fun c => (hf c).1) fun c hc => parked_fits (hf c).2 (hi c hc)
  | invalidates hcurrent =>
    refine Framed.setPc ?_ hi
    exact h.congr rfl rfl fun f hf => hf

theorem Framed.begins (h : Framed readTimeout H (· = i) w) (hbegins : Begins w i call a v)
    (hcall : w.calls[i]? = some call) (hdrawn : Drawn call.request)
    (ha : ∀ generation conn nonce deadlineMs,
      H.begun i (.requesting generation conn nonce deadlineMs false) a.unixMs) :
    Framed readTimeout H nobody v := by
  have hi := drawnAt hcall hdrawn
  cases hbegins with
  | asks hcurrent hprepare =>
    refine h.setPc ?_
    intro c hc
    obtain rfl := Option.some.inj (hcall.symm.trans hc)
    obtain ⟨hnonce, hdeadline⟩ := prepare_fits hprepare hdrawn
    exact ⟨hdrawn, hnonce, fun _ => ⟨_, ha _ _ _ _, h.config ▸ hdeadline⟩⟩
  | fails hcurrent hends => exact h.ends hends hi

theorem Framed.enters (h : Framed readTimeout H (· = i) w) (henters : Enters w i call a v)
    (hcall : w.calls[i]? = some call) (hdrawn : Drawn call.request)
    (ha : ∀ generation conn nonce deadlineMs,
      H.begun i (.requesting generation conn nonce deadlineMs false) a.unixMs) :
    Framed readTimeout H nobody v := by
  have hi := drawnAt hcall hdrawn
  cases henters with
  | ends hends => exact h.ends hends hi
  | begins hopen hbegins => exact h.begins hbegins hcall hdrawn ha
  | locks hopen => exact h.setPc hi

theorem Framed.leaves (h : Framed readTimeout H nobody w) (hcall : w.calls[i]? = some call)
    (hleaves : Leaves w i call v) : Framed readTimeout H nobody v := by
  have hfits := h.calls i call hcall id
  cases hleaves with
  | idle hpc hends =>
    refine h.skipping.ends hends (drawnAt hcall ?_)
    generalize call.pc = pc at hpc hfits
    cases pc with
    | requesting generation conn nonce deadlineMs enqueued => exact hfits.1
    | closing => exact hfits.elim
    | locking => exact hfits
    | invalidating error => exact hfits
    | sleeping => exact hfits
    | connecting => cases hpc
    | authenticating conn => cases hpc
    | returned result => cases hpc
    | dropped => cases hpc
  | connecting hpc hends =>
    have hunlocked : Framed readTimeout H (· = i) w.unlock := h.skipping.congr rfl rfl fun f hf => hf
    refine hunlocked.ends hends (drawnAt hcall ?_)
    generalize call.pc = pc at hpc hfits
    cases pc <;> first | exact hfits | cases hpc

theorem Framed.resumed {outcome : Outcome} (h : Framed readTimeout H nobody w)
    (hcall : w.calls[i]? = some call) (hresumed : Resumed w i call a outcome v) :
    Framed readTimeout (H.after w (.other (.other (.resume i outcome a)))) nobody v := by
  have hfits := h.calls i call hcall id
  have hafter := h.after (.other (.other (.resume i outcome a)))
  have ha (hpc : ∀ generation conn nonce deadlineMs,
    call.pc ≠ .requesting generation conn nonce deadlineMs false) :
      ∀ generation conn nonce deadlineMs, (H.after w (.other (.other (.resume i outcome a)))).begun i
        (.requesting generation conn nonce deadlineMs false) a.unixMs := by
    intro generation conn nonce deadlineMs
    refine .inr ⟨rfl, ?_⟩
    rw [pcOf, hcall]
    exact fun heq => hpc _ _ _ _ (Option.some.inj heq)
  cases hresumed with
  | entered hpc =>
    rw [hpc] at hfits
    exact hfits.elim
  | found hpc hbegins =>
    rw [hpc] at hfits ha
    exact hafter.skipping.begins hbegins hcall hfits (ha nofun)
  | locked hpc hfree hdead =>
    rw [hpc] at hfits
    refine Framed.setPc ?_ (drawnAt hcall hfits)
    exact hafter.skipping.congr rfl rfl fun f hf => hf
  | connected hpc =>
    rw [hpc] at hfits
    refine Framed.setPc ?_ (drawnAt hcall hfits)
    exact hafter.skipping.congr rfl rfl fun f hf => hf
  | published hpc hbegins =>
    rw [hpc] at hfits ha
    refine Framed.begins ?_ hbegins hcall hfits (ha nofun)
    exact hafter.skipping.congr rfl rfl fun f hf => hf
  | enqueued hpc =>
    rw [hpc] at hfits
    obtain ⟨hdrawn, hnonce, hbegun⟩ := hfits
    obtain ⟨now, hnow, hdeadline⟩ := hbegun rfl
    refine Framed.setPc ⟨h.config, hafter.skipping.calls, ?_⟩ ?_
    · intro f hf
      simp only [List.append_assoc, List.mem_append, List.mem_singleton] at hf
      rcases hf with hf | rfl | hf
      · exact hafter.frames f (List.mem_append_left _ hf)
      · refine ⟨call.request, ?_, ⟨rfl, rfl, rfl, hnonce⟩, now, .inr ⟨⟨a, rfl⟩, _, _, hnow⟩, hdeadline⟩
        rw [asked, frameOf, List.getElem?_map, hcall]
        rfl
      · exact hafter.frames f (List.mem_append_right _ hf)
    · intro c hc
      obtain rfl := Option.some.inj (hcall.symm.trans hc)
      exact ⟨hdrawn, hnonce, nofun⟩
  | looped hpc henters =>
    rw [hpc] at hfits ha
    exact hafter.skipping.enters henters hcall hfits (ha nofun)
  | leaves houtcome hleaves => exact hafter.leaves hcall hleaves

theorem Framed.spawn (h : Framed readTimeout H nobody w)
    (hcall : ¬ skip w.calls.length → PcFits readTimeout (H.begun w.calls.length) call.request call.pc) :
    Framed readTimeout H skip (w.spawn call) := by
  refine ⟨h.config, EachCall.spawn (h.calls.imp fun _ _ _ hc _ => hc id) hcall, ?_⟩
  intro f hf
  obtain ⟨r, hr, hrest⟩ := h.frames f hf
  refine ⟨r, ?_, hrest⟩
  rw [asked, World.spawn, List.map_append]
  exact getElem?_concat_of_some hr call.request

theorem Framed.requested {request : Request} (h : Framed readTimeout H nobody w)
    (hrequested : Requested w request a v) :
    Framed readTimeout (H.after w (.other (.request request a))) nobody v := by
  have hafter := h.after (.other (.request request a))
  cases hrequested with
  | failed => exact hafter.spawn fun _ => trivial
  | entered hkeeps hdrawn henters =>
    refine Framed.enters ?_ henters (spawn_getElem? w _) hdrawn fun _ _ _ _ => .inr ⟨rfl, ?_⟩
    · exact hafter.spawn fun hskip => absurd rfl hskip
    · rw [pcOf, List.getElem?_eq_none (Nat.le_refl _)]
      exact nofun

theorem Framed.withdrawn (h : Framed readTimeout H skip w) :
    Framed readTimeout H skip (withdrawn w) := by
  unfold AccountMoves.withdrawn
  split
  · exact h.congr rfl rfl fun f hf => hf
  · exact h.congr rfl rfl fun f hf => hf

theorem Framed.quietly (h : Framed readTimeout H nobody w) (hquietly : Quietly w v) :
    Framed readTimeout H nobody v := by
  cases hquietly with
  | idle => exact h
  | credentials credentials => exact h.congr rfl rfl fun f hf => hf
  | dropped hcall hleaves => exact h.leaves hcall hleaves
  | written hframe => exact h.congr rfl rfl (mem_of_written hframe)
  | lost conn => exact h.congr rfl rfl fun f hf => hf
  | taken hu => exact (h.told hu).withdrawn
  | flagged => exact h.congr rfl rfl fun f hf => hf

theorem told_asked {u : World} (hu : Told w u) : asked u = asked w := by
  cases hu with
  | nothing => rfl
  | event he => rfl

theorem ends_asked {generation : Option ℕ} (h : Ends w i generation v) : asked v = asked w := by
  cases h with
  | parks hu hf => exact (update_asked fun c => (hf c).1).trans (told_asked hu)
  | invalidates hcurrent => exact update_asked fun _ => rfl

theorem begins_asked (h : Begins w i call a v) : asked v = asked w := by
  cases h with
  | asks hcurrent hprepare => exact update_asked fun _ => rfl
  | fails hcurrent hends => exact ends_asked hends

theorem enters_asked (h : Enters w i call a v) : asked v = asked w := by
  cases h with
  | ends hends => exact ends_asked hends
  | begins hopen hbegins => exact begins_asked hbegins
  | locks hopen => exact update_asked fun _ => rfl

theorem leaves_asked (h : Leaves w i call v) : asked v = asked w := by
  cases h with
  | idle hpc hends => exact ends_asked hends
  | connecting hpc hends => exact (ends_asked hends).trans rfl

theorem resumed_asked {outcome : Outcome} (h : Resumed w i call a outcome v)
    (hpc : call.pc ≠ .closing) : asked v = asked w := by
  cases h with
  | entered hclosing => exact absurd hclosing hpc
  | found hlocking hbegins => exact begins_asked hbegins
  | locked hlocking hfree hdead => exact update_asked fun _ => rfl
  | connected hconnecting => exact update_asked fun _ => rfl
  | published hauthenticating hbegins => exact (begins_asked hbegins).trans rfl
  | enqueued hrequesting => exact update_asked fun _ => rfl
  | looped hsleeping henters => exact enters_asked henters
  | leaves houtcome hleaves => exact leaves_asked hleaves

theorem withdrawn_asked : asked (withdrawn w) = asked w := by
  unfold withdrawn
  split
  · rfl
  · rfl

theorem quietly_asked (h : Quietly w v) : asked v = asked w := by
  cases h with
  | dropped hcall hleaves => exact leaves_asked hleaves
  | taken hu => exact withdrawn_asked.trans (told_asked hu)
  | _ => rfl

theorem spawn_asked : asked (w.spawn call) = asked w ++ [call.request] := List.map_append

theorem requested_asked {request : Request} (h : Requested w request a v) :
    ∃ r, asked v = asked w ++ [r] ∧ Keeps request r := by
  cases h with
  | failed => exact ⟨request, spawn_asked, rfl, rfl, rfl, rfl, fun _ hnonce => hnonce⟩
  | entered hkeeps hdrawn henters => exact ⟨_, (enters_asked henters).trans spawn_asked, hkeeps⟩

variable {s t : Closable} {m : Move}
variable {w₀ : World} {moves : List Move}

def supplied (moves : List Move) : List Request :=
  moves.filterMap fun m => (requests m).map Prod.fst

theorem Framed.change (h : Framed readTimeout H nobody s.world) (hchange : Change s.world m t.world) :
    Framed readTimeout (H.after s.world m) nobody t.world := by
  cases hchange with
  | requested hm hrequested =>
    subst hm
    exact h.requested hrequested
  | resumed hm hcall hresumed =>
    subst hm
    exact h.resumed hcall hresumed
  | quietly hrequests hresumes hquietly => exact (h.after m).quietly hquietly

theorem keeps_move {given : List Request} (h : List.Forall₂ Keeps given (asked s.world))
    (hframed : Framed readTimeout H nobody s.world) (hchange : Change s.world m t.world) :
    List.Forall₂ Keeps (given ++ supplied [m]) (asked t.world) := by
  cases hchange with
  | requested hm hrequested =>
    subst hm
    obtain ⟨r, hr, hkeeps⟩ := requested_asked hrequested
    rw [hr]
    exact List.rel_append h (.cons hkeeps .nil)
  | resumed hm hcall hresumed =>
    subst hm
    have hpc := hframed.calls _ _ hcall id
    rw [resumed_asked hresumed fun hclosing => (by rw [hclosing] at hpc; exact hpc)]
    exact (List.append_nil given).symm ▸ h
  | quietly hrequests hresumes hquietly =>
    have hnone : supplied [m] = [] := by
      simp only [supplied, List.filterMap_cons, hrequests, Option.map_none, List.filterMap_nil]
    rw [hnone, List.append_nil, quietly_asked hquietly]
    exact h

theorem new_framed {config : AccountConfig} {w : World} (h : AccountClient.new config = .ok w) :
    Framed config.readTimeout H nobody w ∧ asked w = [] := by
  unfold AccountClient.new at h
  split_ifs at h
  cases h
  exact ⟨⟨rfl, fun _ _ hcall => (by cases hcall), fun _ hf => (by cases hf)⟩, rfl⟩

def pastOf (w₀ : World) (moves : List Move) : Past := ⟨Began w₀ moves, Queued w₀ moves⟩

theorem Began.extend {i now : ℕ} {pc : Pc} (h : Began w₀ moves i pc now)
    (hrun : runFrom move (opened w₀) (moves ++ [m]) = some t) (hpc : pcOf t.world i = some pc) :
    Began w₀ (moves ++ [m]) i pc now := by
  obtain ⟨before, first, since, rfl, hfirst, hsince⟩ := h
  refine ⟨before, first, since ++ [m], by simp, hfirst, ?_⟩
  intro part hpart
  rcases List.prefix_concat_iff.mp hpart with rfl | hpart
  · exact ⟨t, by simpa using hrun, hpc⟩
  · exact hsince part hpart

theorem Framed.past (hbefore : runFrom move (opened w₀) moves = some s)
    (hrun : runFrom move (opened w₀) (moves ++ [m]) = some t)
    (h : Framed readTimeout ((pastOf w₀ moves).after s.world m) nobody t.world) :
    Framed readTimeout (pastOf w₀ (moves ++ [m])) nobody t.world := by
  refine h.imp ?_ ?_
  · intro j c hc now hbegun
    have hpc : pcOf t.world j = some c.pc := by
      rw [pcOf, hc]
      rfl
    rcases hbegun with hbegan | ⟨hturn, hnew⟩
    · exact hbegan.extend hrun hpc
    · refine ⟨moves, m, [], rfl, ⟨s, hbefore, hturn, hnew⟩, ?_⟩
      intro part hpart
      rw [List.prefix_nil.mp hpart]
      exact ⟨t, hrun, hpc⟩
  · rintro f now (⟨before, a, since, generation, conn, rfl, hbegan⟩ | ⟨⟨a, rfl⟩, generation, conn,
      hbegan⟩)
    · exact ⟨before, a, since ++ [m], generation, conn, by simp, hbegan⟩
    · exact ⟨moves, a, [], generation, conn, rfl, hbegan⟩

theorem run_framed {config : AccountConfig} (hnew : AccountClient.new config = .ok w₀)
    (hrun : runFrom move (opened w₀) moves = some s) :
    Framed config.readTimeout (pastOf w₀ moves) nobody s.world ∧
      List.Forall₂ Keeps (supplied moves) (asked s.world) := by
  obtain ⟨hframed, hasked⟩ := new_framed (H := pastOf w₀ []) hnew
  refine (runFrom_history (I := fun before s => runFrom move (opened w₀) before = some s ∧
    Framed config.readTimeout (pastOf w₀ before) nobody s.world ∧
      List.Forall₂ Keeps (supplied before) (asked s.world)) ?_ ⟨rfl, hframed, ?_⟩ hrun).2
  · rintro before s m t ⟨hbefore, hframed, hkeeps⟩ hstep
    have hchange := move_change hstep
    have hnext : runFrom move (opened w₀) (before ++ [m]) = some t := by
      rw [runFrom_append, hbefore]
      exact congrArg (Option.bind · some) hstep
    refine ⟨hnext, (hframed.change hchange).past hbefore hnext, ?_⟩
    rw [supplied, List.filterMap_append]
    exact keeps_move hkeeps hframed hchange
  · rw [show asked (opened w₀).world = [] from hasked]
    exact .nil

def key (f : Outgoing) : Block 16 × ℕ × Bytes := (f.nonce, f.opcode, f.payload)

def executed (i : ℕ) (sent : List Outgoing) : List (Block 16 × ℕ × Bytes) :=
  ((sent.filter fun f => f.call = i ∧ f.kind = kindCommand).map key).dedup

theorem executed_length {i : ℕ} {sent : List Outgoing}
    (h : ∀ f ∈ sent, ∀ g ∈ sent, f.call = g.call → f.kind = kindCommand → g.kind = kindCommand →
      key f = key g) : (executed i sent).length ≤ 1 := by
  have hsame : ∀ x ∈ executed i sent, ∀ y ∈ executed i sent, x = y := by
    intro x hx y hy
    obtain ⟨f, hf, rfl⟩ := List.mem_map.mp (List.mem_dedup.mp hx)
    obtain ⟨g, hg, rfl⟩ := List.mem_map.mp (List.mem_dedup.mp hy)
    obtain ⟨hf, hfi⟩ := List.mem_filter.mp hf
    obtain ⟨hg, hgi⟩ := List.mem_filter.mp hg
    have hfi := of_decide_eq_true hfi
    have hgi := of_decide_eq_true hgi
    exact h f hf g hg (hfi.1.trans hgi.1.symm) hfi.2 hgi.2
  have hnodup : (executed i sent).Nodup := List.nodup_dedup _
  cases hlist : executed i sent with
  | nil => exact Nat.zero_le 1
  | cons x rest =>
    cases rest with
    | nil => exact Nat.le_refl 1
    | cons y rest =>
      rw [hlist] at hsame hnodup
      have heq := hsame x List.mem_cons_self y (List.mem_cons_of_mem _ List.mem_cons_self)
      exact absurd (heq ▸ List.mem_cons_self) (List.nodup_cons.mp hnodup).1

theorem Framed.key_eq {readTimeout : ℕ} {H : Past} {w : World} (h : Framed readTimeout H nobody w)
    {f g : Outgoing} (hf : f ∈ w.sent) (hg : g ∈ w.sent) (hcall : f.call = g.call)
    (hkind : f.kind = kindCommand) (hkind' : g.kind = kindCommand) : key f = key g := by
  obtain ⟨r, hr, hstems, -⟩ := h.frames f (List.mem_append_right _ hf)
  obtain ⟨r', hr', hstems', -⟩ := h.frames g (List.mem_append_right _ hg)
  rw [hcall, hr'] at hr
  obtain rfl := Option.some.inj hr
  have hquery : kindCommand ≠ kindQuery := by decide
  have hnonce : f.nonce = g.nonce := by
    rcases hstems.nonce with ⟨-, hgiven, -⟩ | ⟨hbad, -⟩
    · rcases hstems'.nonce with ⟨-, hgiven', -⟩ | ⟨hbad, -⟩
      · exact Option.some.inj (hgiven.symm.trans hgiven')
      · exact absurd (hkind'.symm.trans (hstems'.kind.trans hbad)) hquery
    · exact absurd (hkind.symm.trans (hstems.kind.trans hbad)) hquery
  rw [key, key, hnonce, hstems.opcode, hstems'.opcode, hstems.payload, hstems'.payload]

def attempts : List Move :=
  let clock (ms : ℕ) : Ambient := ⟨ms, ms, .ok zeroNonce, none⟩
  let go (outcome : Outcome) (ms : ℕ) : Move := .other (.other (.resume 0 outcome (clock ms)))
  [.other (.request ⟨"", kindCommand, 7, [1], ⟨none, none⟩⟩ (clock 1000)), go .acquired 1000,
    go .connected 1000, go .authenticated 1000, go .enqueued 1000, .other (.other (.write 0)),
    go (.failed ⟨.connectionReset, "MST5 server closed the connection"⟩) 5000, go .finished 5000,
    go .finished 5000,
    go .acquired 5000, go .connected 5000, go .authenticated 5000, go .enqueued 5000,
    .other (.other (.write 0))]

end Mst5Client.AccountCommands
