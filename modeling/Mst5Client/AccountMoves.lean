import Mst5Client.AccountClosing

set_option autoImplicit false

/-!
# What one step does to an account

The steps of the account machine, told once by what they change: an attempt ends, a request is made
on the current connection, the connect lock changes hands, a connection is published or taken away.
-/
namespace Mst5Client.AccountMoves
open ByteOrder IoResult AccountClient AccountTasks AccountClosing

def parked : Pc → Bool
  | .sleeping | .returned _ | .dropped => true
  | _ => false

def roams : Pc → Bool
  | .connecting | .authenticating _ | .returned _ | .dropped => false
  | _ => true

def connects : Pc → Bool
  | .connecting | .authenticating _ => true
  | _ => false

def announces : AccountEvent → Option ℕ
  | .connected generation => some generation
  | _ => none

/-- The world but for an event that announces no connection. -/
inductive Told (w : World) : World → Prop
  | nothing : Told w w
  | event {e : AccountEvent} (he : announces e = none) : Told w (w.emit e)

/-- The end of an attempt, with the generation that it invalidates. -/
inductive Ends (w : World) (i : ℕ) : Option ℕ → World → Prop
  | parks {generation : Option ℕ} {u : World} {f : Call → Call} (hu : Told w u)
      (hf : ∀ c, (f c).request = c.request ∧ parked (f c).pc = true) :
      Ends w i generation (u.update i f)
  | invalidates {generation conn : ℕ} {error : IoError}
      (hcurrent : w.current = some (generation, conn)) :
      Ends w i (some generation)
      ((World.closeConn { w with current := none } conn).setPc i (.invalidating error))

inductive Begins (w : World) (i : ℕ) (call : Call) (a : Ambient) : World → Prop
  | asks {generation conn deadlineMs : ℕ} {nonce : Block 16}
      (hcurrent : w.current = some (generation, conn))
      (hprepare : w.prepare call a conn = .ok (nonce, deadlineMs)) :
      Begins w i call a (w.setPc i (.requesting generation conn nonce deadlineMs false))
  | fails {generation conn : ℕ} {v : World} (hcurrent : w.current = some (generation, conn))
      (h : Ends w i (some generation) v) : Begins w i call a v

/-- The head of the loop. -/
inductive Enters (w : World) (i : ℕ) (call : Call) (a : Ambient) : World → Prop
  | ends {v : World} (h : Ends w i none v) : Enters w i call a v
  | begins {v : World} (hopen : w.closed = false) (h : Begins w i call a v) : Enters w i call a v
  | locks (hopen : w.closed = false) : Enters w i call a (w.setPc i .locking)

inductive Leaves (w : World) (i : ℕ) (call : Call) : World → Prop
  | idle {generation : Option ℕ} {v : World} (hpc : roams call.pc = true) (h : Ends w i generation v) :
      Leaves w i call v
  | connecting {v : World} (hpc : connects call.pc = true) (h : Ends w.unlock i none v) :
      Leaves w i call v

def published (w : World) (conn : ℕ) : World :=
  let generation := (w.generation + 1) % 2 ^ 32
  World.emit { w with
    conns := w.conns.modify conn fun c => { c with principal := true }
    generation
    current := some (generation, conn)
    connectLock := none } (.connected generation)

def withdrawn (w : World) : World :=
  match w.current with
  | some (_, conn) => World.closeConn { w with current := none } conn
  | none => { w with current := none }

def frameOf (i : ℕ) (r : Request) (conn : ℕ) (nonce : Block 16) (deadlineMs : ℕ) : Outgoing :=
  ⟨i, conn, r.frameKind, r.opcode, nonce, deadlineMs, r.payload⟩

inductive Resumed (w : World) (i : ℕ) (call : Call) (a : Ambient) : Outcome → World → Prop
  | entered (hpc : call.pc = .closing) : Resumed w i call a .finished (w.enterRequest i call a)
  | found {v : World} (hpc : call.pc = .locking) (h : Begins w i call a v) :
      Resumed w i call a .acquired v
  | locked (hpc : call.pc = .locking) (hfree : w.connectLock = none)
      (hdead : ∀ generation conn, w.current = some (generation, conn) → w.openConn conn = false) :
      Resumed w i call a .acquired ((w.lock i).setPc i .connecting)
  | connected (hpc : call.pc = .connecting) : Resumed w i call a .connected (w.connectOk i)
  | published {conn : ℕ} {v : World} (hpc : call.pc = .authenticating conn)
      (h : Begins (published w conn) i call a v) : Resumed w i call a .authenticated v
  | enqueued {generation conn deadlineMs : ℕ} {nonce : Block 16}
      (hpc : call.pc = .requesting generation conn nonce deadlineMs false) :
      Resumed w i call a .enqueued
        (World.setPc { w with queued := w.queued ++ [frameOf i call.request conn nonce deadlineMs] } i
          (.requesting generation conn nonce deadlineMs true))
  | looped {v : World} (hpc : call.pc = .sleeping) (h : Enters w i call a v) :
      Resumed w i call a .finished v
  | leaves {outcome : Outcome} {v : World} (houtcome : outcome ≠ .authenticated)
      (h : Leaves w i call v) : Resumed w i call a outcome v

/-- The request a call keeps is the given one, but for a nonce where none was given. -/
structure Keeps (given kept : Request) : Prop where
  kind : kept.frameKind = given.frameKind
  opcode : kept.opcode = given.opcode
  payload : kept.payload = given.payload
  deadline : kept.options.deadlineMs = given.options.deadlineMs
  nonce : ∀ nonce, given.options.requestNonce = some nonce → kept.options.requestNonce = some nonce

def Drawn (r : Request) : Prop :=
  r.frameKind = kindCommand → ∃ nonce, r.options.requestNonce = some nonce

inductive Requested (w : World) (request : Request) (a : Ambient) : World → Prop
  | failed {error : IoError} :
      Requested w request a (w.spawn ⟨request, a.instant, 0, .returned (.error error)⟩)
  | entered {r : Request} {v : World} (hkeeps : Keeps request r) (hdrawn : Drawn r)
      (h : Enters (w.spawn ⟨r, a.instant, 0, .closing⟩) w.calls.length ⟨r, a.instant, 0, .closing⟩ a
      v) : Requested w request a v

inductive Quietly (w : World) : World → Prop
  | idle : Quietly w w
  | credentials (credentials : Credentials) : Quietly w { w with credentials }
  | dropped {i : ℕ} {call : Call} {v : World} (hcall : w.calls[i]? = some call)
      (h : Leaves w i call v) : Quietly w v
  | written {k : ℕ} {frame : Outgoing} (hframe : w.queued[k]? = some frame) :
      Quietly w { w with queued := w.queued.eraseIdx k, sent := w.sent ++ [frame] }
  | lost (conn : ℕ) : Quietly w (w.closeConn conn)
  | taken {u : World} (hu : Told w u) : Quietly w (withdrawn u)
  | flagged : Quietly w { w with closed := true }

def requests : Move → Option (Request × Ambient)
  | .other (.request request a) => some (request, a)
  | _ => none

def resumes : Move → Option (ℕ × Outcome × Ambient)
  | .other (.other (.resume i outcome a)) => some (i, outcome, a)
  | _ => none

inductive Change (w : World) (m : Move) : World → Prop
  | requested {request : Request} {a : Ambient} {v : World} (hm : m = .other (.request request a))
      (h : Requested w request a v) : Change w m v
  | resumed {i : ℕ} {outcome : Outcome} {a : Ambient} {call : Call} {v : World}
      (hm : m = .other (.other (.resume i outcome a))) (hcall : w.calls[i]? = some call)
      (h : Resumed w i call a outcome v) : Change w m v
  | quietly {v : World} (hrequests : requests m = none) (hresumes : resumes m = none)
      (h : Quietly w v) : Change w m v

variable {w : World} {i : ℕ} {call : Call} {a : Ambient}

theorem setPc_ends {pc : Pc} (hpc : parked pc = true) {generation : Option ℕ} :
    Ends w i generation (w.setPc i pc) :=
  .parks .nothing fun _ => ⟨rfl, hpc⟩

theorem emit_ends {e : AccountEvent} (he : announces e = none) {pc : Pc} (hpc : parked pc = true)
    {generation : Option ℕ} : Ends w i generation ((w.emit e).setPc i pc) :=
  .parks (.event he) fun _ => ⟨rfl, hpc⟩

theorem retry_ends (error : IoError) (generation : Option ℕ) :
    Ends w i generation (w.retry i call a error) := by
  unfold World.retry
  split_ifs
  · exact setPc_ends rfl
  · exact .parks (.event rfl) fun _ => ⟨rfl, rfl⟩

theorem connectFailed_ends (error : IoError) : Ends w i none (w.connectFailed i call a error) := by
  unfold World.connectFailed
  split_ifs
  · exact emit_ends rfl rfl
  · exact retry_ends error none

theorem takeCurrent_some (w : World) (generation : ℕ) :
    (∃ conn, w.current = some (generation, conn) ∧
      w.takeCurrent (some generation) = ({ w with current := none }, some conn)) ∨
    ((∀ conn, w.current ≠ some (generation, conn)) ∧ w.takeCurrent (some generation) = (w, none)) := by
  unfold World.takeCurrent
  by_cases h : w.current.map Prod.fst = some generation
  · obtain ⟨⟨_, conn⟩, hcurrent, rfl⟩ := Option.map_eq_some_iff.mp h
    refine .inl ⟨conn, hcurrent, ?_⟩
    rw [if_neg (fun hne => hne.2 h), hcurrent]
    rfl
  · refine .inr ⟨?_, if_pos ⟨rfl, h⟩⟩
    intro conn hcurrent
    exact h (by rw [hcurrent]; rfl)

theorem requestFailed_ends (generation : ℕ) (error : IoError) :
    Ends w i (some generation) (w.requestFailed i call a generation error) := by
  unfold World.requestFailed
  split_ifs
  · exact emit_ends rfl rfl
  · obtain ⟨conn, hcurrent, htake⟩ | ⟨-, htake⟩ := takeCurrent_some w generation
    · rw [htake]
      exact .invalidates hcurrent
    · rw [htake]
      exact retry_ends error _

theorem beginRequest_begins {generation conn : ℕ} (hcurrent : w.current = some (generation, conn)) :
    Begins w i call a (w.beginRequest i call a generation conn) := by
  unfold World.beginRequest
  cases hprepare : w.prepare call a conn with
  | error e => exact .fails hcurrent (requestFailed_ends generation e)
  | ok prepared => exact .asks hcurrent hprepare

theorem enterLoop_enters : Enters w i call a (w.enterLoop i call a) := by
  unfold World.enterLoop
  split_ifs with hclosed
  · exact .ends (setPc_ends rfl)
  have hopen : w.closed = false := Bool.eq_false_iff.mpr hclosed
  rcases hcurrent : w.current with _ | ⟨generation, conn⟩
  · exact .locks hopen
  · dsimp only
    split_ifs
    · exact .begins hopen (beginRequest_begins hcurrent)
    · exact .locks hopen

theorem lockAcquired_resumed (hpc : call.pc = .locking) (hfree : w.connectLock = none) :
    Resumed w i call a .acquired (w.lockAcquired i call a) := by
  unfold World.lockAcquired
  rcases hcurrent : w.current with _ | ⟨generation, conn⟩
  · exact .locked hpc hfree fun _ _ h => by cases hcurrent.symm.trans h
  · dsimp only
    split_ifs with hopen
    · exact .found hpc (beginRequest_begins hcurrent)
    · refine .locked hpc hfree ?_
      intro _ _ h
      cases hcurrent.symm.trans h
      exact Bool.eq_false_iff.mpr hopen

theorem authOk_begins (conn : ℕ) : Begins (published w conn) i call a (w.authOk i call a conn) :=
  beginRequest_begins rfl

theorem resume_resumed {outcome : Outcome} {v : World}
    (hv : w.resume i call a call.pc outcome = some v) : Resumed w i call a outcome v := by
  generalize hpc : call.pc = pc at hv
  have hidle {generation : Option ℕ} (hroams : roams pc = true) (h : Ends w i generation v) :
    Leaves w i call v :=
    .idle (hpc ▸ hroams) h
  cases pc with
  | closing =>
    cases outcome <;> simp only [World.resume, reduceCtorEq, Option.some.injEq] at hv
    exact hv ▸ .entered hpc
  | locking =>
    cases outcome <;> simp only [World.resume, reduceCtorEq] at hv
    split_ifs at hv with hfree
    cases hv
    exact lockAcquired_resumed hpc hfree
  | connecting =>
    cases outcome <;> simp only [World.resume, reduceCtorEq, Option.some.injEq] at hv
    · exact hv ▸ .connected hpc
    · exact .leaves nofun (.connecting (hpc ▸ rfl) (hv ▸ connectFailed_ends _))
  | authenticating conn =>
    cases outcome <;> simp only [World.resume, reduceCtorEq, Option.some.injEq] at hv
    · exact .published hpc (hv ▸ authOk_begins conn)
    · exact .leaves nofun (.connecting (hpc ▸ rfl) (hv ▸ connectFailed_ends _))
  | requesting generation conn nonce deadlineMs enqueued =>
    cases outcome with
    | enqueued =>
      cases enqueued <;> simp only [World.resume, reduceCtorEq, Option.some.injEq] at hv
      exact hv ▸ .enqueued hpc
    | answered response =>
      cases enqueued <;> simp only [World.resume, reduceCtorEq, Option.some.injEq] at hv
      have hends : Ends w i none v := by
        split_ifs at hv
        · exact hv ▸ emit_ends rfl rfl
        · exact hv ▸ setPc_ends rfl
      exact .leaves nofun (hidle rfl hends)
    | failed error =>
      have hends : w.requestFailed i call a generation error = v := by
        cases enqueued <;> exact Option.some.inj hv
      exact .leaves nofun (hidle rfl (hends ▸ requestFailed_ends generation error))
    | finished => cases enqueued <;> cases hv
    | acquired => cases enqueued <;> cases hv
    | connected => cases enqueued <;> cases hv
    | authenticated => cases enqueued <;> cases hv
  | invalidating error =>
    cases outcome <;> simp only [World.resume, reduceCtorEq, Option.some.injEq] at hv
    exact .leaves nofun (hidle rfl (hv ▸ retry_ends error none))
  | sleeping =>
    cases outcome <;> simp only [World.resume, reduceCtorEq, Option.some.injEq] at hv
    exact .looped hpc (hv ▸ enterLoop_enters)
  | returned result => cases outcome <;> cases hv
  | dropped => cases outcome <;> cases hv

theorem dropCall_leaves {v : World} (hv : w.dropCall i call.pc = some v) : Leaves w i call v := by
  have hdropped {u : World} : Ends u i none (u.setPc i .dropped) := setPc_ends rfl
  generalize hpc : call.pc = pc at hv
  have hidle (hroams : roams pc = true) (hv : some (w.setPc i .dropped) = some v) : Leaves w i call v :=
    Option.some.inj hv ▸ .idle (hpc ▸ hroams) hdropped
  cases pc with
  | returned result => cases hv
  | dropped => cases hv
  | connecting => exact .connecting (hpc ▸ rfl) (Option.some.inj hv ▸ hdropped)
  | authenticating conn => exact .connecting (hpc ▸ rfl) (Option.some.inj hv ▸ hdropped)
  | closing => exact hidle rfl hv
  | locking => exact hidle rfl hv
  | requesting generation conn nonce deadlineMs enqueued => exact hidle rfl hv
  | invalidating error => exact hidle rfl hv
  | sleeping => exact hidle rfl hv

theorem spawn_update (w : World) (call : Call) (f : Call → Call) :
    (w.spawn call).update w.calls.length f = w.spawn (f call) := by
  simp [World.update, World.spawn, List.modify_eq_set_getElem?]

theorem drawn_eq_ok {next : Call} (h : call.drawn a = .ok next) : ∃ requestNonce, next = { call with
      request := { call.request with options := { call.request.options with requestNonce } }
      started := a.instant } ∧
    Keeps call.request next.request ∧ Drawn next.request := by
  unfold Call.drawn at h
  dsimp only at h
  split_ifs at h with hcommand
  · cases hnonce : a.nonce with
    | error e => simp only [hnonce, reduceCtorEq] at h
    | ok value =>
      simp only [hnonce, Except.ok.injEq] at h
      subst h
      refine ⟨_, rfl, ⟨rfl, rfl, rfl, rfl, fun nonce hgiven => ?_⟩, fun _ => ⟨_, rfl⟩⟩
      cases hcommand.2.symm.trans hgiven
  · cases h
    refine ⟨_, rfl, ⟨rfl, rfl, rfl, rfl, fun nonce hgiven => hgiven⟩, fun hkind => ?_⟩
    exact Option.ne_none_iff_exists'.mp fun hnone => hcommand ⟨hkind, hnone⟩

theorem enterRequest_requested (request : Request) : Requested w request a
    ((w.spawn ⟨request, a.instant, 0, .closing⟩).enterRequest w.calls.length ⟨request, a.instant, 0,
      .closing⟩ a) := by
  unfold World.enterRequest
  split
  · rw [World.setPc, spawn_update]
    exact .failed
  · rename_i next hnext
    obtain ⟨requestNonce, rfl, hkeeps, hdrawn⟩ := drawn_eq_ok hnext
    rw [spawn_update]
    exact .entered hkeeps hdrawn enterLoop_enters

theorem takeCurrent_none (w : World) :
    w.takeCurrent none = ({ w with current := none }, w.current.map Prod.snd) :=
  if_neg fun h => Bool.false_ne_true h.1

theorem withdrawn_current (w : World) : (withdrawn w).current = none := by
  unfold withdrawn
  split
  · rfl
  · rfl

theorem map_getElem?_modify {α β : Type} {g : α → β} {f : α → α} (hf : ∀ x, g (f x) = g x)
    (l : List α) (i j : ℕ) : ((l.modify i f)[j]?).map g = (l[j]?).map g := by
  rw [List.getElem?_modify]
  cases l[j]? with
  | none => rfl
  | some x => by_cases h : i = j <;> simp [h, hf]

theorem openConn_eq (w : World) (conn : ℕ) :
    w.openConn conn = ((w.conns[conn]?).map Conn.closed).any not := by
  unfold World.openConn
  cases w.conns[conn]? <;> rfl

theorem openConn_published (w : World) (conn other : ℕ) :
    (published w conn).openConn other = w.openConn other := by
  rw [openConn_eq, openConn_eq]
  exact congrArg (Option.any not)
    (map_getElem?_modify (g := Conn.closed) (f := fun c => { c with principal := true })
      (fun _ => rfl) w.conns conn other)

theorem openConn_closeConn (w : World) (conn c : ℕ) :
    (w.closeConn conn).openConn c = (w.openConn c && decide (c ≠ conn)) := by
  unfold World.openConn World.closeConn
  rw [List.getElem?_modify]
  cases w.conns[c]? with
  | none => rfl
  | some x =>
    by_cases hc : conn = c
    · simp [hc]
    · simp [hc, Ne.symm hc]

theorem mem_of_written {k : ℕ} {frame : Outgoing} (hframe : w.queued[k]? = some frame) :
    ∀ f ∈ w.queued.eraseIdx k ++ (w.sent ++ [frame]), f ∈ w.queued ++ w.sent := by
  intro f hf
  simp only [List.mem_append, List.mem_singleton] at hf ⊢
  rcases hf with hf | hf | rfl
  · exact Or.inl (List.mem_of_mem_eraseIdx hf)
  · exact Or.inr hf
  · exact Or.inl (List.mem_of_getElem? hframe)

variable {f : Call → Call} {P Q : ℕ → Call → Prop}

/-- Nobody is left out of an invariant that may leave out a call which is just going on. -/
abbrev nobody (_ : ℕ) : Prop := False

def EachCall (P : ℕ → Call → Prop) (w : World) : Prop :=
  ∀ j call, w.calls[j]? = some call → P j call

theorem EachCall.imp (h : EachCall P w)
    (hPQ : ∀ j call, w.calls[j]? = some call → P j call → Q j call) : EachCall Q w :=
  fun j call hcall => hPQ j call hcall (h j call hcall)

theorem EachCall.update (h : EachCall (fun j c => j ≠ i → P j c) w)
    (hf : ∀ call, w.calls[i]? = some call → P i (f call)) : EachCall P (w.update i f) := by
  intro j call hcall
  change (w.calls.modify i f)[j]? = some call at hcall
  rw [List.getElem?_modify] at hcall
  obtain ⟨old, hold, rfl⟩ := Option.map_eq_some_iff.mp hcall
  by_cases hij : i = j
  · subst hij
    rw [if_pos rfl]
    exact hf old hold
  · rw [if_neg hij]
    exact h j old hold (Ne.symm hij)

theorem getElem?_concat_of_some {α : Type} {l : List α} {k : ℕ} {x : α} (h : l[k]? = some x) (y : α) :
    (l ++ [y])[k]? = some x := by
  rw [List.getElem?_append_left (List.getElem?_eq_some_iff.mp h).1, h]

theorem getElem?_concat_of_ne {α : Type} {l : List α} {k : ℕ} (hk : k ≠ l.length) (y : α) :
    (l ++ [y])[k]? = l[k]? := by
  rcases Nat.lt_or_gt_of_ne hk with hlt | hgt
  · exact List.getElem?_append_left hlt
  · rw [List.getElem?_eq_none (Nat.le_of_lt hgt),
      List.getElem?_eq_none (by rw [List.length_append, List.length_singleton]; omega)]

theorem EachCall.spawn (h : EachCall P w) (hcall : P w.calls.length call) :
    EachCall P (w.spawn call) := by
  intro j c hc
  change (w.calls ++ [call])[j]? = some c at hc
  by_cases hj : j = w.calls.length
  · rw [hj, List.getElem?_concat_length] at hc
    rw [hj]
    exact Option.some.inj hc ▸ hcall
  · rw [getElem?_concat_of_ne hj] at hc
    exact h j c hc

theorem spawn_getElem? (w : World) (call : Call) :
    (w.spawn call).calls[w.calls.length]? = some call :=
  List.getElem?_concat_length

variable {s s' : Closable}

theorem takeLast_world (k : ℕ) : (s.takeLast k).world = withdrawn (s.world.emit .closed) := by
  simp only [Closable.takeLast, takeCurrent_none, withdrawn, World.emit]
  cases s.world.current <;> rfl

theorem invalidate_world (account : Account) (k : ℕ) :
    (account.invalidate k).world = withdrawn account.world := by
  simp only [Account.invalidate, takeCurrent_none, withdrawn]
  cases account.world.current <;> rfl

theorem act_change {account account' : Account} {action : Action}
    (h : act account action = some account') (hclose : action ≠ .other .close) :
    Change account.world (.other action) account'.world := by
  cases action with
  | request request a =>
    cases h
    exact .requested rfl (enterRequest_requested request)
  | setCredentials token clientName =>
    cases h
    refine .quietly rfl rfl ?_
    unfold Account.setCredentials
    dsimp only
    split_ifs
    · exact .idle
    · exact .credentials _
    · exact .idle
  | takeCurrent k =>
    obtain ⟨x, hx, h⟩ := Option.bind_eq_some_iff.mp h
    cases hpc : x.pc <;> simp only [hpc, reduceCtorEq, Option.some.injEq] at h
    rw [← h, invalidate_world]
    exact .quietly rfl rfl (.taken .nothing)
  | closeFinished k =>
    obtain ⟨x, hx, h⟩ := Option.bind_eq_some_iff.mp h
    cases hpc : x.pc <;> simp only [hpc, reduceCtorEq, Option.some.injEq] at h
    exact h ▸ .quietly rfl rfl .idle
  | dropSetter k =>
    obtain ⟨x, hx, h⟩ := Option.bind_eq_some_iff.mp h
    cases hpc : x.pc <;> simp only [hpc, reduceCtorEq, Option.some.injEq] at h
    exact h ▸ .quietly rfl rfl .idle
  | other l =>
    cases l with
    | call request a => cases h
    | close => exact absurd rfl hclose
    | resume i outcome a =>
      obtain ⟨w, hw, rfl⟩ := Option.map_eq_some_iff.mp h
      obtain ⟨call, hcall, hw⟩ := Option.bind_eq_some_iff.mp hw
      exact .resumed rfl hcall (resume_resumed hw)
    | drop i =>
      obtain ⟨w, hw, rfl⟩ := Option.map_eq_some_iff.mp h
      obtain ⟨call, hcall, hw⟩ := Option.bind_eq_some_iff.mp hw
      exact .quietly rfl rfl (.dropped hcall (dropCall_leaves hw))
    | write k =>
      obtain ⟨w, hw, rfl⟩ := Option.map_eq_some_iff.mp h
      obtain ⟨frame, hframe, rfl⟩ := Option.map_eq_some_iff.mp hw
      exact .quietly rfl rfl (.written hframe)
    | lose conn =>
      cases h
      exact .quietly rfl rfl (.lost conn)

theorem move_other {action : Action} (h : move s (.other action) = some s') :
    ∃ account, act s.account action = some account ∧ { s with account } = s' ∧
      action ≠ .other .close := by
  have hclose : action ≠ .other .close := by
    rintro rfl
    cases h
  have hact : (act s.account action).map (fun account => { s with account }) = some s' := by
    cases action with
    | other l =>
      cases l with
      | close => exact absurd rfl hclose
      | _ => exact h
    | _ => exact h
  obtain ⟨account, haccount, hs⟩ := Option.map_eq_some_iff.mp hact
  exact ⟨account, haccount, hs, hclose⟩

theorem move_change {m : Move} (h : move s m = some s') : Change s.world m s'.world := by
  cases m with
  | close =>
    cases h
    exact .quietly rfl rfl .flagged
  | takeLast k =>
    obtain ⟨pc, hpc, h⟩ := Option.bind_eq_some_iff.mp h
    cases pc <;> simp only [reduceCtorEq, Option.some.injEq] at h
    rw [← h, takeLast_world]
    exact .quietly rfl rfl (.taken (.event rfl))
  | closeReturned k result =>
    obtain ⟨pc, hpc, h⟩ := Option.bind_eq_some_iff.mp h
    cases pc <;> simp only [reduceCtorEq, Option.some.injEq] at h
    exact h ▸ .quietly rfl rfl .idle
  | dropCloser k =>
    obtain ⟨pc, hpc, h⟩ := Option.bind_eq_some_iff.mp h
    cases pc <;> simp only [reduceCtorEq, Option.some.injEq] at h
    exact h ▸ .quietly rfl rfl .idle
  | other action =>
    obtain ⟨account, haccount, rfl, hclose⟩ := move_other h
    exact act_change haccount hclose

end Mst5Client.AccountMoves
