import Mst5Client.ConnectionClosure

set_option autoImplicit false

/-!
# A request that times out

A call gives its request up when one of its timers fires.
-/
namespace Mst5Client.RequestDeadlines
open ByteOrder IoResult MachineRuns TaskPrograms TaskTraces ConnectionState ConnectionCalls
  ConnectionPrograms
open ConnectionEffects ConnectionHistory ConnectionClosure

def expires : (op : Op) → Ans op → Bool
  | .stageTimeout _, .error error => error.kind = .timedOut
  | .acquirePermit, false => true
  | .lockOrder, false => true
  | .acquireBudget _, false => true
  | .sendWriter _, .timedOut => true
  | .awaitComplete _ _, .timedOut => true
  | .recvHandle _, .timedOut => true
  | _, _ => false

def awaitsWrite : Op → Bool
  | .acquireBudget _ | .sendWriter _ | .awaitComplete _ _ => true
  | _ => false

/-- How far a call is with its request. -/
structure Progress where
  id : Option ℕ
  handle : Option ℕ
  /-- In `begin`, from the registration of the request to the release of the order lock. -/
  writing : Bool
  /-- A timer has fired, and not for a write of `begin`. A task that cleans up after a dropped handle
  has given the request up from the start. -/
  givenUp : Bool

def Progress.after (r : Progress) : (op : Op) → Ans op → Progress
  | .allocateId, some id => { r with id := some id }
  | .handleId _, id => { r with id := some id }
  | .newHandle stream _ _, handle => { r with handle := some handle, writing := !stream }
  | .unlockOrder, _ => { r with writing := false }
  | op, answer => if expires op answer && !(awaitsWrite op && r.writing) then
    { r with givenUp := true } else r

def pre : Option Progress → Op → Prop
  | none, _ => True
  | some r, .handleId handle | some r, .dropHandle handle => r.handle = some handle
  | some r, .newHandle _ id _ => r.givenUp = false ∧ r.id = some id
  | some r, .removePending id => r.id = some id
  | some r, op => r.givenUp = true → area op = .calls

def Name.handle : Name → Option ℕ
  | .recv handle | .send handle _ _ _ | .abort handle _ | .cancel handle | .remove handle
      | .streamRecv handle
  | .streamSend handle _ | .streamClose handle | .dropHandle handle => some handle
  | _ => none

def start : Name → Option Progress
  | .reader | .writer | .keepalive | .close => none
  | .cancelRequest id | .abortStream id => some ⟨some id, none, false, true⟩
  | n => some ⟨none, Name.handle n, false, false⟩

def protocol : Protocol Op Ans Name (Option Progress) where
  pre
  post := fun r op answer => r.map fun r => r.after op answer
  idle := none
  ready := fun n r => r = start n
  start
  first := fun _ => none

/-- The history of task `i` says that it has given its request up. -/
def GivenUp (log : Log) (i : ℕ) : Prop := ∃ r, protocol.held log i = some r ∧ r.givenUp = true

def TimedOut {α : Type} (x : Except IoError α) : Prop :=
  ∃ error, x = .error error ∧ error.kind = .timedOut

variable {n : Name} {l : Locals} {t : Run}

/-- A program of a task that is on the way with a request. -/
abbrev Under (r : Progress) {α : Type} (Q : Option Progress → α → Prop) (p : Call α) : Prop :=
  Verified protocol.toDiscipline (some r) Q p

variable {r : Progress} {s : Option Progress} {α β : Type}
variable {x : Except IoError α} {handle : ℕ}

/-- A call has returned: if it gave the request up, it says so. -/
def Ends (s : Option Progress) (x : Except IoError α) : Prop :=
  ∃ r, s = some r ∧ (r.givenUp = true → TimedOut x)

theorem Ends.error {e : IoError} (h : Ends s (.error e : Except IoError α)) :
    Ends s (.error e : Except IoError β) := by
  obtain ⟨r, rfl, hr⟩ := h
  refine ⟨r, rfl, fun hgiven => ?_⟩
  obtain ⟨_, ⟨⟩, he⟩ := hr hgiven
  exact ⟨e, rfl, he⟩

def Left (r : Progress) (s : Option Progress) (x : Except IoError α) : Prop :=
  s = some r ∨ s = some { r with givenUp := true } ∧ TimedOut x

theorem Left.ok {a : α} (h : Left r s (.ok a)) : s = some r := by
  obtain h | ⟨-, _, herror, -⟩ := h
  · exact h
  · cases herror

theorem Left.error {e : IoError} (h : Left r s (.error e : Except IoError α)) :
    Left r s (.error e : Except IoError β) := by
  obtain h | ⟨h, _, ⟨⟩, he⟩ := h
  · exact .inl h
  · exact .inr ⟨h, e, rfl, he⟩

theorem Left.ends (h : Left r s x) (hr : r.givenUp = false) : Ends s x := by
  obtain rfl | ⟨rfl, hx⟩ := h
  · refine ⟨r, rfl, fun hgiven => ?_⟩
    rw [hr] at hgiven
    cases hgiven
  · exact ⟨_, rfl, fun _ => hx⟩

theorem left_timedOut (message : String) :
    Left r (some { r with givenUp := true }) (.error (timedOut message) : Except IoError α) :=
  .inr ⟨rfl, _, rfl, rfl⟩

theorem verified_stageTimeout (r : Progress) (deadlineMs : ℕ) :
    Under r (Left r) (stageTimeout deadlineMs).run := by
  refine ⟨fun _ => rfl, fun result => ?_⟩
  cases result with
  | ok _ => exact .inl rfl
  | error e =>
    change Left r (some (if (decide (e.kind = .timedOut) && true) = true then _ else r)) _
    split_ifs with he
    · rw [Bool.and_true] at he
      exact .inr ⟨rfl, e, rfl, of_decide_eq_true he⟩
    · exact .inl rfl

theorem write_expired (r : Progress) (message : String) :
    some (if (!r.writing) = true then { r with givenUp := true } else r) = some r ∨ r.writing = false ∧
      Left r (some (if (!r.writing) = true then { r with givenUp := true } else r))
        (.error (timedOut message) : Except IoError α) := by
  by_cases hr : (!r.writing) = true
  · rw [if_pos hr]
    exact .inr ⟨Bool.not_eq_eq_eq_not.mp hr, left_timedOut message⟩
  · rw [if_neg hr]
    exact .inl rfl

theorem verified_write (r : Progress) (frame : Frame) : Under r
    (fun s x => s = some r ∨ r.writing = false ∧ Left r s x) (enqueueFrame frame).run := by
  refine ⟨fun _ => rfl, fun granted => ?_⟩
  cases granted with
  | false => exact write_expired r _
  | true =>
    refine ⟨fun _ => rfl, fun sent => ?_⟩
    cases sent with
    | timedOut => exact write_expired r _
    | closed => exact .inl rfl
    | sent complete =>
      refine ⟨fun _ => rfl, fun completion => ?_⟩
      cases completion with
      | timedOut => exact write_expired r _
      | dropped => exact .inl rfl
      | done result => exact .inl rfl

theorem verified_enqueueFrame (r : Progress) (frame : Frame) :
    Under r (Left r) (enqueueFrame frame).run := by
  refine (verified_write r frame).mono ?_
  rintro s x (h | ⟨-, h⟩)
  · exact .inl h
  · exact h

theorem verified_writeStage (hr : r.writing = true) (frame : Frame) :
    Under r (fun s _ => s = some r) (enqueueFrame frame).run := by
  refine (verified_write r frame).mono ?_
  rintro s x (h | ⟨hnot, -⟩)
  · exact h
  · rw [hr] at hnot
    cases hnot

theorem verified_writeControl (r : Progress) (frame : Frame) :
    Under r (Left r) (writeControl frame).run := by
  refine ⟨fun _ => rfl, fun closed => ?_⟩
  cases closed with
  | true => exact .inl rfl
  | false => exact verified_enqueueFrame r frame

theorem verified_writeNew (r : Progress) (kind : UInt8) (code id : ℕ) (payload : Bytes) :
    Under r (Left r) (writeNew kind code id payload).run := by
  unfold writeNew
  cases Frame.new kind code id payload with
  | error e => exact .inl rfl
  | ok frame => exact verified_writeControl r frame

def Keeps (r : Progress) (s : Option Progress) : Prop := ∃ r', s = some r' ∧ r'.handle = r.handle

theorem Left.keeps (h : Left r s x) : Keeps r s := by
  obtain rfl | ⟨rfl, -⟩ := h
  · exact ⟨r, rfl, rfl⟩
  · exact ⟨_, rfl, rfl⟩

theorem verified_cancelId {id : ℕ} (h : r.id = some id) :
    Under r (fun s _ => Keeps r s) (cancelId id) := by
  refine ⟨h, fun _ => ?_⟩
  exact (verified_writeNew r kindCancel 0 id []).bind fun _ _ hleft => hleft.keeps

theorem verified_remove (h : r.handle = some handle) :
    Under r (fun s _ => ∃ id, s = some { r with id }) (remove handle) := by
  refine ⟨fun _ => rfl, fun active => ?_⟩
  cases active with
  | false => exact ⟨r.id, rfl⟩
  | true => exact ⟨h, fun id => ⟨rfl, fun _ => ⟨fun _ => rfl, fun _ => ⟨some id, rfl⟩⟩⟩⟩

theorem verified_cancel (h : r.handle = some handle) :
    Under r (fun s _ => Keeps r s) (cancel handle) := by
  refine ⟨fun _ => rfl, fun active => ?_⟩
  cases active with
  | false => exact ⟨r, rfl, rfl⟩
  | true =>
    refine ⟨h, fun id => ?_⟩
    refine (verified_cancelId (r := { r with id := some id }) rfl).bind ?_
    rintro _ _ ⟨r', rfl, hr'⟩
    exact ⟨fun _ => rfl, fun _ => ⟨r', rfl, hr'⟩⟩

theorem verified_settle (h : r.handle = some handle) (error : IoError) : Under r
      (fun s _ => ∃ r', s = some r' ∧ (r'.givenUp = true → r.givenUp = true ∨ error.kind = .timedOut))
      (settle handle error) := by
  unfold settle
  split_ifs with herror
  · refine (verified_cancel h).mono ?_
    rintro _ _ ⟨r', rfl, -⟩
    exact ⟨r', rfl, fun _ => .inr herror⟩
  · refine (verified_remove h).mono ?_
    rintro _ _ ⟨id, rfl⟩
    exact ⟨_, rfl, .inl⟩

theorem verified_recv (r : Progress) (handle : ℕ) : Under r (Left r) (recv handle).run := by
  refine ⟨fun _ => rfl, fun received => ?_⟩
  cases received with
  | item item =>
    cases item with
    | frame a =>
      change Under r (Left r)
        (if isTerminalResponse a.frame.kind = true then _ else _)
      split_ifs
      · exact ⟨fun _ => rfl, fun _ => .inl rfl⟩
      · exact .inl rfl
    | failed message => exact ⟨fun _ => rfl, fun _ => .inl rfl⟩
  | closed => exact ⟨fun _ => rfl, fun _ => .inl rfl⟩
  | timedOut => exact left_timedOut _

theorem verified_send (h : r.handle = some handle) (kind : UInt8) (code : ℕ) (payload : Bytes) :
    Under r (fun s x => ∃ id, Left { r with id } s x)
      (send handle kind code payload).run := by
  refine ⟨h, fun id => ?_⟩
  exact (verified_writeNew _ kind code id payload).mono fun _ _ hleft => ⟨some id, hleft⟩

theorem verified_abort (h : r.handle = some handle) (status : ℕ) :
    Under r (fun s _ => Keeps r s) (abort handle status) := by
  refine ⟨fun _ => rfl, fun active => ?_⟩
  cases active with
  | false => exact ⟨r, rfl, rfl⟩
  | true =>
    have hsend : Under r (fun s _ => Keeps r s)
        (ignore (send handle kindStreamAbort status [])) := by
      refine (verified_send h kindStreamAbort status []).bind ?_
      rintro _ _ ⟨id, hleft⟩
      exact hleft.keeps
    refine hsend.bind ?_
    rintro _ _ ⟨r', rfl, hr'⟩
    refine (verified_remove (hr'.trans h)).mono ?_
    rintro _ _ ⟨id, rfl⟩
    exact ⟨_, rfl, hr'⟩

theorem verified_streamRecv (r : Progress) (handle : ℕ) :
    Under r (Left r) (streamRecv handle).run := by
  refine ⟨fun _ => rfl, fun received => ?_⟩
  cases received with
  | item item => cases item <;> exact .inl rfl
  | closed => exact .inl rfl
  | timedOut => exact left_timedOut _

theorem verified_streamSend (h : r.handle = some handle) (payload : Bytes) :
    Under r (fun s x => ∃ id, Left { r with id } s x)
      (streamSend handle payload).run := by
  refine ⟨fun _ => rfl, fun active => ?_⟩
  cases active with
  | false => exact ⟨r.id, .inl rfl⟩
  | true =>
    refine ⟨h, fun id => ?_⟩
    exact (verified_writeNew _ kindStreamData 0 id payload).mono fun _ _ hleft => ⟨some id, hleft⟩

theorem verified_streamClose (h : r.handle = some handle) (hr : r.givenUp = false) :
    Under r Ends (streamClose handle).run := by
  have hlive : ∀ (id : Option ℕ) (x : Except IoError Unit), Ends (some { r with id }) x :=
    fun id x => Left.ends (.inl rfl) hr
  refine ⟨fun _ => rfl, fun active => ?_⟩
  cases active with
  | false => exact hlive r.id _
  | true =>
    refine ⟨h, fun id => ?_⟩
    change Under { r with id := some id } Ends
      (fromExcept (Frame.new kindStreamEnd 200 id []) >>= fun frame => _).run
    cases Frame.new kindStreamEnd 200 id [] with
    | error e => exact hlive (some id) _
    | ok frame =>
      refine (verified_writeControl { r with id := some id } frame).liftThen ?_
      rintro _ result (rfl | ⟨rfl, hresult⟩)
      · exact ⟨rfl, fun _ => hlive (some id) result⟩
      · exact ⟨rfl, fun _ => ⟨_, rfl, fun _ => hresult⟩⟩

theorem verified_abortStream {id : ℕ} (h : r.id = some id) :
    Under r (fun s _ => Keeps r s) (abortStream id) := by
  have hwrite : Under r
      (fun s _ => s = some r ∨ s = some { r with givenUp := true })
      (ignore (writeNew kindStreamAbort 499 id [])) :=
    (verified_writeNew r kindStreamAbort 499 id []).bind fun _ _ hleft => hleft.imp_right And.left
  refine hwrite.bind ?_
  rintro _ _ (rfl | rfl)
  · exact ⟨h, fun _ => ⟨r, rfl, rfl⟩⟩
  · exact ⟨h, fun _ => ⟨_, rfl, rfl⟩⟩

theorem verified_failAll (hr : r.givenUp = false) (message : String) (entries : List (ℕ × ℕ)) :
    Under r (fun s _ => s = some r) (failAll message entries) := by
  induction entries with
  | nil => exact rfl
  | cons e entries ih =>
    refine ⟨fun hgiven => ?_, fun _ => ih⟩
    rw [hr] at hgiven
    cases hgiven

theorem verified_fail (hr : r.givenUp = false) (message : String) :
    Under r (fun s _ => s = some r) (fail message) := by
  have hlive : ∀ {P : Prop}, r.givenUp = true → P := by
    intro P hgiven
    rw [hr] at hgiven
    cases hgiven
  refine ⟨hlive, fun closed => ?_⟩
  cases closed with
  | true => exact rfl
  | false => exact ⟨hlive, fun entries => verified_failAll hr message entries⟩

def Progress.fresh : Progress := ⟨none, none, false, false⟩

def Progress.having (handle : ℕ) : Progress := ⟨none, some handle, false, false⟩

theorem ends_live {id handle : Option ℕ} {writing : Bool} (x : Except IoError α) :
    Ends (some ⟨id, handle, writing, false⟩) x := ⟨_, rfl, nofun⟩

theorem ends_timedOut (r : Progress) (message : String) :
    Ends (some r) (.error (timedOut message) : Except IoError α) := ⟨r, rfl, fun _ => ⟨_, rfl, rfl⟩⟩

theorem verified_reserve (deadlineMs : ℕ) (slotMessage writerMessage : String) :
    Under .fresh
      (fun s x => Ends s x ∧ ∀ id channel, x = .ok (id, channel) →
        s = some ⟨some id, none, false, false⟩)
      (reserve deadlineMs slotMessage writerMessage).run := by
  refine (verified_stageTimeout .fresh deadlineMs).tryBind ?_ fun _ _ h =>
    ⟨h.error.ends rfl, fun _ _ => nofun⟩
  intro s _ hs
  obtain rfl := hs.ok
  refine ⟨nofun, fun granted => ?_⟩
  cases granted with
  | false => exact ⟨ends_timedOut _ _, fun _ _ => nofun⟩
  | true =>
    refine ⟨nofun, fun closed => ?_⟩
    cases closed with
    | true => exact ⟨ends_live _, fun _ _ => nofun⟩
    | false =>
      refine ⟨nofun, fun channel => ?_⟩
      refine (verified_stageTimeout .fresh deadlineMs).tryBind ?_
        fun _ _ h => ⟨h.error.ends rfl, fun _ _ => nofun⟩
      intro s _ hs
      obtain rfl := hs.ok
      refine ⟨nofun, fun locked => ?_⟩
      cases locked with
      | false => exact ⟨ends_timedOut _ _, fun _ _ => nofun⟩
      | true =>
        refine ⟨nofun, fun closed => ?_⟩
        cases closed with
        | true => exact ⟨ends_live _, fun _ _ => nofun⟩
        | false =>
          refine ⟨nofun, fun id => ?_⟩
          cases id with
          | none => exact ⟨ends_live _, fun _ _ => nofun⟩
          | some id =>
            refine ⟨ends_live _, ?_⟩
            rintro _ _ ⟨⟩
            rfl

theorem verified_begin (kind : UInt8) (code : ℕ) (requestNonce : Block 16) (deadlineMs : ℕ)
    (payload : Bytes) :
    Under .fresh
      (fun s x => Ends s x ∧ ∀ handle, x = .ok handle → ∃ id, s = some ⟨id, some handle, false, false⟩)
      (begin kind code requestNonce deadlineMs payload).run := by
  refine (verified_reserve deadlineMs _ _).tryBind ?_ ?_
  · rintro s ⟨id, channel⟩ ⟨-, hs⟩
    obtain rfl := hs id channel rfl
    change Verified protocol.toDiscipline _ _ (fromExcept _ >>= fun frame => _).run
    cases Frame.request kind code id requestNonce deadlineMs payload with
    | error e => exact ⟨ends_live _, fun _ => nofun⟩
    | ok frame =>
      refine ⟨nofun, fun _ => ⟨⟨rfl, rfl⟩, fun handle => ?_⟩⟩
      refine (verified_stageTimeout _ deadlineMs).tryBind ?_ fun _ _ h =>
        ⟨h.error.ends rfl, fun _ => nofun⟩
      intro s _ hs
      obtain rfl := hs.ok
      refine (verified_writeStage rfl frame).liftThen ?_
      rintro _ result rfl
      cases result with
      | ok _ =>
        refine ⟨nofun, fun _ => ⟨ends_live _, ?_⟩⟩
        rintro _ ⟨⟩
        exact ⟨some id, rfl⟩
      | error e =>
        -- the error of a write fails the connection, whatever it is
        refine (verified_remove rfl).liftThen ?_
        rintro _ _ ⟨id', rfl⟩
        refine (verified_fail rfl _).liftThen ?_
        rintro _ _ rfl
        exact ⟨ends_live _, fun _ => nofun⟩
  · exact fun _ _ h => ⟨h.1.error, fun _ => nofun⟩

theorem verified_request (kind : UInt8) (code : ℕ) (requestNonce : Block 16) (deadlineMs : ℕ)
    (payload : Bytes) :
    Under .fresh Ends
      (request kind code requestNonce deadlineMs payload).run := by
  refine (verified_begin kind code requestNonce deadlineMs payload).tryBind ?_ ?_
  · rintro s handle ⟨-, hs⟩
    obtain ⟨id, rfl⟩ := hs handle rfl
    refine (verified_stageTimeout _ deadlineMs).tryBind ?_ fun _ _ h => h.error.ends rfl
    intro s _ hs
    obtain rfl := hs.ok
    refine (verified_recv _ handle).liftThen ?_
    intro s result hs
    cases result with
    | ok a =>
      obtain rfl := hs.ok
      exact ends_live _
    | error e =>
      obtain rfl | ⟨rfl, _, ⟨⟩, he⟩ := hs
      · refine (verified_settle rfl e).liftThen ?_
        rintro _ _ ⟨r, rfl, hr⟩
        refine ⟨r, rfl, fun hgiven => ⟨e, rfl, ?_⟩⟩
        exact (hr hgiven).resolve_left nofun
      · refine (verified_settle rfl e).liftThen ?_
        rintro _ _ ⟨r, rfl, -⟩
        exact ⟨r, rfl, fun _ => ⟨e, rfl, he⟩⟩
  · exact fun _ _ h => h.1.error

theorem verified_beginStream (code : ℕ) (payload : Bytes) (deadlineMs : ℕ) :
    Under .fresh Ends (beginStream code payload deadlineMs).run := by
  refine (verified_reserve deadlineMs _ _).tryBind ?_ ?_
  · rintro s ⟨id, channel⟩ ⟨-, hs⟩
    obtain rfl := hs id channel rfl
    refine ⟨nofun, fun _ => ?_⟩
    change Verified protocol.toDiscipline _ _ (fromExcept _ >>= fun frame => _).run
    cases Frame.request kindStreamOpen code id zeroNonce deadlineMs payload with
    | error e => exact ends_live _
    | ok frame =>
      refine (verified_enqueueFrame _ frame).liftThen ?_
      intro s result hs
      cases result with
      | ok _ =>
        obtain rfl := hs.ok
        exact ⟨nofun, fun _ => ⟨⟨rfl, rfl⟩, fun _ => ends_live _⟩⟩
      | error e =>
        obtain rfl | ⟨rfl, _, ⟨⟩, he⟩ := hs
        · exact ⟨rfl, fun _ => ends_live _⟩
        · exact ⟨rfl, fun _ => ⟨_, rfl, fun _ => ⟨e, rfl, he⟩⟩⟩
  · exact fun _ _ h => h.1.error

theorem verified_none (p : Call α) :
    Verified protocol.toDiscipline none (fun s _ => s = none) p := by
  induction p with
  | ret a => exact rfl
  | call op k ih => exact ⟨trivial, ih⟩

theorem verified_toplevel {Q : Option Progress → α → Prop} {x : Call α}
    (hx : Verified protocol.toDiscipline s Q x) : Obeys protocol.toDiscipline s (toplevel x) :=
  hx.bind fun _ _ _ => nofun

theorem verified_handOver {r : Progress} {x : Attempt ℕ} (hx : Under r Ends x.run) :
    Obeys protocol.toDiscipline (some r) (handOver x) := by
  refine hx.bind ?_
  rintro _ result ⟨r, rfl, -⟩
  cases result with
  | ok _ => exact ⟨fun _ => rfl, fun _ => nofun⟩
  | error _ => exact nofun

theorem verified_loop (hn : start n = none) : Obeys protocol.toDiscipline none (code n) := by
  refine ((verified_none (code n)).and_returns (returns_code n)).mono ?_
  rintro _ next ⟨rfl, hnext⟩ m hm
  obtain rfl := hnext m hm
  exact hn.symm

theorem verified_code (n : Name) (s : Option Progress) (h : protocol.ready n s) :
    Obeys protocol.toDiscipline s (code n) := by
  rw [show s = start n from h]
  cases n with
  | reader => exact verified_loop rfl
  | writer => exact verified_loop rfl
  | keepalive => exact verified_loop rfl
  | close => exact verified_loop rfl
  | begin kind code requestNonce deadlineMs payload =>
    exact verified_handOver ((verified_begin kind code requestNonce deadlineMs payload).mono
      fun _ _ h => h.1)
  | request kind code requestNonce deadlineMs payload =>
    exact verified_toplevel (verified_request kind code requestNonce deadlineMs payload)
  | beginStream code payload deadlineMs =>
    exact verified_handOver (verified_beginStream code payload deadlineMs)
  | recv handle => exact verified_toplevel (verified_recv _ handle)
  | send handle kind code payload => exact verified_toplevel (verified_send rfl kind code payload)
  | abort handle status => exact verified_toplevel (verified_abort rfl status)
  | cancel handle => exact verified_toplevel (verified_cancel rfl)
  | remove handle => exact verified_toplevel (verified_remove rfl)
  | streamRecv handle => exact verified_toplevel (verified_streamRecv _ handle)
  | streamSend handle payload => exact verified_toplevel (verified_streamSend rfl payload)
  | streamClose handle => exact verified_toplevel (verified_streamClose rfl rfl)
  | dropHandle handle => exact ⟨rfl, fun _ => nofun⟩
  | cancelRequest id => exact verified_toplevel (verified_cancelId rfl)
  | abortStream id => exact verified_toplevel (verified_abortStream rfl)

variable {c c' : Connection} {log : Log} {ss : ℕ → Option Progress} {i id : ℕ}

/-- The request that a call is about: the call has allocated its id, or was started for it. -/
inductive Owns (c : Connection) (log : Log) (i id : ℕ) : Prop
  | allocated (h : .performed i .allocateId (some id) ∈ log)
  | cleanup (h : .started i (.cancelRequest id) ∈ log ∨ .started i (.abortStream id) ∈ log)
  | handle {n : Name} {handle : ℕ} (h : .started i n ∈ log) (hn : Name.handle n = some handle)
      (hid : HasId (handleIds c) handle id)

structure Sound (c : Connection) (log : Log) (i : ℕ) (r : Progress) : Prop where
  id : ∀ id, r.id = some id → Owns c log i id
  handle : ∀ handle, r.handle = some handle → (∃ n, .started i n ∈ log ∧ Name.handle n = some handle) ∨
    ∃ id, HasId (handleIds c) handle id ∧ Owns c log i id

def Invariant (c : Connection) (log : Log) (ss : ℕ → Option Progress) : Prop :=
  ∀ i r, ss i = some r → Sound c log i r

theorem Owns.mono {log' : Log} {more : List ℕ} (h : Owns c log i id)
    (hids : handleIds c' = handleIds c ++ more) (hlog : ∀ entry ∈ log, entry ∈ log') :
    Owns c' log' i id := by
  cases h with
  | allocated h => exact .allocated (hlog _ h)
  | cleanup h => exact .cleanup (h.imp (hlog _) (hlog _))
  | handle h hn hid => exact .handle (hlog _ h) hn (by rw [hids]; exact HasId.mono hid)

theorem Sound.mono {log' : Log} {more : List ℕ} (h : Sound c log i r)
    (hids : handleIds c' = handleIds c ++ more) (hlog : ∀ entry ∈ log, entry ∈ log') :
    Sound c' log' i r where
  id := fun id hid => (h.id id hid).mono hids hlog
  handle := by
    intro handle hhandle
    obtain ⟨n, hn, hname⟩ | ⟨id, hid, howns⟩ := h.handle handle hhandle
    · exact .inl ⟨n, hlog _ hn, hname⟩
    · exact .inr ⟨id, by rw [hids]; exact HasId.mono hid, howns.mono hids hlog⟩

theorem Sound.of_eq {r' : Progress} (h : Sound c log i r) (hid : r'.id = r.id)
    (hhandle : r'.handle = r.handle) : Sound c log i r' := by
  refine ⟨?_, ?_⟩
  · rw [hid]
    exact h.id
  · rw [hhandle]
    exact h.handle

theorem Sound.owns {handle : ℕ} (h : Sound c log i r) (hhandle : r.handle = some handle)
    (hid : HasId (handleIds c) handle id) : Owns c log i id := by
  obtain ⟨n, hn, hname⟩ | ⟨id', hid', howns⟩ := h.handle handle hhandle
  · exact .handle hn hname hid
  · -- the call made this handle itself
    cases hid.symm.trans hid'
    exact howns

theorem sound_perform (h : Sound c log i r) {op : Op} {choice : Choice} {e : Performed (Ans op)}
    (hpre : pre (some r) op) (he : perform c l op choice = some e) :
    Sound e.shared (log ++ [.performed i op e.answer]) i (r.after op e.answer) := by
  obtain ⟨more, hmore⟩ := handleIds_grow he
  have hold : Sound e.shared (log ++ [.performed i op e.answer]) i r :=
    h.mono hmore fun _ => List.mem_append_left _
  cases op with
  | allocateId =>
    obtain ⟨answer, shared, locals, spawned⟩ := e
    cases answer with
    | none => exact hold
    | some id =>
      refine ⟨?_, hold.handle⟩
      rintro _ ⟨⟩
      exact .allocated (List.mem_append_right _ (List.mem_singleton_self _))
  | handleId handle =>
    obtain ⟨hid, hsame⟩ := handleId_effect he
    refine ⟨?_, hold.handle⟩
    rintro _ ⟨⟩
    refine hold.owns hpre ?_
    rw [hsame]
    exact hid
  | newHandle stream id channel =>
    obtain ⟨hlength, hids, -⟩ := newHandle_effect he
    refine ⟨hold.id, ?_⟩
    rintro _ ⟨⟩
    refine .inr ⟨id, ?_, hold.id id hpre.2⟩
    rw [hids, show e.answer = (handleIds c).length from hlength]
    exact List.getElem?_concat_length
  | unlockOrder => exact hold.of_eq rfl rfl
  | _ =>
    refine hold.of_eq ?_ ?_
    · simp only [Progress.after]
      split_ifs <;> rfl
    · simp only [Progress.after]
      split_ifs <;> rfl

theorem sound_start (hr : start n = some r) (hn : .started i n ∈ log) : Sound c log i r := by
  cases n with
  | reader => cases hr
  | writer => cases hr
  | keepalive => cases hr
  | close => cases hr
  | cancelRequest id =>
    cases hr
    refine ⟨?_, fun _ => nofun⟩
    rintro _ ⟨⟩
    exact .cleanup (.inl hn)
  | abortStream id =>
    cases hr
    refine ⟨?_, fun _ => nofun⟩
    rintro _ ⟨⟩
    exact .cleanup (.inr hn)
  | _ =>
    cases hr
    exact ⟨fun _ => nofun, fun handle hhandle => .inl ⟨_, hn, hhandle⟩⟩

theorem maintains_invariant : Maintains system protocol (fun _ _ _ => True) Invariant where
  code := verified_code
  perform := by
    intro c log ss i l op choice e h hpre he _
    refine ⟨?_, fun _ _ => rfl⟩
    intro j r hj
    by_cases hji : j = i
    · subst hji
      rw [Function.update_self] at hj
      obtain ⟨r', hr', rfl⟩ := Option.map_eq_some_iff.mp hj
      rw [hr'] at hpre
      exact sound_perform (h j r' hr') hpre he
    · rw [Function.update_of_ne hji] at hj
      obtain ⟨more, hmore⟩ := handleIds_grow he
      exact (h j r hj).mono hmore fun _ => List.mem_append_left _
  discard := by
    intro c log ss l h
    have hids : handleIds (c.discard l).1 = handleIds c ++ [] := by
      rw [List.append_nil]
      exact discard_same c l .handleIds
    exact ⟨fun i r hr => (h i r hr).mono hids fun _ hentry => hentry, fun _ _ => rfl⟩
  started := by
    intro c log ss i n h _ j r hj
    by_cases hji : j = i
    · subst hji
      rw [Function.update_self] at hj
      exact sound_start hj (List.mem_append_right _ (List.mem_singleton_self _))
    · rw [Function.update_of_ne hji] at hj
      exact (h j r hj).mono (List.append_nil _).symm fun _ => List.mem_append_left _
  dropped := fun _ _ _ _ h _ i r hr => (h i r hr).mono (List.append_nil _).symm fun _ =>
    List.mem_append_left _
  external := fun _ _ => rfl

theorem accounted_initial (now : ℕ) :
    Accounted protocol Invariant (Traced.begin (initial now)) := by
  refine ⟨?_, fun _ _ => ⟨rfl, rfl, rfl⟩, fun _ _ => nofun⟩
  exact initial_tasks now (verified_code .reader _ rfl) (verified_code .writer _ rfl)
    (verified_code .keepalive _ rfl)

/-- The handle that a call owns is the one that its history tells of. -/
def Carried (i : ℕ) (log : Log) (l : Locals) : Prop :=
  ∀ handle, l.handle = some handle → ∀ r, protocol.held log i = some r → r.handle = some handle

theorem carries_handle : Carries system Carried where
  nothing := fun _ _ _ => nofun
  others := by
    intro i log more l hown hname h handle hhandle r hr
    rw [held_append hown hname] at hr
    exact h handle hhandle r hr
  perform := by
    intro i log c l op choice e h he handle hhandle r hr
    rw [held_performed, Function.update_self] at hr
    obtain ⟨r', hr', rfl⟩ := Option.map_eq_some_iff.mp hr
    have hframe := (perform_frames choice e he).handle
    cases op with
    | newHandle stream id channel =>
      obtain ⟨-, -, hanswer⟩ := newHandle_effect he
      exact hanswer.symm.trans hhandle
    | allocateId =>
      obtain ⟨answer, shared, locals, spawned⟩ := e
      cases answer <;> exact h handle (hframe rfl handle hhandle) r' hr'
    | handleId _ => exact h handle (hframe rfl handle hhandle) r' hr'
    | unlockOrder => exact h handle (hframe rfl handle hhandle) r' hr'
    | _ =>
      have hold := h handle (hframe rfl handle hhandle) r' hr'
      simp only [Progress.after]
      split_ifs <;> exact hold

variable {op : Op}

theorem calls_of_givenUp {answer : Ans op} (hpre : pre (some r) op)
    (hgiven : (r.after op answer).givenUp = true) : area op = .calls := by
  cases op with
  | newHandle stream id channel =>
    have hgiven : r.givenUp = true := hgiven
    rw [hpre.1] at hgiven
    cases hgiven
  | allocateId => cases answer <;> exact hpre hgiven
  | sendChannel channel item => exact hpre hgiven
  | _ => first | rfl | exact hpre hgiven

theorem calls_touch (h : area op = .calls) : touches op .closed = false ∧
    (touches op .pending = true → ∃ id, op = .removePending id) ∧
    ∀ i channel answer, notifies channel (.performed i op answer : Entry Op Ans Name) = false := by
  cases op with
  | removePending id => exact ⟨rfl, fun _ => ⟨id, rfl⟩, fun _ _ _ => rfl⟩
  | sendChannel channel item => cases item <;> cases h
  | swapClosed => cases h
  | insertPending id channel => cases h
  | lookupPending a remove => cases h
  | takePending => cases h
  | _ => exact ⟨rfl, nofun, fun _ _ _ => rfl⟩

def returned (did : List (Event Op Ans)) : Name → Option (Except IoError Unit)
  | .begin kind code requestNonce deadlineMs payload =>
    (result (begin kind code requestNonce deadlineMs payload).run did).map (Except.map fun _ => ())
  | .request kind code requestNonce deadlineMs payload =>
    (result (request kind code requestNonce deadlineMs payload).run did).map (Except.map fun _ => ())
  | .beginStream code payload deadlineMs =>
    (result (beginStream code payload deadlineMs).run did).map (Except.map fun _ => ())
  | .recv handle => (result (recv handle).run did).map (Except.map fun _ => ())
  | .send handle kind code payload => result (send handle kind code payload).run did
  | .streamRecv handle => (result (streamRecv handle).run did).map (Except.map fun _ => ())
  | .streamSend handle payload => result (streamSend handle payload).run did
  | .streamClose handle => result (streamClose handle).run did
  | _ => none

theorem Ends.forget {α : Type} {s : Option Progress} {x : Except IoError α} (h : Ends s x) :
    Ends s (x.map fun _ => ()) := by
  obtain ⟨r, rfl, hr⟩ := h
  refine ⟨r, rfl, fun hgiven => ?_⟩
  obtain ⟨e, rfl, he⟩ := hr hgiven
  exact ⟨e, rfl, he⟩

theorem ends_of_returned {did : List (Event Op Ans)} {x : Except IoError Unit}
    (h : returned did n = some x) :
    Ends (did.foldl (Discipline.record protocol.toDiscipline) (protocol.start n)) x := by
  cases n with
  | begin kind code requestNonce deadlineMs payload =>
    obtain ⟨y, hy, rfl⟩ := Option.map_eq_some_iff.mp h
    exact (Verified.of_result (verified_begin kind code requestNonce deadlineMs payload) hy).1.forget
  | request kind code requestNonce deadlineMs payload =>
    obtain ⟨y, hy, rfl⟩ := Option.map_eq_some_iff.mp h
    exact (Verified.of_result (verified_request kind code requestNonce deadlineMs payload) hy).forget
  | beginStream code payload deadlineMs =>
    obtain ⟨y, hy, rfl⟩ := Option.map_eq_some_iff.mp h
    exact (Verified.of_result (verified_beginStream code payload deadlineMs) hy).forget
  | recv handle =>
    obtain ⟨y, hy, rfl⟩ := Option.map_eq_some_iff.mp h
    exact ((Verified.of_result (verified_recv (.having handle) handle) hy).ends rfl).forget
  | send handle kind code payload =>
    obtain ⟨id, hleft⟩ := Verified.of_result (verified_send (r := .having handle) rfl kind code
      payload) h
    exact hleft.ends rfl
  | streamRecv handle =>
    obtain ⟨y, hy, rfl⟩ := Option.map_eq_some_iff.mp h
    exact ((Verified.of_result (verified_streamRecv (.having handle) handle) hy).ends rfl).forget
  | streamSend handle payload =>
    obtain ⟨id, hleft⟩ := Verified.of_result (verified_streamSend (r := .having handle) rfl payload) h
    exact hleft.ends rfl
  | streamClose handle =>
    exact Verified.of_result (verified_streamClose (r := .having handle) rfl rfl) h
  | _ => cases h

/-- A step touches nothing but the request of the task that takes it. -/
structure Spares (t u : Run) (i : ℕ) : Prop where
  closed : u.pool.shared.closed = t.pool.shared.closed
  pending : ∀ e ∈ t.pool.shared.pending, e ∈ u.pool.shared.pending ∨ Owns u.pool.shared u.history i e.1
  notified : ∀ channel, Notified u.history channel → Notified t.history channel
  left : ∀ j n, .started j n ∈ u.history → .started j n ∈ t.history ∨
    ∃ id, (n = .cancelRequest id ∨ n = .abortStream id) ∧ Owns u.pool.shared u.history i id

theorem spares_of {u : Run} {i k : ℕ} (added : Log) {names : List Name}
    (hclosed : u.pool.shared.closed = t.pool.shared.closed)
    (hpending : ∀ e ∈ t.pool.shared.pending, e ∈ u.pool.shared.pending ∨
      Owns u.pool.shared u.history i e.1)
    (hhistory : u.history = t.history ++ (added ++ startedFrom k names))
    (hquiet : ∀ entry ∈ added, ∀ channel, notifies channel entry = false)
    (hadded : ∀ entry ∈ added, ∀ j n, entry ≠ .started j n)
    (hnames : ∀ n ∈ names, ∃ id, (n = .cancelRequest id ∨ n = .abortStream id) ∧
      Owns u.pool.shared u.history i id) : Spares t u i where
  closed := hclosed
  pending := hpending
  notified := by
    rintro channel ⟨entry, hentry, hnotifies⟩
    rw [hhistory] at hentry
    obtain hold | hnew := List.mem_append.mp hentry
    · exact ⟨entry, hold, hnotifies⟩
    · obtain hnew | hnew := List.mem_append.mp hnew
      · rw [hquiet entry hnew channel] at hnotifies
        cases hnotifies
      · obtain ⟨_, _, -, rfl⟩ := mem_startedFrom hnew
        cases hnotifies
  left := by
    intro j n hentry
    rw [hhistory] at hentry
    obtain hold | hnew := List.mem_append.mp hentry
    · exact .inl hold
    · obtain hnew | hnew := List.mem_append.mp hnew
      · exact absurd rfl (hadded _ hnew j n)
      · obtain ⟨_, _, hn, ⟨⟩⟩ := mem_startedFrom hnew
        exact .inr (hnames n hn)

theorem spares_discard {i : ℕ} (hheld : protocol.held t.history i = some r)
    (hsound : Sound t.pool.shared t.history i r) (hcarried : Carried i t.history l)
    (prog : Call (Option Name)) (added : Log) (hadded : ∀ entry ∈ added, entry = .dropped i) :
    Spares t ⟨system.continueWith t.pool i l prog,
      t.history ++
        (added ++ startedFrom t.pool.tasks.length (system.discard t.pool.shared l).2)⟩ i := by
  have hpending : (t.pool.shared.discard l).1.pending = t.pool.shared.pending :=
    discard_same t.pool.shared l .pending
  have hids : handleIds (t.pool.shared.discard l).1 = handleIds t.pool.shared ++ [] := by
    rw [List.append_nil]
    exact discard_same t.pool.shared l .handleIds
  refine spares_of added (discard_same t.pool.shared l .closed)
    (fun e he => .inl (hpending.symm ▸ he)) rfl ?_ ?_ ?_
  · intro entry hentry channel
    rw [hadded entry hentry]
    rfl
  · intro entry hentry j n
    rw [hadded entry hentry]
    nofun
  · intro n hn
    obtain ⟨handle, hhandle, id, hid, hname⟩ := discard_aftermath t.pool.shared l n hn
    have howns := hsound.owns (hcarried handle hhandle r hheld) hid
    exact ⟨id, hname, howns.mono hids fun _ => List.mem_append_left _⟩

theorem spares_perform {i : ℕ} (hsound : Sound t.pool.shared t.history i r) {choice : Choice}
    {e : Performed (Ans op)} (hpre : pre (some r) op)
    (he : perform t.pool.shared l op choice = some e)
    (hgiven : (r.after op e.answer).givenUp = true) (tasks : List (Task Op Ans Name Locals)) (k : ℕ) :
    Spares t ⟨⟨e.shared, tasks⟩,
      t.history ++ .performed i op e.answer :: startedFrom k e.spawned⟩ i := by
  obtain ⟨hclosed, hpending, hquiet⟩ := calls_touch (calls_of_givenUp hpre hgiven)
  obtain ⟨hsame, -, hspawned⟩ := perform_frames choice e he
  obtain ⟨more, hmore⟩ := handleIds_grow he
  refine spares_of [.performed i op e.answer] (hsame .closed hclosed) ?_ rfl ?_ ?_ ?_
  · intro entry hentry
    cases htouches : touches op .pending with
    | false =>
      have hunchanged : e.shared.pending = t.pool.shared.pending := hsame .pending htouches
      exact .inl (hunchanged.symm ▸ hentry)
    | true =>
      obtain ⟨id, rfl⟩ := hpending htouches
      rw [show e.shared.pending = without id t.pool.shared.pending from removePending_effect he]
      by_cases hid : entry.1 = id
      · rw [hid]
        exact .inr ((hsound.id id hpre).mono hmore fun _ => List.mem_append_left _)
      · exact .inl (FrameRouting.mem_without.mpr ⟨hentry, hid⟩)
  · intro entry hentry channel
    rw [List.mem_singleton.mp hentry]
    exact hquiet i channel e.answer
  · intro entry hentry j n
    rw [List.mem_singleton.mp hentry]
    nofun
  · intro n hn
    obtain ⟨handle, rfl, id, hid, hname⟩ := hspawned n hn
    exact ⟨id, hname, (hsound.owns hpre hid).mono hmore fun _ => List.mem_append_left _⟩

/-- A call that has given its request up, because one of its timers fired at any point but in the write
stage of `begin`, leaves the connection and the other requests alone and returns `TimedOut`. -/
theorem expiry_spares_others {now : ℕ} {labels : Schedule} {t u : Run} {label : Label Name Choice}
    {i : ℕ} (hrun : Reaches now labels t) (hstep : traced system t label = some u)
    (hactor : label.actor = some i) (hgiven : GivenUp u.history i) :
    Spares t u i ∧
      ∀ n x, startedAs i u.history = some n → returned (own i u.history) n = some x → TimedOut x := by
  have haccounted := maintains_invariant.run_always (accounted_initial now) hrun
  have hcarried := carries_handle.run (initial_tasks now (fun _ => nofun) (fun _ => nofun)
    (fun _ => nofun)) hrun
  obtain ⟨r, hheld, hgiven⟩ := hgiven
  refine ⟨?_, ?_⟩
  · cases moves_of_traced hstep with
    | @performed i choice op k l e htask he =>
      cases hactor
      have hi := (List.getElem?_eq_some_iff.mp htask).1
      rw [← List.singleton_append, ← List.append_assoc, held_startedFrom hi, held_performed,
        Function.update_self] at hheld
      obtain ⟨r', hr', rfl⟩ := Option.map_eq_some_iff.mp hheld
      obtain ⟨hpre, -⟩ := haccounted.programs i _ htask
      rw [hr'] at hpre
      exact spares_perform (haccounted.invariant i r' hr') hpre he hgiven _ _
    | @ended i choice l htask =>
      cases hactor
      have hi := (List.getElem?_eq_some_iff.mp htask).1
      rw [held_startedFrom hi] at hheld
      exact spares_discard hheld (haccounted.invariant i r hheld) (hcarried i _ htask) _ []
        (fun _ => nofun)
    | @resumed i choice n l htask =>
      cases hactor
      have hi := (List.getElem?_eq_some_iff.mp htask).1
      rw [held_startedFrom hi] at hheld
      exact spares_discard hheld (haccounted.invariant i r hheld) (hcarried i _ htask) _ []
        (fun _ => nofun)
    | @dropped i task htask =>
      cases hactor
      have hi := (List.getElem?_eq_some_iff.mp htask).1
      rw [← List.singleton_append, ← List.append_assoc, held_startedFrom hi, held_dropped] at hheld
      exact spares_discard hheld (haccounted.invariant i r hheld) (hcarried i _ htask) _ [.dropped i]
        (fun _ => List.mem_singleton.mp)
    | started hexternal => cases hactor
  · intro n x hname hreturned
    obtain ⟨r', hr', htimedOut⟩ := ends_of_returned hreturned
    rw [held_of_startedAs hname, hr'] at hheld
    cases hheld
    exact htimedOut hgiven

def inFlight : Schedule :=
  .start queryCall :: beginOne 3 ++ writeOne ++ List.replicate 3 (.step 3 .proceed)

def timedCall : Name := .request 3 1 zeroNonce 5 []

def noResponse : Schedule :=
  inFlight ++ .start timedCall :: beginOne 4 ++ writeOne ++ List.replicate 2 (.step 4 .proceed) ++
    .step 4 (.clock 0) :: .step 4 .timedOut :: List.replicate 2 (.step 4 .proceed)

theorem expiry_spares_others_sample : ∃ t u, Reaches 0 noResponse t ∧
    traced system t (.step 4 .proceed) = some u ∧ t.pool.shared.pending = [(1, 0), (2, 1)] ∧
    u.pool.shared.pending = [(1, 0)] ∧ Spares t u 4 := by
  have hfacts : ((runFrom (traced system) (Traced.begin (initial 0)) noResponse).bind fun t : Run =>
      (traced system t (.step 4 .proceed)).map fun u : Run =>
        decide (t.pool.shared.pending = [(1, 0), (2, 1)] ∧ u.pool.shared.pending = [(1, 0)] ∧
          (protocol.held u.history 4).map Progress.givenUp = some true)) = some true := by
            decide +kernel
  obtain ⟨t, hrun, hfacts⟩ := Option.bind_eq_some_iff.mp hfacts
  obtain ⟨u, hstep, hfacts⟩ := Option.map_eq_some_iff.mp hfacts
  obtain ⟨hbefore, hafter, hgiven⟩ := of_decide_eq_true hfacts
  exact ⟨t, u, hrun, hstep, hbefore, hafter,
    (expiry_spares_others hrun hstep rfl (Option.map_eq_some_iff.mp hgiven)).1⟩

def breaks : Entry Op Ans Name → Bool
  | .performed _ .readFrame (.frame _) => false
  | .performed _ .readFrame _ => true
  | .performed _ (.write _) (.error _) => true
  | _ => false

def lateWrite : Schedule :=
  inFlight ++ .start timedCall :: beginOne 4 ++ .step 4 .timedOut :: List.replicate 5
    (.step 4 .proceed) ++ [.step 4 (.order [(1, 0)]), .step 4 .proceed]

theorem late_write_closes_connection : ∃ t, Reaches 0 lateWrite t ∧
    (∀ entry ∈ t.history, breaks entry = false) ∧
    returned (own 4 t.history) timedCall = some (.error ⟨.timedOut, "MST5 write timed out"⟩) ∧
    t.pool.shared.closed = true ∧ t.pool.shared.pending = [] ∧ Notified t.history 0 := by
  have hfacts : ((runFrom (traced system) (Traced.begin (initial 0)) lateWrite).map fun t : Run =>
      decide ((∀ entry ∈ t.history, breaks entry = false) ∧
        returned (own 4 t.history) timedCall = some (.error ⟨.timedOut, "MST5 write timed out"⟩) ∧
        t.pool.shared.closed = true ∧ t.pool.shared.pending = [] ∧ Notified t.history 0)) =
          some true := by
    decide +kernel
  obtain ⟨t, hrun, hfacts⟩ := Option.map_eq_some_iff.mp hfacts
  exact ⟨t, hrun, of_decide_eq_true hfacts⟩

end Mst5Client.RequestDeadlines
