import Mst5Client.ConnectionCalls

set_option autoImplicit false

/-!
# What the connection's programs are composed of

A property that sequencing keeps holds of a program as soon as it holds of the operations of the
areas that the program works in, and of `fail` where the program may fail the connection.
-/
namespace Mst5Client.ConnectionPrograms
open ByteOrder IoResult TaskPrograms ConnectionState ConnectionCalls

inductive Area where
  | calls
  | registering
  | closing
  | reading
  | writing
deriving DecidableEq

def area : Op → Area
  | .newChannel | .allocateId | .insertPending _ _ | .newHandle _ _ _ => .registering
  | .swapClosed | .takePending | .sendChannel _ (.failed _) => .closing
  | .readFrame | .lookupPending _ _ | .sendChannel _ (.frame _) | .broadcast _ => .reading
  | .recvWriter | .write _ | .complete _ _ | .dropCommand _ | .endWriter => .writing
  | _ => .calls

/-- The property is kept by sequencing and holds of the operations that every call may use. -/
structure Covers (K : ∀ α : Type, Call α → Prop) : Prop extends Compositional K where
  calls : ∀ op, area op = .calls → K _ (Prog.perform op)

def CoversArea (K : ∀ α : Type, Call α → Prop) (a : Area) : Prop :=
  ∀ op, area op = a → K _ (Prog.perform op)

def CoversFail (K : ∀ α : Type, Call α → Prop) : Prop := ∀ message, K _ (fail message)

section Frames
variable {K : ∀ α : Type, Call α → Prop}

def plainCall : Op → Bool
  | .lockOrder | .unlockOrder | .sendWriter _ => false
  | op => area op = .calls

def routineKinds : List UInt8 := [kindPong, kindCancel, kindStreamData, kindStreamEnd, kindStreamAbort]

structure CoversFrames (K : ∀ α : Type, Call α → Prop) (Q : Frame → Prop) :
    Prop extends Compositional K where
  calls : ∀ op, plainCall op = true → K _ (Prog.perform op)
  frames : ∀ frame, Q frame → K _ (Prog.perform (.sendWriter frame))
  routine : ∀ frame : Frame, frame.kind ∈ routineKinds ∨ frame.kind = kindPing ∧ frame.id = 0 → Q frame

def quietCall : Op → Bool
  | .swapActive _ => false
  | op => plainCall op

/-- As `CoversFrames`, without the operation that deactivates a handle. -/
structure CoversQuiet (K : ∀ α : Type, Call α → Prop) (Q : Frame → Prop) :
    Prop extends Compositional K where
  calls : ∀ op, quietCall op = true → K _ (Prog.perform op)
  frames : ∀ frame, Q frame → K _ (Prog.perform (.sendWriter frame))
  routine : ∀ frame : Frame, frame.kind ∈ routineKinds ∨ frame.kind = kindPing ∧ frame.id = 0 → Q frame

structure CoversHandles (K : ∀ α : Type, Call α → Prop) : Prop where
  recv : ∀ handle, K _ (recv handle).run
  remove : ∀ handle, K _ (remove handle)
  cancel : ∀ handle, K _ (cancel handle)
  streamClose : ∀ handle, K _ (streamClose handle).run

theorem plainCall_of_quietCall {op : Op} (h : quietCall op = true) : plainCall op = true := by
  cases op <;> first | exact h | cases h

theorem area_of_plainCall {op : Op} (h : plainCall op = true) : area op = .calls := by
  cases op <;> first | rfl | cases h | exact of_decide_eq_true h

theorem Covers.calling (h : Covers K) : CoversFrames K fun _ => True where
  toCompositional := h.toCompositional
  calls := fun op hop => h.calls op (area_of_plainCall hop)
  frames := fun frame _ => h.calls (.sendWriter frame) rfl
  routine := fun _ _ => trivial

theorem CoversHandles.settle (h : CoversHandles K) (handle : ℕ) (error : IoError) :
    K _ (settle handle error) := by
  unfold ConnectionCalls.settle
  split_ifs
  · exact h.cancel handle
  · exact h.remove handle

theorem CoversFrames.quiet {Q : Frame → Prop} (h : CoversFrames K Q) : CoversQuiet K Q where
  toCompositional := h.toCompositional
  calls := fun op hop => h.calls op (plainCall_of_quietCall hop)
  frames := h.frames
  routine := h.routine

theorem new_ok {kind : UInt8} {code id : ℕ} {payload : Bytes} {frame : Frame}
    (h : Frame.new kind code id payload = .ok frame) : frame.kind = kind ∧ frame.id = id := by
  simp only [Frame.new] at h
  split_ifs at h
  cases h
  exact ⟨rfl, rfl⟩

end Frames

section Programs
variable {K : ∀ α : Type, Call α → Prop} {Q : Frame → Prop} (h : CoversQuiet K Q) {α : Type}
include h

theorem CoversQuiet.throw (e : IoError) : K _ (throw e : Attempt α).run := h.ret _

theorem CoversQuiet.ensure (b : Bool) (e : IoError) : K _ (ensure b e).run := by
  cases b with
  | true => exact h.ret _
  | false => exact h.ret _

theorem CoversQuiet.fromExcept (x : Except IoError α) : K _ (fromExcept x).run := h.ret x

theorem CoversQuiet.ignore {p : Attempt α} (hp : K _ p.run) : K _ (ignore p) :=
  h.bind hp fun _ => h.ret _

theorem CoversQuiet.op (op : Op) (hop : quietCall op = true) : K _ (Prog.perform op) :=
  h.calls op hop

theorem CoversQuiet.liftOp (op : Op) (hop : quietCall op = true) :
    K _ (ExceptT.lift (Prog.perform op) : Attempt (Ans op)).run := h.lift (h.calls op hop)

theorem CoversQuiet.stageTimeout (deadlineMs : ℕ) : K _ (stageTimeout deadlineMs).run :=
  h.op (.stageTimeout deadlineMs) rfl

theorem CoversQuiet.enqueueFrame (frame : Frame) (hframe : Q frame := by trivial) :
    K _ (enqueueFrame frame).run := by
  refine h.tryBind (h.liftOp (.acquireBudget _) rfl) fun granted => ?_
  refine h.tryBind (h.ensure _ _) fun _ => ?_
  refine h.tryBind (h.lift (h.frames frame hframe)) fun sent => ?_
  cases sent with
  | timedOut => exact h.throw _
  | closed => exact h.throw _
  | sent complete =>
    refine h.tryBind (h.liftOp (.awaitComplete complete true) rfl) fun completion => ?_
    cases completion with
    | timedOut => exact h.throw _
    | dropped => exact h.throw _
    | done result => exact h.fromExcept result

theorem CoversQuiet.enqueueClose : K _ enqueueClose.run := by
  refine h.tryBind (h.liftOp .sendClose rfl) fun sent => ?_
  cases sent with
  | timedOut => exact h.throw _
  | closed => exact h.throw _
  | sent complete =>
    refine h.tryBind (h.liftOp (.awaitComplete complete false) rfl) fun completion => ?_
    cases completion with
    | timedOut => exact h.throw _
    | dropped => exact h.throw _
    | done result => exact h.fromExcept result

theorem CoversQuiet.writeControl (frame : Frame) (hframe : Q frame := by trivial) :
    K _ (writeControl frame).run := by
  refine h.tryBind (h.liftOp .loadClosed rfl) fun closed => ?_
  exact h.tryBind (h.ensure _ _) fun _ => h.enqueueFrame frame hframe

theorem CoversQuiet.withNew {kind : UInt8} {code id : ℕ} {payload : Bytes} {f : Frame → Attempt α}
    (hf : ∀ frame, frame.kind = kind → frame.id = id → K _ (f frame).run) :
    K _ (ConnectionCalls.fromExcept (Frame.new kind code id payload) >>= f).run := by
  cases hnew : Frame.new kind code id payload with
  | error e => exact h.ret _
  | ok frame =>
    obtain ⟨hkind, hid⟩ := new_ok hnew
    exact hf frame hkind hid

theorem CoversQuiet.writeNew (kind : UInt8) (code id : ℕ) (payload : Bytes)
    (hframe : ∀ frame, frame.kind = kind → frame.id = id → Q frame := by intros; trivial) :
    K _ (writeNew kind code id payload).run :=
  h.withNew fun frame hkind hid => h.writeControl frame (hframe frame hkind hid)

theorem CoversQuiet.writeRoutine {kind : UInt8} (hkind : kind ∈ routineKinds) (code id : ℕ)
    (payload : Bytes) : K _ (ConnectionCalls.writeNew kind code id payload).run := by
  refine h.writeNew kind code id payload fun frame hframe _ => h.routine frame (.inl ?_)
  rw [hframe]
  exact hkind

theorem CoversQuiet.cancelId (id : ℕ) : K _ (cancelId id) :=
  h.bind (h.op (.removePending id) rfl) fun _ => h.ignore (h.writeRoutine (by decide) _ _ _)

theorem CoversQuiet.send (handle : ℕ) (kind : UInt8) (code : ℕ) (payload : Bytes)
    (hkind : ∀ frame, frame.kind = kind → Q frame := by intros; trivial) :
    K _ (send handle kind code payload).run :=
  h.tryBind (h.liftOp (.handleId handle) rfl) fun _ => h.writeNew _ _ _ _ fun frame hframe _ =>
    hkind frame hframe

theorem CoversQuiet.abort (hhandles : CoversHandles K) (handle status : ℕ) :
    K _ (abort handle status) := by
  refine h.bind (h.op (.isActive handle) rfl) fun active => ?_
  cases active with
  | true =>
    refine h.bind (h.ignore (h.send _ _ _ _ fun frame hframe => h.routine frame (.inl ?_))) fun _ =>
      hhandles.remove handle
    rw [hframe]
    decide
  | false => exact h.ret _

theorem CoversQuiet.streamRecv (handle : ℕ) : K _ (streamRecv handle).run := by
  refine h.tryBind (h.liftOp (.recvHandle handle) rfl) fun received => ?_
  cases received with
  | item item =>
    cases item with
    | frame a => exact h.ret _
    | failed message => exact h.throw _
  | closed => exact h.throw _
  | timedOut => exact h.throw _

theorem CoversQuiet.streamSend (handle : ℕ) (payload : Bytes) :
    K _ (streamSend handle payload).run := by
  refine h.tryBind (h.liftOp (.isActive handle) rfl) fun active => ?_
  refine h.tryBind (h.ensure _ _) fun _ => ?_
  exact h.tryBind (h.liftOp (.handleId handle) rfl) fun _ => h.writeRoutine (by decide) _ _ _

theorem CoversQuiet.abortStream (id : ℕ) : K _ (abortStream id) :=
  h.bind (h.ignore (h.writeRoutine (by decide) _ _ _)) fun _ => h.op (.removePending id) rfl

theorem CoversQuiet.failAll (hclosing : CoversArea K .closing) (message : String)
    (entries : List (ℕ × ℕ)) : K _ (failAll message entries) := by
  induction entries with
  | nil => exact h.ret _
  | cons e entries ih => exact h.bind (hclosing (.sendChannel e.2 (.failed message)) rfl) fun _ => ih

theorem CoversQuiet.failPending (hclosing : CoversArea K .closing) (message : String) :
    K _ (failPending message) :=
  h.bind (hclosing .takePending rfl) fun entries => h.failAll hclosing message entries

theorem CoversQuiet.fail (hclosing : CoversArea K .closing) (message : String) :
    K _ (fail message) := by
  refine h.bind (hclosing .swapClosed rfl) fun closed => ?_
  cases closed with
  | true => exact h.ret _
  | false => exact h.failPending hclosing message

theorem CoversQuiet.close (hclosing : CoversArea K .closing) : K _ close.run := by
  refine h.tryBind (h.lift (hclosing .swapClosed rfl)) fun closed => ?_
  cases closed with
  | true => exact h.ret _
  | false =>
    refine h.tryBind (h.lift h.enqueueClose) fun result => ?_
    exact h.tryBind (h.lift (h.failPending hclosing _)) fun _ => h.fromExcept result

theorem CoversQuiet.dispatch (hreading : CoversArea K .reading) (a : Arrived) :
    K _ (dispatch a).run := by
  unfold ConnectionCalls.dispatch
  split_ifs
  · exact h.writeRoutine (by decide) _ _ _
  · refine h.lift (h.bind (hreading (.lookupPending a _) rfl) fun sender => ?_)
    cases sender with
    | some channel => exact hreading (.sendChannel channel (.frame a)) rfl
    | none =>
      change K _ (if a.frame.kind = kindEventBatch then broadcast a else pure ())
      split_ifs
      · exact hreading (.broadcast a) rfl
      · exact h.ret _
  · exact h.throw _

theorem CoversQuiet.failWeak (hfail : CoversFail K) (message : String) :
    K _ (failWeak message) := by
  refine h.bind (h.op .upgrade rfl) fun alive => ?_
  cases alive with
  | true => exact hfail message
  | false => exact h.ret _

theorem CoversQuiet.readerLoop (hreading : CoversArea K .reading) (hfail : CoversFail K) :
    K _ readerLoop := by
  refine h.bind (hreading .readFrame rfl) fun result => ?_
  cases result with
  | closed => exact h.bind (h.failWeak hfail _) fun _ => h.ret _
  | failed message => exact h.bind (h.failWeak hfail _) fun _ => h.ret _
  | frame a =>
    refine h.bind (h.op .upgrade rfl) fun alive => ?_
    cases alive with
    | false => exact h.ret _
    | true =>
      refine h.bind (h.dispatch hreading a) fun outcome => ?_
      cases outcome with
      | ok _ => exact h.ret _
      | error error => exact h.bind (hfail _) fun _ => h.ret _

theorem CoversQuiet.writerLoop (hwriting : CoversArea K .writing) (hfail : CoversFail K) :
    K _ writerLoop := by
  refine h.bind (hwriting .recvWriter rfl) fun command => ?_
  cases command with
  | none => exact h.bind (hwriting .endWriter rfl) fun _ => h.ret _
  | some command =>
    refine h.bind (hwriting (.write command) rfl) fun result => ?_
    refine h.bind (hwriting (.complete command result) rfl) fun _ => ?_
    cases result with
    | ok _ => exact h.bind (hwriting (.dropCommand command) rfl) fun _ => h.ret _
    | error error =>
      refine h.bind (h.failWeak hfail _) fun _ => ?_
      refine h.bind (hwriting (.dropCommand command) rfl) fun _ => ?_
      exact h.bind (hwriting .endWriter rfl) fun _ => h.ret _

theorem CoversQuiet.keepaliveLoop (hfail : CoversFail K) : K _ keepaliveLoop := by
  refine h.bind (h.op .upgrade rfl) fun alive => ?_
  cases alive with
  | false => exact h.ret _
  | true =>
    refine h.bind (h.op .loadClosed rfl) fun closed => ?_
    cases closed with
    | true => exact h.ret _
    | false =>
      change K _ (keepAlive (Frame.new kindPing 0 0 []))
      cases hping : Frame.new kindPing 0 0 [] with
      | error _ => exact h.ret _
      | ok ping =>
        refine h.bind (h.writeControl ping (h.routine ping (.inr (new_ok hping)))) fun outcome => ?_
        cases outcome with
        | ok _ => exact h.ret _
        | error error => exact h.bind (hfail _) fun _ => h.ret _

theorem CoversQuiet.toplevel {x : Call α} (hx : K _ x) : K _ (toplevel x) :=
  h.bind hx fun _ => h.ret _

theorem CoversQuiet.handOver {x : Attempt ℕ} (hx : K _ x.run) : K _ (handOver x) := by
  refine h.bind hx fun result => ?_
  cases result with
  | ok handle => exact h.bind (h.op .giveHandle rfl) fun _ => h.ret _
  | error e => exact h.ret _

theorem CoversQuiet.reserve (hlock : K _ (Prog.perform .lockOrder))
    (hchannel : K _ (Prog.perform .newChannel)) (hid : K _ (Prog.perform .allocateId))
    (deadlineMs : ℕ) (slotMessage writerMessage : String) :
    K _ (reserve deadlineMs slotMessage writerMessage).run := by
  refine h.tryBind (h.stageTimeout _) fun _ => ?_
  refine h.tryBind (h.liftOp .acquirePermit rfl) fun granted => ?_
  refine h.tryBind (h.ensure _ _) fun _ => ?_
  refine h.tryBind (h.liftOp .loadClosed rfl) fun closed => ?_
  refine h.tryBind (h.ensure _ _) fun _ => ?_
  refine h.tryBind (h.lift hchannel) fun channel => ?_
  refine h.tryBind (h.stageTimeout _) fun _ => ?_
  refine h.tryBind (h.lift hlock) fun locked => ?_
  refine h.tryBind (h.ensure _ _) fun _ => ?_
  refine h.tryBind (h.liftOp .loadClosed rfl) fun closed => ?_
  refine h.tryBind (h.ensure _ _) fun _ => ?_
  refine h.tryBind (h.lift hid) fun id => ?_
  cases id with
  | none => exact h.throw _
  | some id => exact h.ret _

theorem CoversQuiet.request (hhandles : CoversHandles K) {kind : UInt8} {code : ℕ}
    {requestNonce : Block 16} {deadlineMs : ℕ} {payload : Bytes}
    (hbegin : K _ (begin kind code requestNonce deadlineMs payload).run) :
    K _ (request kind code requestNonce deadlineMs payload).run := by
  refine h.tryBind hbegin fun handle => ?_
  refine h.tryBind (h.stageTimeout _) fun _ => ?_
  refine h.tryBind (h.lift (hhandles.recv handle)) fun result => ?_
  cases result with
  | ok a => exact h.ret _
  | error error => exact h.tryBind (h.lift (hhandles.settle handle error)) fun _ => h.throw _

def Name.opening : Name → Bool
  | .begin _ _ _ _ _ | .request _ _ _ _ _ | .beginStream _ _ _ => true
  | _ => false

theorem CoversQuiet.code (hhandles : CoversHandles K) (hreading : CoversArea K .reading)
    (hfail : CoversFail K) (hclose : K _ ConnectionCalls.close.run) {n : Name} (hn : n ≠ .writer)
    (hopening : Name.opening n = false)
    (hsend : ∀ handle kind code payload, n = .send handle kind code payload →
      ∀ frame : Frame, frame.kind = kind → Q frame) : K _ (code n) := by
  cases n with
  | reader => exact h.readerLoop hreading hfail
  | writer => exact absurd rfl hn
  | keepalive => exact h.keepaliveLoop hfail
  | begin kind code requestNonce deadlineMs payload => cases hopening
  | request kind code requestNonce deadlineMs payload => cases hopening
  | beginStream code payload deadlineMs => cases hopening
  | close => exact h.toplevel hclose
  | recv handle => exact h.toplevel (hhandles.recv handle)
  | send handle kind code payload =>
    exact h.toplevel (h.send handle kind code payload (hsend handle kind code payload rfl))
  | abort handle status => exact h.toplevel (h.abort hhandles handle status)
  | cancel handle => exact h.toplevel (hhandles.cancel handle)
  | remove handle => exact h.toplevel (hhandles.remove handle)
  | streamRecv handle => exact h.toplevel (h.streamRecv handle)
  | streamSend handle payload => exact h.toplevel (h.streamSend handle payload)
  | streamClose handle => exact h.toplevel (hhandles.streamClose handle)
  | dropHandle handle => exact h.toplevel (h.op (.dropHandle handle) rfl)
  | cancelRequest id => exact h.toplevel (h.cancelId id)
  | abortStream id => exact h.toplevel (h.abortStream id)

end Programs

/-- For disciplines that restrict the channel, the order lock and the id only. -/
theorem verified_afterReserve {ρ β : Type} {D : Discipline Op Ans Name ρ} {F : Frame → Prop}
    (hK : CoversQuiet (fun _ p => Neutral D p) F) {r : ρ} {Q : ρ → Except IoError β → Prop}
    {f : ℕ × ℕ → Attempt β} {deadlineMs : ℕ} {slotMessage writerMessage : String}
    (herror : ∀ r e, Q r (.error e)) (hchannel : D.pre r .newChannel)
    (hreserved : ∀ channel, D.pre (D.post r .newChannel channel) .lockOrder ∧
      D.pre (D.post (D.post r .newChannel channel) .lockOrder true) .allocateId ∧
      ∀ id, Verified D (D.post (D.post (D.post r .newChannel channel) .lockOrder true) .allocateId
        (some id)) Q (f (id, channel)).run) :
    Verified D r Q (reserve deadlineMs slotMessage writerMessage >>= f).run := by
  have hstop : ∀ (r : ρ) (e : IoError) (x : ℕ × ℕ), (.error e : Except IoError (ℕ × ℕ)) = .ok x →
      Verified D r Q (f x).run := fun _ _ _ => nofun
  refine Verified.tryBind (Q := fun r' x => ∀ y, x = .ok y → Verified D r' Q (f y).run) ?_
    (fun r y h => h y rfl) (fun r e _ => herror r e)
  refine Neutral.andTry (hK.stageTimeout _) (fun _ => ?_) (hstop r)
  refine Neutral.andTry (hK.liftOp .acquirePermit rfl) (fun granted => ?_) (hstop r)
  refine Neutral.andTry (hK.ensure _ _) (fun _ => ?_) (hstop r)
  refine Neutral.andTry (hK.liftOp .loadClosed rfl) (fun closed => ?_) (hstop r)
  refine Neutral.andTry (hK.ensure _ _) (fun _ => ?_) (hstop r)
  refine ⟨hchannel, fun channel => ?_⟩
  obtain ⟨hlock, hid, hf⟩ := hreserved channel
  refine Neutral.andTry (hK.stageTimeout _) (fun _ => ?_) (hstop _)
  refine ⟨hlock, fun locked => ?_⟩
  cases locked with
  | false => exact hstop _ _
  | true =>
    refine Neutral.andTry (hK.ensure _ _) (fun _ => ?_) (hstop _)
    refine Neutral.andTry (hK.liftOp .loadClosed rfl) (fun closed => ?_) (hstop _)
    refine Neutral.andTry (hK.ensure _ _) (fun _ => ?_) (hstop _)
    refine ⟨hid, fun id => ?_⟩
    cases id with
    | none => exact hstop _ _
    | some id =>
      rintro _ ⟨⟩
      exact hf id

section Handles
variable {K : ∀ α : Type, Call α → Prop} {Q : Frame → Prop} (h : CoversFrames K Q)
include h

theorem CoversFrames.recv (handle : ℕ) : K _ (recv handle).run := by
  refine h.tryBind (h.quiet.liftOp (.recvHandle handle) rfl) fun received => ?_
  have deactivate : K _ (ExceptT.lift (swapActive handle) : Attempt Bool).run :=
    h.lift (h.calls (.swapActive handle) rfl)
  cases received with
  | item item =>
    cases item with
    | frame a =>
      change K _ (if isTerminalResponse a.frame.kind = true then _ else _)
      split_ifs
      · exact h.tryBind deactivate fun _ => h.ret _
      · exact h.ret _
    | failed message => exact h.tryBind deactivate fun _ => h.quiet.throw _
  | closed => exact h.tryBind deactivate fun _ => h.quiet.throw _
  | timedOut => exact h.quiet.throw _

theorem CoversFrames.remove (handle : ℕ) : K _ (remove handle) := by
  refine h.bind (h.quiet.op (.isActive handle) rfl) fun active => ?_
  cases active with
  | true =>
    refine h.bind (h.quiet.op (.handleId handle) rfl) fun id => ?_
    refine h.bind (h.quiet.op (.removePending id) rfl) fun _ => ?_
    exact h.bind (h.calls (.swapActive handle) rfl) fun _ => h.ret _
  | false => exact h.ret _

theorem CoversFrames.cancel (handle : ℕ) : K _ (cancel handle) := by
  refine h.bind (h.quiet.op (.isActive handle) rfl) fun active => ?_
  cases active with
  | true =>
    refine h.bind (h.quiet.op (.handleId handle) rfl) fun id => ?_
    refine h.bind (h.quiet.cancelId id) fun _ => ?_
    exact h.bind (h.calls (.swapActive handle) rfl) fun _ => h.ret _
  | false => exact h.ret _

theorem CoversFrames.streamClose (handle : ℕ) : K _ (streamClose handle).run := by
  refine h.tryBind (h.lift (h.calls (.swapActive handle) rfl)) fun active => ?_
  cases active with
  | true =>
    refine h.tryBind (h.quiet.liftOp (.handleId handle) rfl) fun id => ?_
    refine h.quiet.withNew fun frame hkind _ => ?_
    refine h.tryBind (h.lift (h.quiet.writeControl frame
      (h.routine frame (.inl (by rw [hkind]; decide)))))
      fun result => ?_
    exact h.tryBind (h.quiet.liftOp (.removePending id) rfl) fun _ => h.quiet.fromExcept _
  | false => exact h.ret _

theorem CoversFrames.handles : CoversHandles K := ⟨h.recv, h.remove, h.cancel, h.streamClose⟩

end Handles

section Requests
variable {K : ∀ α : Type, Call α → Prop} (h : Covers K)
include h

theorem Covers.reserve (hregistering : CoversArea K .registering) (deadlineMs : ℕ)
    (slotMessage writerMessage : String) : K _ (reserve deadlineMs slotMessage writerMessage).run :=
  h.calling.quiet.reserve (h.calls .lockOrder rfl) (hregistering .newChannel rfl)
    (hregistering .allocateId rfl) _ _ _

theorem Covers.begin (hregistering : CoversArea K .registering) (hfail : CoversFail K)
    (kind : UInt8) (code : ℕ) (requestNonce : Block 16) (deadlineMs : ℕ) (payload : Bytes) :
    K _ (begin kind code requestNonce deadlineMs payload).run := by
  refine h.tryBind (h.reserve hregistering _ _ _) ?_
  rintro ⟨id, channel⟩
  refine h.tryBind (h.calling.quiet.fromExcept _) fun frame => ?_
  refine h.tryBind (h.lift (hregistering (.insertPending id channel) rfl)) fun _ => ?_
  refine h.tryBind (h.lift (hregistering (.newHandle false id channel) rfl)) fun handle => ?_
  refine h.tryBind (h.calling.quiet.stageTimeout _) fun _ => ?_
  refine h.tryBind (h.lift (h.calling.quiet.enqueueFrame frame)) fun result => ?_
  cases result with
  | error error =>
    refine h.tryBind (h.lift (h.calling.remove handle)) fun _ => ?_
    exact h.tryBind (h.lift (hfail _)) fun _ => h.calling.quiet.throw _
  | ok _ => exact h.tryBind (h.lift (h.calls .unlockOrder rfl)) fun _ => h.ret _

theorem Covers.request (hregistering : CoversArea K .registering) (hfail : CoversFail K)
    (kind : UInt8) (code : ℕ) (requestNonce : Block 16) (deadlineMs : ℕ) (payload : Bytes) :
    K _ (request kind code requestNonce deadlineMs payload).run :=
  h.calling.quiet.request h.calling.handles (h.begin hregistering hfail kind code requestNonce
    deadlineMs payload)

theorem Covers.beginStream (hregistering : CoversArea K .registering) (code : ℕ) (payload : Bytes)
    (deadlineMs : ℕ) : K _ (beginStream code payload deadlineMs).run := by
  refine h.tryBind (h.reserve hregistering _ _ _) ?_
  rintro ⟨id, channel⟩
  refine h.tryBind (h.lift (hregistering (.insertPending id channel) rfl)) fun _ => ?_
  refine h.tryBind (h.calling.quiet.fromExcept _) fun frame => ?_
  refine h.tryBind (h.lift (h.calling.quiet.enqueueFrame frame)) fun result => ?_
  cases result with
  | error error => exact h.tryBind (h.calling.quiet.liftOp (.removePending id) rfl) fun _ =>
    h.calling.quiet.throw _
  | ok _ =>
    refine h.tryBind (h.lift (h.calls .unlockOrder rfl)) fun _ => ?_
    exact h.lift (hregistering (.newHandle true id channel) rfl)

theorem Covers.code (hregistering : CoversArea K .registering) (hreading : CoversArea K .reading)
    (hfail : CoversFail K) (hclose : K _ ConnectionCalls.close.run) {n : Name} (hn : n ≠ .writer) :
    K _ (code n) := by
  cases hopening : Name.opening n with
  | false =>
    exact h.calling.quiet.code h.calling.handles hreading hfail hclose hn hopening
      fun _ _ _ _ _ _ _ => trivial
  | true =>
    cases n with
    | begin kind code requestNonce deadlineMs payload =>
      exact h.calling.quiet.handOver (h.begin hregistering hfail kind code requestNonce deadlineMs
        payload)
    | request kind code requestNonce deadlineMs payload =>
      exact h.calling.quiet.toplevel (h.request hregistering hfail kind code requestNonce deadlineMs
        payload)
    | beginStream code payload deadlineMs =>
      exact h.calling.quiet.handOver (h.beginStream hregistering code payload deadlineMs)
    | _ => cases hopening

end Requests

def GoesOnWith (n : Name) (next : Option Name) : Prop := ∀ m ∈ next, m = n

theorem ends (n : Name) : GoesOnWith n none := nofun

theorem goesOn (n : Name) : GoesOnWith n (some n) := by
  rintro _ ⟨⟩
  rfl

theorem returns_toplevel (n : Name) {α : Type} (x : Call α) : Returns (GoesOnWith n) (toplevel x) :=
  Returns.after x fun _ => ends n

theorem returns_handOver (n : Name) (x : Attempt ℕ) : Returns (GoesOnWith n) (handOver x) := by
  refine Returns.after x.run fun result => ?_
  cases result with
  | ok handle => exact fun _ => ends n
  | error e => exact ends n

theorem returns_readerLoop : Returns (GoesOnWith .reader) readerLoop := by
  intro result
  cases result with
  | closed => exact Returns.after (failWeak _) fun _ => ends _
  | failed message => exact Returns.after (failWeak _) fun _ => ends _
  | frame a =>
    intro alive
    cases alive with
    | false => exact ends _
    | true =>
      refine Returns.after (dispatch a).run fun outcome => ?_
      cases outcome with
      | ok _ => exact goesOn _
      | error error => exact Returns.after (fail _) fun _ => ends _

theorem returns_writerLoop : Returns (GoesOnWith .writer) writerLoop := by
  intro command
  cases command with
  | none => exact fun _ => ends _
  | some command =>
    intro result _
    cases result with
    | ok _ => exact fun _ => goesOn _
    | error error => exact Returns.after (failWeak _) fun _ _ _ => ends _

theorem returns_keepaliveLoop : Returns (GoesOnWith .keepalive) keepaliveLoop := by
  intro alive
  cases alive with
  | false => exact ends _
  | true =>
    intro closed
    cases closed with
    | true => exact ends _
    | false =>
      change Returns (GoesOnWith .keepalive) (keepAlive (Frame.new kindPing 0 0 []))
      cases Frame.new kindPing 0 0 [] with
      | error _ => exact goesOn _
      | ok ping =>
        refine Returns.after (writeControl ping).run fun outcome => ?_
        cases outcome with
        | ok _ => exact goesOn _
        | error error => exact Returns.after (fail _) fun _ => ends _

theorem returns_code (n : Name) : Returns (GoesOnWith n) (code n) := by
  cases n with
  | reader => exact returns_readerLoop
  | writer => exact returns_writerLoop
  | keepalive => exact returns_keepaliveLoop
  | begin kind code requestNonce deadlineMs payload => exact returns_handOver _ _
  | beginStream code payload deadlineMs => exact returns_handOver _ _
  | _ => exact returns_toplevel _ _

theorem initial_tasks (now : ℕ) {P : ℕ → Task Op Ans Name Locals → Prop}
    (hreader : P 0 (system.task .reader)) (hwriter : P 1 (system.task .writer))
    (hkeepalive : P 2 (system.task .keepalive)) (i : ℕ) (t : Task Op Ans Name Locals)
    (h : (initial now).tasks[i]? = some t) : P i t := by
  match i with
  | 0 =>
    cases h
    exact hreader
  | 1 =>
    cases h
    exact hwriter
  | 2 =>
    cases h
    exact hkeepalive
  | i + 3 => cases h

end Mst5Client.ConnectionPrograms
