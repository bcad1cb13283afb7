import Mst5Client.ConnectionPrograms
import Mst5Client.FrameRouting

set_option autoImplicit false

/-!
# What a task may do with ids, channels and frames

An id is registered only by the task that allocated it and with the channel that this task created.
-/
namespace Mst5Client.RoutingDiscipline
open ByteOrder IoResult TaskPrograms ConnectionState ConnectionCalls ConnectionPrograms FrameRouting

structure Owned where
  reader : Option Reading
  id : Option ℕ
  channel : Option ℕ
  /-- Registered, but without a handle. -/
  registered : Option (ℕ × ℕ)

def Owned.nothing : Owned := ⟨none, none, none, none⟩

def Owned.Settled (r : Owned) : Prop :=
  ∃ reading, r.reader = some reading ∧ ∀ a, reading = .missed a → a.frame.kind ≠ kindEventBatch

def pre (r : Owned) : Op → Prop
  | .insertPending id channel => r.id = some id ∧ r.channel = some channel
  | .newHandle _ id channel => r.registered = some (id, channel)
  | .readFrame => r.Settled
  | .lookupPending a remove => r.reader = some (.read a) ∧ remove = isTerminalResponse a.frame.kind
  | .sendChannel channel (.frame a) => r.reader = some (.routed a channel)
  | .broadcast a => r.reader = some (.missed a) ∧ a.frame.kind = kindEventBatch
  | _ => True

def post (r : Owned) : (op : Op) → Ans op → Owned
  | .newChannel, n => { r with channel := some n }
  | .allocateId, some id => { r with id := some id }
  | .insertPending id channel, _ =>
    { r with id := none, channel := none, registered := some (id, channel) }
  | .newHandle _ _ _, _ => { r with registered := none }
  | .readFrame, .frame a => { r with reader := some (.read a) }
  | .lookupPending a _, sender => { r with reader := some (.found a sender) }
  | .sendChannel _ (.frame _), _ => { r with reader := some .idle }
  | .broadcast _, _ => { r with reader := some .idle }
  | _, _ => r

def ready : Name → Owned → Prop
  | .reader, r => r.Settled
  | _, _ => True

def discipline : Discipline Op Ans Name Owned := ⟨pre, post, Owned.nothing, ready⟩

def plain : Op → Bool
  | .newChannel | .allocateId | .insertPending _ _ | .newHandle _ _ _ | .readFrame | .lookupPending _ _
  | .sendChannel _ (.frame _) | .broadcast _ => false
  | _ => true

theorem post_plain {op : Op} (h : plain op = true) (r : Owned) (a : Ans op) : post r op a = r := by
  cases op <;> first | rfl | (rename_i item; cases item <;> first | rfl | cases h) | cases h

theorem neutral_op (op : Op) (h : plain op = true) :
    Neutral discipline (Prog.perform op : Call (Ans op)) := by
  refine Neutral.perform (fun r => ?_) (post_plain h)
  cases op <;> first | trivial | (rename_i item; cases item <;> trivial)

theorem plain_of_area {op : Op} (h : area op ≠ .registering) (h' : area op ≠ .reading) :
    plain op = true := by
  cases op <;> first | rfl | exact absurd rfl h | exact absurd rfl h' | skip
  rename_i item
  cases item with
  | frame a => exact absurd rfl h'
  | failed message => rfl

theorem neutral_area {a : Area} (h : a ≠ .registering) (h' : a ≠ .reading) :
    CoversArea (fun _ p => Neutral discipline p) a := by
  rintro op rfl
  exact neutral_op op (plain_of_area h h')

theorem neutral_calls : CoversFrames (fun _ p => Neutral discipline p) fun _ => True :=
  Covers.calling ⟨neutral_compositional discipline, neutral_area nofun nofun⟩

theorem neutral_fail : CoversFail fun _ p => Neutral discipline p :=
  neutral_calls.quiet.fail (neutral_area nofun nofun)

theorem verified_stop (r : Owned) : Obeys discipline r (pure none : Call (Option Name)) :=
  fun m hm => by cases hm

theorem verified_of_neutral {α : Type} {p : Call α} (h : Neutral discipline p) (r : Owned) :
    Verified discipline r (fun _ _ => True) p := (h r).mono fun _ _ _ => trivial

theorem verified_begin (r : Owned) (kind : UInt8) (code : ℕ) (requestNonce : Block 16)
    (deadlineMs : ℕ) (payload : Bytes) :
    Verified discipline r (fun _ _ => True) (begin kind code requestNonce deadlineMs payload).run := by
  have hK := neutral_calls.quiet
  refine verified_afterReserve hK (fun _ _ => trivial) trivial fun channel =>
    ⟨trivial, trivial, fun id => ?_⟩
  refine Neutral.andTry (hK.fromExcept _) (fun frame => ?_) (fun _ => trivial)
  refine ⟨⟨rfl, rfl⟩, fun _ => ?_⟩
  refine ⟨rfl, fun handle => ?_⟩
  refine verified_of_neutral ?_ _
  refine hK.tryBind (hK.stageTimeout _) fun _ => ?_
  refine hK.tryBind (hK.lift (hK.enqueueFrame frame)) fun result => ?_
  cases result with
  | error error =>
    refine hK.tryBind (hK.lift (neutral_calls.remove handle)) fun _ => ?_
    exact hK.tryBind (hK.lift (neutral_fail _)) fun _ => hK.throw _
  | ok _ => exact hK.tryBind (hK.lift (neutral_op .unlockOrder rfl)) fun _ => hK.ret _

theorem verified_request (r : Owned) (kind : UInt8) (code : ℕ) (requestNonce : Block 16)
    (deadlineMs : ℕ) (payload : Bytes) :
    Verified discipline r (fun _ _ => True)
    (request kind code requestNonce deadlineMs payload).run := by
  have hK := neutral_calls.quiet
  refine (verified_begin r kind code requestNonce deadlineMs payload).tryBind ?_ (fun _ _ _ => trivial)
  intro r handle _
  refine verified_of_neutral ?_ _
  refine hK.tryBind (hK.stageTimeout _) fun _ => ?_
  refine hK.tryBind (hK.lift (neutral_calls.recv handle)) fun result => ?_
  cases result with
  | ok a => exact hK.ret _
  | error error =>
    exact hK.tryBind (hK.lift (neutral_calls.handles.settle handle error)) fun _ =>
      hK.throw _

theorem verified_beginStream (r : Owned) (code : ℕ) (payload : Bytes) (deadlineMs : ℕ) :
    Verified discipline r (fun _ _ => True) (beginStream code payload deadlineMs).run := by
  have hK := neutral_calls.quiet
  refine verified_afterReserve hK (fun _ _ => trivial) trivial fun channel =>
    ⟨trivial, trivial, fun id => ?_⟩
  refine ⟨⟨rfl, rfl⟩, fun _ => ?_⟩
  refine Neutral.andTry (hK.fromExcept _) (fun frame => ?_) (fun _ => trivial)
  refine Neutral.andTry (hK.lift (hK.enqueueFrame frame)) (fun result => ?_) (fun _ => trivial)
  cases result with
  | error error =>
    refine verified_of_neutral ?_ _
    exact hK.tryBind (hK.lift (neutral_op (.removePending id) rfl)) fun _ => hK.throw _
  | ok _ =>
    refine Neutral.andTry (hK.lift (neutral_op .unlockOrder rfl)) (fun _ => ?_) (fun _ => trivial)
    exact ⟨rfl, fun _ => trivial⟩

theorem verified_handOver {x : Attempt ℕ} {r : Owned}
    (h : Verified discipline r (fun _ _ => True) x.run) : Obeys discipline r (handOver x) := by
  refine h.bind ?_
  intro r result _
  cases result with
  | ok handle => exact Neutral.andThen (neutral_op .giveHandle rfl) fun _ => verified_stop r
  | error e => exact verified_stop r

theorem verified_toplevel {α : Type} {x : Call α} {r : Owned}
    (h : Verified discipline r (fun _ _ => True) x) : Obeys discipline r (toplevel x) :=
  h.bind fun r _ _ => verified_stop r

theorem verified_route {r : Owned} {a : Arrived} (h : r.reader = some (.read a)) :
    Verified discipline r (fun r' _ => r'.Settled) (route a) := by
  have hidle : ∀ r : Owned, r.reader = some .idle → r.Settled := fun _ hr => ⟨.idle, hr, fun _ => nofun⟩
  refine ⟨⟨h, rfl⟩, fun sender => ?_⟩
  cases sender with
  | some channel => exact ⟨rfl, fun _ => hidle _ rfl⟩
  | none =>
    change Verified discipline _ _ (if a.frame.kind = kindEventBatch then broadcast a else pure ())
    split_ifs with hkind
    · exact ⟨⟨rfl, hkind⟩, fun _ => hidle _ rfl⟩
    · refine ⟨.missed a, rfl, ?_⟩
      rintro _ ⟨⟩
      exact hkind

theorem verified_dispatch {r : Owned} {a : Arrived} (h : r.reader = some (.read a)) :
    Verified discipline r (fun r' _ => r'.Settled) (dispatch a).run := by
  have hsettled : r.Settled := ⟨.read a, h, fun _ => nofun⟩
  unfold dispatch
  split_ifs
  · refine (neutral_calls.quiet.writeRoutine (by decide) _ _ _ r).mono ?_
    rintro r' _ rfl
    exact hsettled
  · exact (verified_route h).bind fun _ _ h => h
  · exact hsettled

theorem verified_readerLoop {r : Owned} (h : r.Settled) : Obeys discipline r readerLoop := by
  refine Verified.performThen h fun result => ?_
  cases result with
  | closed => exact Neutral.andThen (neutral_calls.quiet.failWeak neutral_fail _) fun _ =>
    verified_stop _
  | failed message =>
    exact Neutral.andThen (neutral_calls.quiet.failWeak neutral_fail _) fun _ => verified_stop _
  | frame a =>
    refine Neutral.andThen (neutral_op .upgrade rfl) fun alive => ?_
    cases alive with
    | false => exact verified_stop _
    | true =>
      refine (verified_dispatch (r := post r .readFrame (.frame a)) rfl).bind ?_
      intro r outcome hsettled
      cases outcome with
      | ok _ =>
        intro m hm
        cases hm
        exact hsettled
      | error error => exact Neutral.andThen (neutral_fail _) fun _ => verified_stop _

theorem verified_writerLoop (r : Owned) : Obeys discipline r writerLoop := by
  refine Neutral.andThen (neutral_op .recvWriter rfl) fun command => ?_
  cases command with
  | none => exact Neutral.andThen (neutral_op .endWriter rfl) fun _ => verified_stop r
  | some command =>
    refine Neutral.andThen (neutral_op (.write command) rfl) fun result => ?_
    refine Neutral.andThen (neutral_op (.complete command result) rfl) fun _ => ?_
    cases result with
    | ok _ =>
      refine Neutral.andThen (neutral_op (.dropCommand command) rfl) fun _ => ?_
      intro m hm
      cases hm
      trivial
    | error error =>
      refine Neutral.andThen (neutral_calls.quiet.failWeak neutral_fail _) fun _ => ?_
      refine Neutral.andThen (neutral_op (.dropCommand command) rfl) fun _ => ?_
      exact Neutral.andThen (neutral_op .endWriter rfl) fun _ => verified_stop r

theorem verified_keepAlive (r : Owned) (ping : Except IoError Frame) :
    Obeys discipline r (keepAlive ping) := by
  have again : Obeys discipline r (pure (some .keepalive) : Call (Option Name)) := by
    intro m hm
    cases hm
    trivial
  cases ping with
  | error _ => exact again
  | ok frame =>
    refine Neutral.andThen (neutral_calls.quiet.writeControl frame) fun outcome => ?_
    cases outcome with
    | ok _ => exact again
    | error error => exact Neutral.andThen (neutral_fail _) fun _ => verified_stop r

theorem verified_keepaliveLoop (r : Owned) : Obeys discipline r keepaliveLoop := by
  refine Neutral.andThen (neutral_op .upgrade rfl) fun alive => ?_
  cases alive with
  | false => exact verified_stop r
  | true =>
    refine Neutral.andThen (neutral_op .loadClosed rfl) fun closed => ?_
    cases closed with
    | true => exact verified_stop r
    | false => exact verified_keepAlive r (Frame.new kindPing 0 0 [])

theorem verified_code (n : Name) (r : Owned) (h : ready n r) : Obeys discipline r (code n) := by
  have plain : ∀ {α : Type} {x : Call α}, Neutral discipline x →
      Obeys discipline r (toplevel x) :=
    fun hx => verified_toplevel (verified_of_neutral hx r)
  cases n with
  | reader => exact verified_readerLoop h
  | writer => exact verified_writerLoop r
  | keepalive => exact verified_keepaliveLoop r
  | begin kind code requestNonce deadlineMs payload =>
    exact verified_handOver (verified_begin r kind code requestNonce deadlineMs payload)
  | request kind code requestNonce deadlineMs payload =>
    exact verified_toplevel (verified_request r kind code requestNonce deadlineMs payload)
  | beginStream code payload deadlineMs =>
    exact verified_handOver (verified_beginStream r code payload deadlineMs)
  | close => exact plain (neutral_calls.quiet.close (neutral_area nofun nofun))
  | recv handle => exact plain (neutral_calls.recv handle)
  | send handle kind code payload => exact plain (neutral_calls.quiet.send handle kind code payload)
  | abort handle status => exact plain (neutral_calls.quiet.abort neutral_calls.handles handle status)
  | cancel handle => exact plain (neutral_calls.cancel handle)
  | remove handle => exact plain (neutral_calls.remove handle)
  | streamRecv handle => exact plain (neutral_calls.quiet.streamRecv handle)
  | streamSend handle payload => exact plain (neutral_calls.quiet.streamSend handle payload)
  | streamClose handle => exact plain (neutral_calls.streamClose handle)
  | dropHandle handle => exact plain (neutral_op (.dropHandle handle) rfl)
  | cancelRequest id => exact plain (neutral_calls.quiet.cancelId id)
  | abortStream id => exact plain (neutral_calls.quiet.abortStream id)

end Mst5Client.RoutingDiscipline
