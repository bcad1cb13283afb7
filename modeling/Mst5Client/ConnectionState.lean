import Mst5Client.IoResult
import Mst5Client.TaskPrograms

set_option autoImplicit false

/-!
# State and atomic operations of the multiplexed connection

`Mst5Connection` of `src/connection.rs` with the channels, semaphores and locks it is built on.
Channels, oneshots and handles are numbered in the order of their creation.
-/
namespace Mst5Client.ConnectionState
open ByteOrder IoResult TaskPrograms

def kindAuth : UInt8 := 1
def kindResult : UInt8 := 4
def kindEventBatch : UInt8 := 5
def kindAck : UInt8 := 6
def kindError : UInt8 := 7
def kindPing : UInt8 := 8
def kindPong : UInt8 := 9
def kindCancel : UInt8 := 12
def kindStreamOpen : UInt8 := 14
def kindStreamData : UInt8 := 15
def kindStreamEnd : UInt8 := 16
def kindStreamAbort : UInt8 := 17

def validKind (value : UInt8) : Bool := (1 ≤ value ∧ value ≤ 9) ∨ (11 ≤ value ∧ value ≤ 17)

def isTerminalResponse (kind : UInt8) : Bool :=
  kind ∈ [kindResult, kindEventBatch, kindError, kindPong, kindStreamEnd, kindStreamAbort]

structure Frame where
  kind : UInt8
  flags : UInt8
  code : ℕ
  id : ℕ
  requestNonce : Block 16
  deadlineMs : ℕ
  payload : Bytes
deriving DecidableEq

def maxPlainPayload : ℕ := 4 * 1024 * 1024

def zeroNonce : Block 16 := blockOf 16 []

def Frame.new (kind : UInt8) (code id : ℕ) (payload : Bytes) : Except IoError Frame :=
  if validKind kind = false then .error (invalidInput "invalid MST5 frame kind")
  else if maxPlainPayload < payload.length then .error (invalidInput "MST5 payload is too large")
  else .ok ⟨kind, 0, code, id, zeroNonce, 0, payload⟩

def Frame.request (kind : UInt8) (code id : ℕ) (requestNonce : Block 16) (deadlineMs : ℕ)
    (payload : Bytes) : Except IoError Frame := do
  let frame ← Frame.new kind code id payload
  return { frame with requestNonce, deadlineMs }

def maxInFlight : ℕ := 64
def responseQueue : ℕ := 128
def writerQueue : ℕ := 128
def controlWriterQueue : ℕ := 64
def writerBudgetBytes : ℕ := 16 * 1024 * 1024
def writerBudgetUnit : ℕ := 16 * 1024

/-- A frame read from the server, with its position among all frames read. -/
structure Arrived where
  seq : ℕ
  frame : Frame
deriving DecidableEq

inductive Item where
  | frame (a : Arrived)
  | failed (message : String)
deriving DecidableEq

structure Channel where
  queue : List Item
  receiverAlive : Bool
  /-- All frames pushed so far. -/
  log : List Arrived

structure Handle where
  stream : Bool
  id : ℕ
  channel : ℕ
  active : Bool
  dropped : Bool

inductive WriterCommand where
  | frame (frame : Frame) (complete budget : ℕ)
  | close (complete : ℕ)
deriving DecidableEq

def WriterCommand.budget : WriterCommand → ℕ
  | .frame _ _ budget => budget
  | .close _ => 0

/-- The fields after `handles` are histories that the source does not keep: every insertion into
`pending`, the frames read, what `dispatch` found for each frame it looked up, what was broadcast
and what was written. -/
structure Connection where
  control : List WriterCommand
  media : List WriterCommand
  writerDone : Bool
  completions : List (Option (Except IoError Unit))
  orderLocked : Bool
  nextId : ℕ
  writerBudget : ℕ
  pending : List (ℕ × ℕ)
  closed : Bool
  inflight : ℕ
  now : ℕ
  channels : List Channel
  handles : List Handle
  registered : List (ℕ × ℕ)
  arrived : List Frame
  routes : List (Arrived × Option ℕ)
  events : List Arrived
  wire : List Frame

def Connection.start (now : ℕ) : Connection where
  control := []
  media := []
  writerDone := false
  completions := []
  orderLocked := false
  nextId := 1
  writerBudget := writerBudgetBytes / writerBudgetUnit
  pending := []
  closed := false
  inflight := maxInFlight
  now
  channels := []
  handles := []
  registered := []
  arrived := []
  routes := []
  events := []
  wire := []

/-- What a task owns and drops with its future. -/
structure Locals where
  order : Bool
  permit : Bool
  budget : ℕ
  receiver : Option ℕ
  handle : Option ℕ

def Locals.none : Locals := ⟨false, false, 0, .none, .none⟩

inductive Name where
  | reader
  | writer
  | keepalive
  | begin (kind : UInt8) (code : ℕ) (requestNonce : Block 16) (deadlineMs : ℕ) (payload : Bytes)
  | request (kind : UInt8) (code : ℕ) (requestNonce : Block 16) (deadlineMs : ℕ) (payload : Bytes)
  | beginStream (code : ℕ) (payload : Bytes) (deadlineMs : ℕ)
  | close
  | recv (handle : ℕ)
  | send (handle : ℕ) (kind : UInt8) (code : ℕ) (payload : Bytes)
  | abort (handle status : ℕ)
  | cancel (handle : ℕ)
  | remove (handle : ℕ)
  | streamRecv (handle : ℕ)
  | streamSend (handle : ℕ) (payload : Bytes)
  | streamClose (handle : ℕ)
  | dropHandle (handle : ℕ)
  | cancelRequest (id : ℕ)
  | abortStream (id : ℕ)
deriving DecidableEq

def Name.external : Name → Bool
  | .reader | .writer | .keepalive | .cancelRequest _ | .abortStream _ => false
  | _ => true

inductive Choice where
  | proceed
  | timedOut
  | hangUp
  | clock (now : ℕ)
  | order (entries : List (ℕ × ℕ))
  | read (result : Except String (Option Frame))
  | written (result : Except IoError Unit)

inductive Sent where
  | sent (complete : ℕ)
  | timedOut
  | closed

inductive Completion where
  | done (result : Except IoError Unit)
  | timedOut
  | dropped

inductive Received where
  | item (item : Item)
  | closed
  | timedOut

inductive ReadResult where
  | frame (a : Arrived)
  | closed
  | failed (message : String)

inductive Op where
  | stageTimeout (deadlineMs : ℕ)
  | acquirePermit
  | loadClosed
  | swapClosed
  | newChannel
  | lockOrder
  | unlockOrder
  | allocateId
  | insertPending (id channel : ℕ)
  | removePending (id : ℕ)
  | lookupPending (a : Arrived) (remove : Bool)
  | takePending
  | newHandle (stream : Bool) (id channel : ℕ)
  | giveHandle
  | isActive (handle : ℕ)
  | swapActive (handle : ℕ)
  | handleId (handle : ℕ)
  | dropHandle (handle : ℕ)
  | acquireBudget (units : ℕ)
  | sendWriter (frame : Frame)
  | sendClose
  | awaitComplete (complete : ℕ) (timed : Bool)
  | sendChannel (channel : ℕ) (item : Item)
  | recvHandle (handle : ℕ)
  | broadcast (a : Arrived)
  | upgrade
  | readFrame
  | recvWriter
  | write (command : WriterCommand)
  | complete (command : WriterCommand) (result : Except IoError Unit)
  | dropCommand (command : WriterCommand)
  | endWriter
deriving DecidableEq

def Ans : Op → Type
  | .stageTimeout _ => Except IoError Unit
  | .acquirePermit | .loadClosed | .swapClosed | .lockOrder | .isActive _ | .swapActive _
  | .acquireBudget _ | .upgrade => Bool
  | .newChannel | .newHandle _ _ _ | .handleId _ => ℕ
  | .allocateId | .lookupPending _ _ => Option ℕ
  | .takePending => List (ℕ × ℕ)
  | .sendWriter _ | .sendClose => Sent
  | .awaitComplete _ _ => Completion
  | .recvHandle _ => Received
  | .readFrame => ReadResult
  | .recvWriter => Option WriterCommand
  | .write _ => Except IoError Unit
  | .unlockOrder | .insertPending _ _ | .removePending _ | .giveHandle | .dropHandle _
  | .sendChannel _ _ | .broadcast _ | .complete _ _ | .dropCommand _ | .endWriter => Unit

def deadlineTimeout (deadlineMs now : ℕ) : Except IoError Unit :=
  if deadlineMs = 0 then .ok ()
  else if deadlineMs - now = 0 then .error ⟨.timedOut, "MST5 request deadline has expired"⟩
  else .ok ()

def without (id : ℕ) (pending : List (ℕ × ℕ)) : List (ℕ × ℕ) := pending.filter fun e => e.1 ≠ id

def senderOf (id : ℕ) (pending : List (ℕ × ℕ)) : Option ℕ :=
  (pending.find? fun e => e.1 = id).map Prod.snd

def Connection.setChannel (c : Connection) (n : ℕ) (f : Channel → Channel) : Connection :=
  { c with channels := c.channels.modify n f }

def Connection.setHandle (c : Connection) (n : ℕ) (f : Handle → Handle) : Connection :=
  { c with handles := c.handles.modify n f }

def Connection.hangUp (c : Connection) (n : ℕ) : Connection :=
  c.setChannel n fun ch => { ch with receiverAlive := false }

def Connection.dropHandle (c : Connection) (n : ℕ) : Connection × List Name :=
  match c.handles[n]? with
  | none => (c, [])
  | some h =>
    if h.dropped then (c, [])
    else
      let c := (c.setHandle n fun h => { h with active := false, dropped := true }).hangUp h.channel
      ({ c with inflight := c.inflight + 1 },
        if h.active then [if h.stream then .abortStream h.id else .cancelRequest h.id] else [])

def Connection.release (c : Connection) (l : Locals) : Connection :=
  let c := if l.order then { c with orderLocked := false } else c
  let c := if l.permit then { c with inflight := c.inflight + 1 } else c
  let c := { c with writerBudget := c.writerBudget + l.budget }
  match l.receiver with
  | none => c
  | some n => c.hangUp n

def Connection.discard (c : Connection) (l : Locals) : Connection × List Name :=
  match l.handle with
  | none => (c.release l, [])
  | some n => (c.release l).dropHandle n

def Connection.liveHandle (c : Connection) (n : ℕ) : Option Handle :=
  (c.handles[n]?).filter fun h => h.dropped = false

abbrev Performed := Effect Name Connection Locals

abbrev Schedule := List (Label Name Choice)

variable (c : Connection) (l : Locals)

def done {ω : Type} (c : Connection) (l : Locals) (answer : ω) : Option (Performed ω) :=
  some ⟨answer, c, l, []⟩

def sendTo (queue : List WriterCommand) (capacity : ℕ) (frame : Frame) (choice : Choice)
    (push : Connection → List WriterCommand → Connection) : Option (Performed Sent) :=
  let refund := { c with writerBudget := c.writerBudget + l.budget }
  match choice with
  | .timedOut => done refund { l with budget := 0 } .timedOut
  | _ =>
    if c.writerDone then done refund { l with budget := 0 } .closed
    else if queue.length < capacity then
      let complete := c.completions.length
      done (push { c with completions := c.completions ++ [none] }
          (queue ++ [.frame frame complete l.budget])) { l with budget := 0 } (.sent complete)
    else none

/-- `none` means that the operation cannot take place now, or not with this choice. -/
def perform : (op : Op) → Choice → Option (Performed (Ans op))
  | .stageTimeout deadlineMs, .clock now =>
    if c.now ≤ now then done { c with now } l (deadlineTimeout deadlineMs now) else none
  | .acquirePermit, .timedOut => done c l false
  | .acquirePermit, .proceed =>
    if 0 < c.inflight then done { c with inflight := c.inflight - 1 } { l with permit := true } true
    else none
  | .loadClosed, .proceed => done c l c.closed
  | .swapClosed, .proceed => done { c with closed := true } l c.closed
  | .newChannel, .proceed =>
    done { c with channels := c.channels ++ [⟨[], true, []⟩] } { l with receiver := c.channels.length }
      c.channels.length
  | .lockOrder, .timedOut => done c l false
  | .lockOrder, .proceed =>
    if c.orderLocked then none else done { c with orderLocked := true } { l with order := true } true
  | .unlockOrder, .proceed => done { c with orderLocked := false } { l with order := false } ()
  | .allocateId, .proceed =>
    if c.nextId = 0 ∨ c.nextId = 2 ^ 64 - 1 then done c l none
    else done { c with nextId := c.nextId + 1 } l (some c.nextId)
  | .insertPending id channel, .proceed =>
    done { c with
      pending := without id c.pending ++ [(id, channel)]
      registered := c.registered ++ [(id, channel)] } l ()
  | .removePending id, .proceed => done { c with pending := without id c.pending } l ()
  | .lookupPending a remove, .proceed =>
    let sender := senderOf a.frame.id c.pending
    done { c with
      pending := if remove then without a.frame.id c.pending else c.pending
      routes := c.routes ++ [(a, sender)] } l sender
  -- a `HashMap` is drained in any order
  | .takePending, .order entries =>
    if entries.isPerm c.pending then done { c with pending := [] } l entries else none
  | .newHandle stream id channel, .proceed =>
    done { c with handles := c.handles ++ [⟨stream, id, channel, true, false⟩] }
      { l with permit := false, receiver := none, handle := c.handles.length } c.handles.length
  | .giveHandle, .proceed => done c { l with handle := none } ()
  | .isActive handle, .proceed => (c.liveHandle handle).bind fun h => done c l h.active
  | .swapActive handle, .proceed =>
    (c.liveHandle handle).bind fun h =>
      done (c.setHandle handle fun h => { h with active := false }) l h.active
  | .handleId handle, .proceed => (c.liveHandle handle).bind fun h => done c l h.id
  | .dropHandle handle, .proceed => some ⟨(), (c.dropHandle handle).1, l, (c.dropHandle handle).2⟩
  | .acquireBudget _, .timedOut => done c l false
  | .acquireBudget units, .proceed =>
    if units ≤ c.writerBudget then
      done { c with writerBudget := c.writerBudget - units } { l with budget := units } true
    else none
  | .sendWriter frame, choice =>
    if frame.kind = kindStreamData then
      sendTo c l c.media writerQueue frame choice fun c media => { c with media }
    else sendTo c l c.control controlWriterQueue frame choice fun c control => { c with control }
  | .sendClose, .proceed =>
    if c.writerDone then done c l .closed
    else if c.control.length < controlWriterQueue then
      let complete := c.completions.length
      done { c with
        completions := c.completions ++ [none], control := c.control ++ [.close complete] } l
          (.sent complete)
    else none
  | .awaitComplete _ true, .timedOut => done c l .timedOut
  | .awaitComplete complete _, .proceed =>
    match c.completions[complete]? with
    | some (some result) => done c l (.done result)
    | _ => if c.writerDone then done c l .dropped else none
  | .sendChannel channel item, .proceed =>
    (c.channels[channel]?).bind fun ch =>
      if ch.receiverAlive = false then done c l ()
      else if ch.queue.length < responseQueue then
        done (c.setChannel channel fun ch => { ch with
          queue := ch.queue ++ [item]
          log := match item with
            | .frame a => ch.log ++ [a]
            | .failed _ => ch.log }) l ()
      else none
  | .recvHandle _, .timedOut => done c l .timedOut
  | .recvHandle handle, .proceed =>
    (c.liveHandle handle).bind fun h => (c.channels[h.channel]?).bind fun ch =>
      match ch.queue with
      | [] => none
      | item :: queue => done (c.setChannel h.channel fun ch => { ch with queue }) l (.item item)
  -- `None` comes when the last sender is gone
  | .recvHandle handle, .hangUp =>
    (c.liveHandle handle).bind fun h => (c.channels[h.channel]?).bind fun ch =>
      if ch.queue = [] ∧ h.channel ∉ c.pending.map Prod.snd then done c l .closed else none
  | .broadcast a, .proceed => done { c with events := c.events ++ [a] } l ()
  -- who else has a strong reference is not tracked
  | .upgrade, .proceed => done c l true
  | .upgrade, .hangUp => done c l false
  | .readFrame, .read (.error message) => done c l (.failed message)
  | .readFrame, .read (.ok none) => done c l .closed
  | .readFrame, .read (.ok (some frame)) =>
    done { c with arrived := c.arrived ++ [frame] } l (.frame ⟨c.arrived.length, frame⟩)
  | .recvWriter, .hangUp => done c l none
  -- `biased`: the control queue goes first
  | .recvWriter, .proceed =>
    match c.control, c.media with
    | command :: control, _ => done { c with control } l (some command)
    | [], command :: media => done { c with media } l (some command)
    | [], [] => none
  | .write command, .written result =>
    match command, result with
    | .frame frame _ _, .ok () => done { c with wire := c.wire ++ [frame] } l (.ok ())
    | _, result => done c l result
  | .complete command result, .proceed =>
    let complete := match command with
      | .frame _ complete _ | .close complete => complete
    done { c with completions := c.completions.set complete (some result) } l ()
  | .dropCommand command, .proceed =>
    done { c with writerBudget := c.writerBudget + command.budget } l ()
  -- the receivers go, and with them the budget of what is still queued; the queues themselves are kept
  -- as they were left, for nothing reads them after this
  | .endWriter, .proceed =>
    let queued := ((c.control ++ c.media).map WriterCommand.budget).sum
    done { c with writerDone := true, writerBudget := c.writerBudget + queued } l ()
  | _, _ => none

end Mst5Client.ConnectionState
