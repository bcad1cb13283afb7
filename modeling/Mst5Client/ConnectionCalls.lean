import Mst5Client.ConnectionState

set_option autoImplicit false

/-!
# Calls and loops of the multiplexed connection

The async functions of `src/connection.rs` as programs over the atomic operations, and the system of
tasks they make up.
-/
namespace Mst5Client.ConnectionCalls
open ByteOrder IoResult TaskPrograms ConnectionState

abbrev Call := Prog Op Ans

abbrev Attempt := ExceptT IoError Call

def stageTimeout (deadlineMs : ℕ) : Attempt Unit :=
  (Prog.perform (Op.stageTimeout deadlineMs) : Call _)
def acquirePermit : Call Bool := Prog.perform Op.acquirePermit
def loadClosed : Call Bool := Prog.perform Op.loadClosed
def swapClosed : Call Bool := Prog.perform Op.swapClosed
def newChannel : Call ℕ := Prog.perform Op.newChannel
def lockOrder : Call Bool := Prog.perform Op.lockOrder
def unlockOrder : Call Unit := Prog.perform Op.unlockOrder
def allocateId : Call (Option ℕ) := Prog.perform Op.allocateId
def insertPending (id channel : ℕ) : Call Unit := Prog.perform (Op.insertPending id channel)
def removePending (id : ℕ) : Call Unit := Prog.perform (Op.removePending id)
def lookupPending (a : Arrived) (remove : Bool) : Call (Option ℕ) :=
  Prog.perform (Op.lookupPending a remove)
def takePending : Call (List (ℕ × ℕ)) := Prog.perform Op.takePending
def newHandle (stream : Bool) (id channel : ℕ) : Call ℕ :=
  Prog.perform (Op.newHandle stream id channel)
def giveHandle : Call Unit := Prog.perform Op.giveHandle
def isActive (handle : ℕ) : Call Bool := Prog.perform (Op.isActive handle)
def swapActive (handle : ℕ) : Call Bool := Prog.perform (Op.swapActive handle)
def handleId (handle : ℕ) : Call ℕ := Prog.perform (Op.handleId handle)
def dropHandle (handle : ℕ) : Call Unit := Prog.perform (Op.dropHandle handle)
def acquireBudget (units : ℕ) : Call Bool := Prog.perform (Op.acquireBudget units)
def sendWriter (frame : Frame) : Call Sent := Prog.perform (Op.sendWriter frame)
def sendClose : Call Sent := Prog.perform Op.sendClose
def awaitComplete (complete : ℕ) (timed : Bool) : Call Completion :=
  Prog.perform (Op.awaitComplete complete timed)
def sendChannel (channel : ℕ) (item : Item) : Call Unit :=
  Prog.perform (Op.sendChannel channel item)
def recvHandle (handle : ℕ) : Call Received := Prog.perform (Op.recvHandle handle)
def broadcast (a : Arrived) : Call Unit := Prog.perform (Op.broadcast a)
def upgrade : Call Bool := Prog.perform Op.upgrade
def readFrame : Call ReadResult := Prog.perform Op.readFrame
def recvWriter : Call (Option WriterCommand) := Prog.perform Op.recvWriter
def write (command : WriterCommand) : Call (Except IoError Unit) := Prog.perform (Op.write command)
def complete (command : WriterCommand) (result : Except IoError Unit) : Call Unit :=
  Prog.perform (Op.complete command result)
def dropCommand (command : WriterCommand) : Call Unit := Prog.perform (Op.dropCommand command)
def endWriter : Call Unit := Prog.perform Op.endWriter

def closedError : IoError := ⟨.brokenPipe, "MST5 connection is closed"⟩

def timedOut (message : String) : IoError := ⟨.timedOut, message⟩

def ensure (condition : Bool) (error : IoError) : Attempt Unit :=
  if condition then pure () else throw error

def outcome {α : Type} (x : Attempt α) : Attempt (Except IoError α) := ExceptT.lift x.run

def fromExcept {α : Type} (x : Except IoError α) : Attempt α := (pure x : Call _)

def enqueueFrame (frame : Frame) : Attempt Unit := do
  let bytes := min (frame.payload.length + 40) (2 ^ 64 - 1)
  let units := max (divCeil bytes writerBudgetUnit) 1
  ensure (← acquireBudget units) (timedOut "MST5 writer queue is full")
  match ← sendWriter frame with
  | .timedOut => throw (timedOut "MST5 writer queue is full")
  | .closed => throw closedError
  | .sent complete =>
    match ← awaitComplete complete true with
    | .timedOut => throw (timedOut "MST5 write timed out")
    | .dropped => throw closedError
    | .done result => fromExcept result

def enqueueClose : Attempt Unit := do
  match ← sendClose with
  | .timedOut | .closed => throw closedError
  | .sent complete =>
    match ← awaitComplete complete false with
    | .timedOut | .dropped => throw closedError
    | .done result => fromExcept result

def writeControl (frame : Frame) : Attempt Unit := do
  ensure (!(← loadClosed)) closedError
  enqueueFrame frame

def ignore {α : Type} (x : Attempt α) : Call Unit := do
  let _ ← x.run

def failAll (message : String) : List (ℕ × ℕ) → Call Unit
  | [] => pure ()
  | (_, channel) :: entries => do
    sendChannel channel (.failed message)
    failAll message entries

def failPending (message : String) : Call Unit := do
  failAll message (← takePending)

def fail (message : String) : Call Unit := do
  if ← swapClosed then pure () else failPending message

def close : Attempt Unit := do
  if ← swapClosed then pure ()
  else
    let result ← outcome enqueueClose
    failPending "MST5 client closed the connection"
    fromExcept result

def writeNew (kind : UInt8) (code id : ℕ) (payload : Bytes) : Attempt Unit := do
  writeControl (← fromExcept (Frame.new kind code id payload))

def cancelId (id : ℕ) : Call Unit := do
  removePending id
  ignore (writeNew kindCancel 0 id [])

def recv (handle : ℕ) : Attempt Arrived := do
  match ← recvHandle handle with
  | .item (.frame a) =>
    if isTerminalResponse a.frame.kind then
      let _ ← swapActive handle
      return a
    else return a
  | .item (.failed message) =>
    let _ ← swapActive handle
    throw ⟨.connectionReset, message⟩
  | .closed =>
    let _ ← swapActive handle
    throw ⟨.brokenPipe, "MST5 response channel closed"⟩
  | .timedOut => throw (timedOut "MST5 request timed out")

def send (handle : ℕ) (kind : UInt8) (code : ℕ) (payload : Bytes) : Attempt Unit := do
  writeNew kind code (← handleId handle) payload

def remove (handle : ℕ) : Call Unit := do
  if ← isActive handle then
    removePending (← handleId handle)
    let _ ← swapActive handle
  else pure ()

def abort (handle status : ℕ) : Call Unit := do
  if ← isActive handle then
    ignore (send handle kindStreamAbort status [])
    remove handle
  else pure ()

def cancel (handle : ℕ) : Call Unit := do
  if ← isActive handle then
    cancelId (← handleId handle)
    let _ ← swapActive handle
  else pure ()

def streamRecv (handle : ℕ) : Attempt Arrived := do
  match ← recvHandle handle with
  | .item (.frame a) => return a
  | .item (.failed message) => throw ⟨.connectionReset, message⟩
  | .closed => throw ⟨.brokenPipe, "MST5 stream closed"⟩
  | .timedOut => throw (timedOut "MST5 stream read timed out")

def streamSend (handle : ℕ) (payload : Bytes) : Attempt Unit := do
  ensure (← isActive handle) closedError
  writeNew kindStreamData 0 (← handleId handle) payload

def streamClose (handle : ℕ) : Attempt Unit := do
  if ← swapActive handle then
    let id ← handleId handle
    let frame ← fromExcept (Frame.new kindStreamEnd 200 id [])
    let result ← outcome (writeControl frame)
    removePending id
    fromExcept result
  else pure ()

def abortStream (id : ℕ) : Call Unit := do
  ignore (writeNew kindStreamAbort 499 id [])
  removePending id

/-- The part that `begin` and `begin_stream` share: a slot, a channel, the order lock and an id.
The permit, the receiver and the lock are locals of the task from here on. -/
def reserve (deadlineMs : ℕ) (slotMessage writerMessage : String) : Attempt (ℕ × ℕ) := do
  stageTimeout deadlineMs
  ensure (← acquirePermit) (timedOut slotMessage)
  ensure (!(← loadClosed)) closedError
  let channel ← newChannel
  stageTimeout deadlineMs
  ensure (← lockOrder) (timedOut writerMessage)
  ensure (!(← loadClosed)) closedError
  match ← allocateId with
  | none => throw (invalidData "MST5 request ID space exhausted; reconnect required")
  | some id => return (id, channel)

def begin (kind : UInt8) (code : ℕ) (requestNonce : Block 16) (deadlineMs : ℕ) (payload : Bytes) :
    Attempt ℕ := do
  let (id, channel) ← reserve deadlineMs "MST5 request timed out waiting for an in-flight slot"
    "MST5 request timed out waiting for the record writer"
  let frame ← fromExcept (Frame.request kind code id requestNonce deadlineMs payload)
  insertPending id channel
  let handle ← newHandle false id channel -- dropped by every `?` from here on
  stageTimeout deadlineMs
  match ← outcome (enqueueFrame frame) with
  | .error error =>
    remove handle
    fail ("MST5 write failed: " ++ error.message)
    throw error
  | .ok () =>
    unlockOrder
    return handle

def settle (handle : ℕ) (error : IoError) : Call Unit :=
  if error.kind = .timedOut then cancel handle else remove handle

def request (kind : UInt8) (code : ℕ) (requestNonce : Block 16) (deadlineMs : ℕ) (payload : Bytes) :
    Attempt Arrived := do
  let handle ← begin kind code requestNonce deadlineMs payload
  stageTimeout deadlineMs
  match ← outcome (recv handle) with
  | .ok a => return a
  | .error error =>
    settle handle error
    throw error

def beginStream (code : ℕ) (payload : Bytes) (deadlineMs : ℕ) : Attempt ℕ := do
  let (id, channel) ← reserve deadlineMs "MST5 stream slot timed out"
    "MST5 stream timed out waiting for the record writer"
  insertPending id channel
  -- no handle yet: an error here leaves the id pending
  let frame ← fromExcept (Frame.request kindStreamOpen code id zeroNonce deadlineMs payload)
  match ← outcome (enqueueFrame frame) with
  | .error error =>
    removePending id
    throw error
  | .ok () =>
    unlockOrder
    newHandle true id channel

def route (a : Arrived) : Call Unit := do
  match ← lookupPending a (isTerminalResponse a.frame.kind) with
  | some channel => sendChannel channel (.frame a)
  | none => if a.frame.kind = kindEventBatch then broadcast a else pure ()

def dispatch (a : Arrived) : Attempt Unit := do
  if a.frame.kind = kindPing then
    writeNew kindPong 0 a.frame.id []
  else if a.frame.kind ∈ [kindResult, kindEventBatch, kindAck, kindError, kindPong, kindStreamData,
      kindStreamEnd, kindStreamAbort] then
    route a
  else throw (invalidData "unexpected MST5 server frame")

def failWeak (message : String) : Call Unit := do
  if ← upgrade then fail message else pure ()

def readerLoop : Call (Option Name) := do
  match ← readFrame with
  | .closed =>
    failWeak "MST5 server closed the connection"
    return none
  | .failed message =>
    failWeak ("MST5 read failed: " ++ message)
    return none
  | .frame a =>
    if ← upgrade then
      match ← (dispatch a).run with
      | .ok () => return some .reader
      | .error error =>
        fail ("MST5 protocol error: " ++ error.message)
        return none
    else return none

def writerLoop : Call (Option Name) := do
  match ← recvWriter with
  | none =>
    endWriter
    return none
  | some command =>
    let result ← write command
    complete command result
    match result with
    | .ok () =>
      dropCommand command
      return some .writer
    | .error error =>
      failWeak ("MST5 write failed: " ++ error.message)
      dropCommand command
      endWriter
      return none

def keepAlive : Except IoError Frame → Call (Option Name)
  | .error _ => return some .keepalive
  | .ok ping => do
    match ← (writeControl ping).run with
    | .ok () => return some .keepalive
    | .error error =>
      fail ("MST5 keepalive failed: " ++ error.message)
      return none

def keepaliveLoop : Call (Option Name) := do
  if ← upgrade then
    if ← loadClosed then return none else keepAlive (Frame.new kindPing 0 0 [])
  else return none

def toplevel {α : Type} (x : Call α) : Call (Option Name) := do
  let _ ← x
  return none

def handOver (x : Attempt ℕ) : Call (Option Name) := do
  match ← x.run with
  | .ok _ =>
    giveHandle
    return none
  | .error _ => return none

def code : Name → Call (Option Name)
  | .reader => readerLoop
  | .writer => writerLoop
  | .keepalive => keepaliveLoop
  | .begin kind code requestNonce deadlineMs payload =>
    handOver (begin kind code requestNonce deadlineMs payload)
  | .request kind code requestNonce deadlineMs payload =>
    toplevel (request kind code requestNonce deadlineMs payload).run
  | .beginStream code payload deadlineMs => handOver (beginStream code payload deadlineMs)
  | .close => toplevel close.run
  | .recv handle => toplevel (recv handle).run
  | .send handle kind code payload => toplevel (send handle kind code payload).run
  | .abort handle status => toplevel (abort handle status)
  | .cancel handle => toplevel (cancel handle)
  | .remove handle => toplevel (remove handle)
  | .streamRecv handle => toplevel (streamRecv handle).run
  | .streamSend handle payload => toplevel (streamSend handle payload).run
  | .streamClose handle => toplevel (streamClose handle).run
  | .dropHandle handle => toplevel (dropHandle handle)
  | .cancelRequest id => toplevel (cancelId id)
  | .abortStream id => toplevel (abortStream id)

def system : System Op Ans Name Choice Connection Locals where
  code
  perform := ConnectionState.perform
  discard := Connection.discard
  noLocals := Locals.none
  external := Name.external

def initial (now : ℕ) : Pool Op Ans Name Connection Locals :=
  ⟨Connection.start now, [system.task .reader, system.task .writer, system.task .keepalive]⟩

end Mst5Client.ConnectionCalls
