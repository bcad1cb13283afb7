import Mst5Client.IoResult

set_option autoImplicit false

/-!
# The reconnecting account client

`AccountClient` of `src/account.rs` behind `MessengerCore::request_cbor`. A call runs from one
`await` to the next in one step; the answers of the network, the clocks and the random generator
come with the step.
-/
namespace Mst5Client.AccountClient
open ByteOrder IoResult

def kindCommand : UInt8 := 2
def kindQuery : UInt8 := 3
def kindEventBatch : UInt8 := 5

def isWhiteSpace (c : Char) : Bool :=
  let n := c.toNat
  (9 ≤ n ∧ n ≤ 13) ∨ n = 0x20 ∨ n = 0x85 ∨ n = 0xa0 ∨ n = 0x1680 ∨ (0x2000 ≤ n ∧ n ≤ 0x200a) ∨
    n = 0x2028 ∨ n = 0x2029 ∨ n = 0x202f ∨ n = 0x205f ∨ n = 0x3000

def trim (s : String) : String :=
  String.ofList ((s.toList.dropWhile isWhiteSpace).reverse.dropWhile isWhiteSpace).reverse

def isControl (c : Char) : Bool := c.toNat < 0x20 ∨ (0x7f ≤ c.toNat ∧ c.toNat < 0xa0)

structure AccountConfig where
  endpoint : String
  token : String
  clientName : String
  deviceModel : String
  readTimeout : ℕ
  reconnectMin : ℕ
  reconnectMax : ℕ

structure Credentials where
  token : String
  clientName : String
  deviceModel : String
deriving DecidableEq

structure RequestOptions where
  requestNonce : Option (Block 16)
  deadlineMs : Option ℕ
deriving DecidableEq

structure Request where
  token : String
  frameKind : UInt8
  opcode : ℕ
  payload : Bytes
  options : RequestOptions
deriving DecidableEq

structure Response where
  kind : UInt8
  payload : Bytes
deriving DecidableEq

inductive AccountEvent where
  | connected (generation : ℕ)
  | disconnected (message : String) (retryIn : ℕ)
  | authenticationInvalid (message : String)
  | eventBatch (payload : Bytes)
  | closed
deriving DecidableEq

structure Conn where
  auth : String
  principal : Bool
  closed : Bool
deriving DecidableEq

inductive Pc where
  | closing
  | locking
  -- the next two hold the connect lock
  | connecting
  | authenticating (conn : ℕ)
  | requesting (generation conn : ℕ) (nonce : Block 16) (deadlineMs : ℕ) (enqueued : Bool)
  | invalidating (error : IoError)
  | sleeping
  | returned (result : Except IoError Response)
  | dropped

structure Call where
  request : Request
  started : ℕ
  attempt : ℕ
  pc : Pc

structure Outgoing where
  call : ℕ
  conn : ℕ
  kind : UInt8
  opcode : ℕ
  nonce : Block 16
  deadlineMs : ℕ
  payload : Bytes
deriving DecidableEq

structure World where
  config : AccountConfig
  credentials : Credentials
  current : Option (ℕ × ℕ)
  connectLock : Option ℕ
  generation : ℕ
  closed : Bool
  events : List AccountEvent
  conns : List Conn
  calls : List Call
  queued : List Outgoing
  sent : List Outgoing

/-- What the runtime supplies to a step: the monotonic clock, the wall clock, a request
nonce and the eight bytes of the jitter. -/
structure Ambient where
  instant : ℕ
  unixMs : ℕ
  nonce : Except String (Block 16)
  jitter : Option ℕ

def new (config : AccountConfig) : Except IoError World :=
  if trim config.endpoint = "" then .error (invalidInput "MST5 endpoint is empty")
  else if 64 < config.clientName.length then
    .error (invalidInput "client_name must contain at most 64 characters")
  else if 128 < config.deviceModel.length ∨ config.deviceModel.toList.any isControl then
    .error (invalidInput "device_model must contain at most 128 printable characters")
  else .ok {
    config
    credentials := ⟨config.token, config.clientName, trim config.deviceModel⟩
    current := none
    connectLock := none
    generation := 0
    closed := false
    events := []
    conns := []
    calls := []
    queued := []
    sent := [] }

def isAuthenticationError (e : IoError) : Bool :=
  e.kind = .permissionDenied ∨ "UNAUTHENTICATED".toList <:+: e.message.toList ∨
    "invalid credentials".toList <:+: e.message.toList

/-- Full jitter up to a cap that doubles with each attempt, in milliseconds. -/
def backoff (config : AccountConfig) (attempt : ℕ) (jitter : Option ℕ) : ℕ :=
  let least := max config.reconnectMin 1 % 2 ^ 64
  let most := max config.reconnectMax least % 2 ^ 64
  let cap := min (min (least * 2 ^ min attempt 16) (2 ^ 64 - 1)) most
  jitter.getD 0 % min (cap + 1) (2 ^ 64 - 1)

variable (w : World) (i : ℕ)

def World.emit (e : AccountEvent) : World := { w with events := w.events ++ [e] }

def World.update (f : Call → Call) : World := { w with calls := w.calls.modify i f }

def World.setPc (pc : Pc) : World := w.update i fun c => { c with pc }

def World.spawn (call : Call) : World := { w with calls := w.calls ++ [call] }

def World.closeConn (conn : ℕ) : World :=
  { w with conns := w.conns.modify conn fun c => { c with closed := true } }

def World.lock : World := { w with connectLock := some i }

def World.unlock : World := { w with connectLock := none }

def World.openConn (conn : ℕ) : Bool := (w.conns[conn]?).any fun c => !c.closed

def World.takeCurrent (generation : Option ℕ) : World × Option ℕ :=
  if generation.isSome ∧ w.current.map Prod.fst ≠ generation then (w, none)
  else ({ w with current := none }, w.current.map Prod.snd)

variable (call : Call) (a : Ambient)

/-- The end of a failed attempt: give up after `reconnect_max`, else sleep and try again. -/
def World.retry (error : IoError) : World :=
  if w.config.reconnectMax ≤ a.instant - call.started then w.setPc i (.returned (.error error))
  else
    let delay := backoff w.config call.attempt a.jitter
    (w.emit (.disconnected error.message delay)).update i fun c =>
      { c with attempt := min (c.attempt + 1) (2 ^ 32 - 1), pc := .sleeping }

def World.connectFailed (error : IoError) : World :=
  if isAuthenticationError error then
    (w.emit (.authenticationInvalid error.message)).setPc i (.returned (.error error))
  else w.retry i call a error

def World.requestFailed (generation : ℕ) (error : IoError) : World :=
  if isAuthenticationError error then
    (w.emit (.authenticationInvalid error.message)).setPc i (.returned (.error error))
  else
    match w.takeCurrent (some generation) with
    | (w, some conn) => (w.closeConn conn).setPc i (.invalidating error)
    | (w, none) => w.retry i call a error

/-- What `request_cbor_with_options` puts into the frame: its nonce and its deadline. -/
def World.prepare (conn : ℕ) : Except IoError (Block 16 × ℕ) :=
  let r := call.request
  let zero : Block 16 := blockOf 16 []
  if ¬ (w.conns[conn]?).any Conn.principal then
    .error ⟨.permissionDenied, "authenticate() must be called before MST5 queries or commands"⟩
  else if r.frameKind ≠ kindQuery ∧ r.frameKind ≠ kindCommand then
    .error (invalidInput "request kind must be QUERY or COMMAND")
  else
    let nonce : Except IoError (Block 16) :=
      if r.frameKind = kindCommand then
        match r.options.requestNonce with
        | some value =>
          if value = zero then .error (invalidInput "COMMAND request nonce must be non-zero")
          else .ok value
        | none =>
          match a.nonce with
          | .error e => .error (invalidData ("OS CSPRNG failed: " ++ e))
          | .ok value => .ok (if value = zero then blockOf 16 [1] else value)
      else if r.options.requestNonce.isSome then
        .error (invalidInput "request nonce is only valid for COMMAND")
      else .ok zero
    let deadline := r.options.deadlineMs.getD (min (a.unixMs + w.config.readTimeout) (2 ^ 64 - 1))
    nonce.bind fun nonce =>
      if deadline ≠ 0 ∧ deadline ≤ a.unixMs then
        .error ⟨.timedOut, "MST5 request deadline has expired"⟩
      else .ok (nonce, deadline)

def World.beginRequest (generation conn : ℕ) : World :=
  match w.prepare call a conn with
  | .error e => w.requestFailed i call a generation e
  | .ok (nonce, deadlineMs) => w.setPc i (.requesting generation conn nonce deadlineMs false)

def World.enterLoop : World :=
  if w.closed then w.setPc i (.returned (.error ⟨.brokenPipe, "MST5 account is closed"⟩))
  else
    match w.current with
    | some (generation, conn) =>
      if w.openConn conn then w.beginRequest i call a generation conn else w.setPc i .locking
    | none => w.setPc i .locking

/-- A command without a nonce gets one, and the time starts to run. -/
def Call.drawn : Except IoError Call :=
  let r := call.request
  let starting (requestNonce : Option (Block 16)) : Call :=
    { call with request := { r with options := { r.options with requestNonce } }, started := a.instant }
  if r.frameKind = kindCommand ∧ r.options.requestNonce = none then
    match a.nonce with
    | .error e => .error ⟨.other, "OS CSPRNG failed: " ++ e⟩
    | .ok value => .ok (starting (some (if value = blockOf 16 [] then blockOf 16 [1] else value)))
  else .ok (starting r.options.requestNonce)

def World.enterRequest : World :=
  match call.drawn a with
  | .error e => w.setPc i (.returned (.error e))
  | .ok call => (w.update i fun _ => call).enterLoop i call a

def World.lockAcquired : World :=
  match w.current with
  -- another call may have connected meanwhile
  | some (generation, conn) =>
    if w.openConn conn then w.beginRequest i call a generation conn
    else (w.lock i).setPc i .connecting
  | none => (w.lock i).setPc i .connecting

def World.connectOk : World :=
  let conn := w.conns.length
  -- the credentials are read now that the connection stands, and AUTH is made with them
  let w : World := { w with conns := w.conns ++ [⟨w.credentials.token, false, false⟩] }
  w.setPc i (.authenticating conn)

def World.authOk (conn : ℕ) : World :=
  let generation := (w.generation + 1) % 2 ^ 32
  let w := { w with
    conns := w.conns.modify conn fun c => { c with principal := true }
    generation
    current := some (generation, conn)
    connectLock := none }
  (w.emit (.connected generation)).beginRequest i call a generation conn

inductive Outcome where
  | finished
  | acquired
  | connected
  | authenticated
  | enqueued
  | answered (response : Response)
  | failed (error : IoError)

/-- `lose` is the end of a connection: its peer is gone, or its last handle has been released. -/
inductive Label where
  | call (request : Request) (a : Ambient)
  | resume (i : ℕ) (outcome : Outcome) (a : Ambient)
  | drop (i : ℕ)
  | write (k : ℕ)
  | lose (conn : ℕ)
  | close

def messengerName : String := "OVE.rs Android"

def World.credentialsChange (w : World) (token : String) : Bool :=
  w.credentials.token ≠ token ∨ w.credentials.clientName ≠ messengerName

/-- A new `MessengerCore::request_cbor` call up to its first `await`: `set_credentials` takes the
current connection away if it changes anything. -/
def World.startCall (w : World) (request : Request) (a : Ambient) : World :=
  let i := w.calls.length
  let call : Call := ⟨request, a.instant, 0, .closing⟩
  if w.credentialsChange request.token then
    -- every call under way shares these credentials
    let w := { w with credentials := { w.credentials with
      token := request.token, clientName := messengerName } }
    match w.takeCurrent none with
    | (w, some conn) => (w.closeConn conn).spawn call
    | (w, none) => (w.spawn call).enterRequest i call a
  else (w.spawn call).enterRequest i call a

def World.resume (w : World) (i : ℕ) (call : Call) (a : Ambient) : Pc → Outcome → Option World
  | .closing, .finished => some (w.enterRequest i call a)
  | .locking, .acquired => if w.connectLock = none then some (w.lockAcquired i call a) else none
  | .connecting, .connected => some (w.connectOk i)
  | .connecting, .failed e => some (w.unlock.connectFailed i call a e)
  | .authenticating conn, .authenticated => some (w.authOk i call a conn)
  -- the connection is not closed: it lasts until its last handle is gone
  | .authenticating _, .failed e => some (w.unlock.connectFailed i call a e)
  | .requesting generation conn nonce deadlineMs false, .enqueued =>
    let r := call.request
    let w : World := { w with queued := w.queued ++
      [⟨i, conn, r.frameKind, r.opcode, nonce, deadlineMs, r.payload⟩] }
    some (w.setPc i (.requesting generation conn nonce deadlineMs true))
  | .requesting _ _ _ _ true, .answered response =>
    let w := if response.kind = kindEventBatch then w.emit (.eventBatch response.payload) else w
    some (w.setPc i (.returned (.ok response)))
  | .requesting generation _ _ _ _, .failed e => some (w.requestFailed i call a generation e)
  | .invalidating e, .finished => some (w.retry i call a e)
  | .sleeping, .finished => some (w.enterLoop i call a)
  | _, _ => none

/-- Dropping a future releases the lock it holds, and closes nothing. -/
def World.dropCall (w : World) (i : ℕ) : Pc → Option World
  | .returned _ | .dropped => none
  | .connecting | .authenticating _ => some (w.unlock.setPc i .dropped)
  | _ => some (w.setPc i .dropped)

def step (w : World) : Label → Option World
  | .call request a => some (w.startCall request a)
  | .resume i outcome a => (w.calls[i]?).bind fun call => w.resume i call a call.pc outcome
  | .drop i => (w.calls[i]?).bind fun call => w.dropCall i call.pc
  | .write k => (w.queued[k]?).map fun frame =>
    { w with queued := w.queued.eraseIdx k, sent := w.sent ++ [frame] }
  | .lose conn => some (w.closeConn conn)
  | .close =>
    let w := { w with closed := true }
    match w.takeCurrent none with
    | (w, some conn) => some ((w.emit .closed).closeConn conn)
    | (w, none) => some (w.emit .closed)

end Mst5Client.AccountClient
