import Mst5Client.CborValues
import Mst5Client.ConnectionState
import Mst5Client.JsonText
import Mst5Client.MediaContainer
import Mst5Client.ProgramEnvironments

set_option autoImplicit false

/-!
# Media streams of the native client

The uploads of `Client` in `src/lib.rs` as programs over the calls they make on their pending
request. What the source of an upload yields is data; the digest is a parameter, and so is the width
of `usize`.
-/
namespace Mst5Client.MediaStreams
open ByteOrder IoResult AuthenticatedCipher IdentityMessages TaskPrograms TaskTraces
  ProgramEnvironments CborValues
open ConnectionState
open MediaContainer (MediaKey MediaEncryptor encryptedMediaSize)

inductive StreamOp where
  | begin (kind : UInt8) (code deadlineMs : ℕ) (payload : Bytes)
  | recv
  | send (kind : UInt8) (code : ℕ) (payload : Bytes)
  | abort (status : ℕ)
  | remove
  | writeAll (bytes : Bytes)
  | flush
deriving DecidableEq

/-- `write_all` may have written the first bytes when it fails. -/
inductive Written where
  | all
  | failed (count : ℕ) (error : IoError)
deriving DecidableEq

def StreamAns : StreamOp → Type
  | .begin _ _ _ _ => Except IoError ℕ
  | .recv => Except IoError Frame
  | .send _ _ _ => Except IoError Unit
  | .abort _ => Unit
  | .remove => Unit
  | .writeAll _ => Written
  | .flush => Except IoError Unit

abbrev StreamEvent := Event StreamOp StreamAns

abbrev StreamProg := Prog StreamOp StreamAns

abbrev Transfer := ExceptT IoError StreamProg

def begin (kind : UInt8) (code deadlineMs : ℕ) (payload : Bytes) : Transfer ℕ :=
  (Prog.perform (StreamOp.begin kind code deadlineMs payload) : StreamProg _)

def recv : Transfer Frame := (Prog.perform StreamOp.recv : StreamProg _)

def send (kind : UInt8) (code : ℕ) (payload : Bytes) : Transfer Unit :=
  (Prog.perform (StreamOp.send kind code payload) : StreamProg _)

def abort (status : ℕ) : Transfer Unit := ExceptT.lift (Prog.perform (StreamOp.abort status))

def remove : Transfer Unit := ExceptT.lift (Prog.perform StreamOp.remove)

def fromExcept {α : Type} (x : Except IoError α) : Transfer α := (pure x : StreamProg _)

def refuse {α : Type} (status : ℕ) (error : IoError) : Transfer α := do
  abort status
  throw error

def ensure (condition : Bool) (otherwise : Transfer Unit) : Transfer Unit :=
  if condition then pure () else otherwise

/-- `if let Err(error) = .. { pending.abort(status).await; return Err(error) }`. -/
def orAbort {α : Type} (status : ℕ) (x : Transfer α) : Transfer α :=
  ExceptT.tryCatch x fun error => refuse status error

section Responses
variable (bits : ℕ)

structure Response where
  kind : UInt8
  status : ℕ
  payload : Bytes

def Response.fromFrame (frame : Frame) : Response := ⟨frame.kind, frame.code, frame.payload⟩

def Response.isError (response : Response) : Bool :=
  response.kind = kindError || 400 ≤ response.status

def Response.intoCbor (response : Response) : Except IoError Value :=
  if response.payload = [] then .ok (.map []) else decodeCbor bits response.payload

structure ApiError where
  status : ℕ
  code : String
  message : String

def apiErrorFromValue (status : ℕ) (value : Value) : ApiError where
  status := (((value.get "status").bind Value.asU64).map UInt64.toNat).getD status % 2 ^ 16 -- `as u16`
  code := ((value.get "code").bind Value.asStr).getD "APPLICATION_ERROR"
  message := ((value.get "message").bind Value.asStr).getD "MST5 request failed"

def ApiError.display (error : ApiError) : String :=
  "MST5 " ++ error.code ++ " (" ++ toString error.status ++ "): " ++ error.message

def apiResponseError (status : ℕ) (value : Value) : IoError :=
  let kind : ErrorKind :=
    if status = 401 ∨ status = 403 then .permissionDenied
    else if status = 404 then .notFound
    else if status = 408 then .timedOut
    else if status = 409 then .alreadyExists
    else if 400 ≤ status ∧ status ≤ 499 then .invalidInput
    else .other
  ⟨kind, (apiErrorFromValue status value).display⟩

def Response.intoResult (response : Response) : Except IoError Value := do
  let value ← response.intoCbor bits
  if response.isError then throw (apiResponseError response.status value)
  else return value

end Responses

def mediaHex (bytes : Bytes) : String :=
  String.ofList (bytes.flatMap fun b => [JsonText.hexDigit (b.toNat / 16),
    JsonText.hexDigit (b.toNat % 16)])

def featureMediaStreams : UInt64 := 0x40

def mediaOpUpload : ℕ := 1

def mediaOpDownload : ℕ := 2

def mediaChunkSize : ℕ := 256 * 1024

def saturatingAdd (a b : ℕ) : ℕ := min (a + b) (2 ^ 64 - 1)

/-- `authenticated` is what `is_authenticated` answers. -/
structure MediaClient where
  authenticated : Bool
  features : UInt64
  readTimeoutMs : ℕ

def MediaClient.mayStream (client : MediaClient) : Bool :=
  client.authenticated && client.features &&& featureMediaStreams != 0

/-- What is read into a buffer of this size before the end of the file or an error. A read of no
bytes is the end of the file. -/
structure Source (buffer : ℕ) where
  reads : List Bytes
  failure : Option IoError
  fits : ∀ bytes ∈ reads, bytes ≠ [] ∧ bytes.length ≤ buffer

def Source.bytes {buffer : ℕ} (source : Source buffer) : Bytes := source.reads.flatten

variable (sha256 : Bytes → Block 32) (bits : ℕ) (client : MediaClient) (now : ℕ) (fileId : String)

def checkMedia : Transfer Unit :=
  ensure client.mayStream (throw ⟨.permissionDenied, "media client is not authenticated"⟩)

def openUpload (fields : List (String × Value)) : Transfer Frame := do
  let deadlineMs := saturatingAdd now client.readTimeoutMs
  let id ← begin kindStreamOpen mediaOpUpload deadlineMs (encodeCbor (.map fields))
  let accepted ← recv
  ensure (accepted.id = id ∧ accepted.kind = kindAck ∧ accepted.code = 100) do
    remove
    throw ⟨.permissionDenied, "media upload rejected"⟩
  return accepted

def sendData (payload : Bytes) : Transfer Unit := orAbort 500 (send kindStreamData 0 payload)

def transmit (size : ℕ) (failure : Option IoError) : List Bytes → ℕ → Bytes → Transfer (ℕ × Bytes)
  | [], sent, hashed =>
    match failure with
    | some error => refuse 500 error
    | none => return (sent, hashed)
  | bytes :: reads, sent, hashed => do
    let sent := saturatingAdd sent bytes.length
    ensure (sent ≤ size) (refuse 400 (invalidData "media source exceeds declared size"))
    sendData bytes
    transmit size failure reads sent (hashed ++ bytes)

def settle (response : Response) : Except IoError Unit :=
  if response.kind ≠ kindResult ∨ response.status ≠ 200 then (response.intoResult bits).map fun _ => ()
  else .ok ()

def finishUpload (ending : Value) : Transfer Unit := do
  send kindStreamEnd 200 (encodeCbor ending)
  let frame ← recv
  fromExcept (settle bits (.fromFrame frame))

def checkSent (sent size : ℕ) : Transfer Unit :=
  ensure (sent = size) (refuse 400 ⟨.unexpectedEof, "media source is shorter than declared size"⟩)

def digestEnding (sent : ℕ) (hashed : Bytes) : Value :=
  .map [("size", .unsigned (UInt64.ofNat sent)), ("sha256", .text (mediaHex (sha256 hashed).toList))]

def uploadMedia (size : UInt64) (source : Source mediaChunkSize) : Transfer Unit := do
  checkMedia client
  let _ ← openUpload client now [("file_id", .text fileId), ("size", .unsigned size)]
  let (sent, hashed) ← transmit size.toNat source.failure source.reads 0 []
  checkSent sent size.toNat
  finishUpload bits (digestEnding sha256 sent hashed)

def acceptedOffset (offset : UInt64) (accepted : Frame) : Except IoError UInt64 := do
  let details ← decodeCbor bits accepted.payload
  return ((details.get "offset").bind Value.asU64).getD offset

def isAsciiHexdigit (b : UInt8) : Bool := (JsonText.hexValue (Char.ofNat b.toNat)).isSome

def checkpointValid (size offset : UInt64) (checksum : String) : Bool :=
  offset ≤ size && (utf8 checksum).length = 64 && (utf8 checksum).all isAsciiHexdigit

def resumedEnding (size : UInt64) (checksum : String) : Value :=
  .map [("size", .unsigned size), ("sha256", .text checksum)]

def uploadMediaResumable (size offset : UInt64) (checksum : String) (source : Source mediaChunkSize) :
    Transfer Unit := do
  ensure (checkpointValid size offset checksum)
    (throw (invalidData "invalid resumable upload checkpoint"))
  checkMedia client
  let accepted ← openUpload client now
    [("file_id", .text fileId), ("size", .unsigned size), ("offset", .unsigned offset)]
  let accepted ← fromExcept (acceptedOffset bits offset accepted)
  ensure (accepted = offset) do
    remove
    throw (invalidData "media node checkpoint mismatch")
  let (sent, _) ← transmit size.toNat source.failure source.reads offset.toNat []
  checkSent sent size.toNat
  finishUpload bits (resumedEnding size checksum)

def count (sent len : ℕ) : Transfer ℕ :=
  fromExcept ((checkedAdd sent len).elim (.error (invalidData "E2E media upload size overflow")) .ok)

/-- The loop of the encrypted upload. A piece that cannot be sealed ends it without an abort. -/
def transmitSealed (A : Aead MediaKey) (failure : Option IoError) :
    List Bytes → MediaEncryptor → ℕ → Bytes → Transfer (MediaEncryptor × ℕ × Bytes)
  | [], encryptor, sent, hashed =>
    match failure with
    | some error => refuse 500 error
    | none => return (encryptor, sent, hashed)
  | bytes :: reads, encryptor, sent, hashed =>
    match encryptor.sealChunk A bytes with
    | (_, .error error) => throw error
    | (encryptor, .ok encrypted) => do
      let sent ← count sent encrypted.length
      sendData encrypted
      transmitSealed A failure reads encryptor sent (hashed ++ encrypted)

def uploadMediaE2eWithEncryptor (A : Aead MediaKey) (plaintextSize : ℕ)
    (source : Source MediaContainer.mediaChunkSize) (encryptor : MediaEncryptor) :
    Transfer Unit := do
  let encryptedSize ← fromExcept (encryptedMediaSize plaintextSize)
  checkMedia client
  let _ ← openUpload client now [("file_id", .text fileId),
    ("size", .unsigned (UInt64.ofNat encryptedSize))]
  let header := encryptor.header
  let sent ← count 0 header.length
  sendData header
  let (encryptor, sent, hashed) ← transmitSealed A source.failure source.reads encryptor sent header
  orAbort 400 (fromExcept encryptor.finish)
  ensure (sent = encryptedSize) (refuse 500 (invalidData "E2E media ciphertext size mismatch"))
  finishUpload bits (digestEnding sha256 sent hashed)

def isEnd : StreamOp → Bool
  | .send kind _ _ => kind = kindStreamEnd
  | _ => false

def Quiet (log : List StreamEvent) : Prop := ∀ e ∈ log, isEnd e.op = false

theorem Quiet.append {log new : List StreamEvent} (h : Quiet log) (hnew : Quiet new) :
    Quiet (log ++ new) := by
  intro e he
  obtain he | he := List.mem_append.mp he
  · exact h e he
  · exact hnew e he

/-- The program sends no `STREAM_END`. -/
abbrev Holds {α : Type} (p : Transfer α) : Prop := Uses (fun op => isEnd op = false) p.run

theorem holds_compositional : Compositional fun _ (p : StreamProg _) =>
    Uses (fun op => isEnd op = false) p :=
  uses_compositional _

variable {α : Type}

theorem holds_pure (a : α) : Holds (pure a : Transfer α) := trivial

theorem holds_throw (e : IoError) : Holds (throw e : Transfer α) := trivial

theorem holds_fromExcept (x : Except IoError α) : Holds (fromExcept x) := trivial

theorem holds_abort (status : ℕ) : Holds (abort status) := ⟨rfl, fun _ => trivial⟩

theorem holds_remove : Holds remove := ⟨rfl, fun _ => trivial⟩

theorem holds_refuse (status : ℕ) (error : IoError) : Holds (refuse status error : Transfer α) :=
  holds_compositional.tryBind (holds_abort status) fun _ => holds_throw error

theorem holds_ensure {condition : Bool} {otherwise : Transfer Unit} (h : Holds otherwise) :
    Holds (ensure condition otherwise) := by
  unfold ensure
  split_ifs
  · exact holds_pure ()
  · exact h

theorem holds_orAbort (status : ℕ) {x : Transfer α} (h : Holds x) : Holds (orAbort status x) := by
  refine holds_compositional.bind h ?_
  intro a
  cases a with
  | ok a => exact holds_pure a
  | error e => exact holds_refuse status e

theorem holds_checkMedia (client : MediaClient) : Holds (checkMedia client) :=
  holds_ensure (holds_throw _)

theorem holds_openUpload (client : MediaClient) (now : ℕ) (fields : List (String × Value)) :
    Holds (openUpload client now fields) := by
  refine holds_compositional.tryBind ⟨rfl, fun _ => trivial⟩ fun id => ?_
  refine holds_compositional.tryBind ⟨rfl, fun _ => trivial⟩ fun accepted => ?_
  refine holds_compositional.tryBind (holds_ensure ?_) fun _ => holds_pure accepted
  exact holds_compositional.tryBind holds_remove fun _ => holds_throw _

theorem holds_sendData (payload : Bytes) : Holds (sendData payload) :=
  holds_orAbort 500 ⟨rfl, fun _ => trivial⟩

theorem holds_transmit (size : ℕ) (failure : Option IoError) (reads : List Bytes) (sent : ℕ)
    (hashed : Bytes) : Holds (transmit size failure reads sent hashed) := by
  induction reads generalizing sent hashed with
  | nil =>
    cases failure with
    | none => exact holds_pure _
    | some error => exact holds_refuse 500 error
  | cons bytes reads ih =>
    refine holds_compositional.tryBind (holds_ensure (holds_refuse _ _)) fun _ => ?_
    exact holds_compositional.tryBind (holds_sendData bytes) fun _ => ih _ _

theorem holds_checkSent (sent size : ℕ) : Holds (checkSent sent size) :=
  holds_ensure (holds_refuse _ _)

theorem holds_transmitSealed (A : Aead MediaKey) (failure : Option IoError) (reads : List Bytes)
    (encryptor : MediaEncryptor) (sent : ℕ) (hashed : Bytes) :
    Holds (transmitSealed A failure reads encryptor sent hashed) := by
  induction reads generalizing encryptor sent hashed with
  | nil =>
    cases failure with
    | none => exact holds_pure _
    | some error => exact holds_refuse 500 error
  | cons bytes reads ih =>
    unfold transmitSealed
    split
    · exact holds_throw _
    · refine holds_compositional.tryBind (holds_fromExcept _) fun sent => ?_
      exact holds_compositional.tryBind (holds_sendData _) fun _ => ih _ _ _

/-- A connection and a node that take everything: `ack` is the answer to `STREAM_OPEN`, `last` the
one to `STREAM_END`. -/
def obliging (id : ℕ) (ack last : Frame) : Environment StreamOp StreamAns := fun log op =>
  match op with
  | .begin _ _ _ _ => (.ok id : Except IoError ℕ)
  | .recv => (.ok (if log.any fun e => isEnd e.op then last else ack) : Except IoError Frame)
  | .send _ _ _ => (.ok () : Except IoError Unit)
  | .abort _ => ()
  | .remove => ()
  | .writeAll _ => Written.all
  | .flush => (.ok () : Except IoError Unit)

end Mst5Client.MediaStreams
