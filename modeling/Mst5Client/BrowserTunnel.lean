import Mst5Client.BrowserRecords

set_option autoImplicit false

/-!
# The browser session and its HTTP tunnel

`BrowserSession` of `wasm/src/lib.rs` writes and reads records through `M5ohFetch`, one GET for each
exchange.
-/
namespace Mst5Client.BrowserTunnel
open ByteOrder AuthenticatedCipher RecordLayer BrowserRecords

def maxGetTarget : ℕ := 23 * 1024

def getTargetPrefix : ℕ := 4

def packetRouteBytes : ℕ := 8

def maxGetRecordBytes : ℕ := (maxGetTarget - getTargetPrefix) / 4 * 3 - packetRouteBytes

structure BrowserSession where
  upstreamSeq : ℕ
  downstreamSeq : ℕ
  received : Bytes
  sealState : BrowserCipher
  openState : BrowserCipher
  handshakeHash : Block 32
deriving DecidableEq

/-- `answer` is what `fetch` returns; an error means that the router has not taken the bytes. -/
def upstreamBytes (answer : Except JsError Bytes) (record : Bytes) : Except JsError Bytes :=
  if maxGetRecordBytes < record.length then
    .error ⟨"M5oH encrypted GET record exceeds CDN limit"⟩
  else answer

/-- The result of a write, and the sequence number and bytes the router took, if it did. -/
structure Written where
  sent : Option (ℕ × Bytes)
  result : Except JsError Unit

def BrowserSession.writeRecord (A : Aead Key) (s : BrowserSession) (frame : Bytes)
    (answer : Except JsError Bytes) : BrowserSession × Written :=
  match browserSeal A s.handshakeHash s.sealState frame with
  | (cipher, .error e) => ({ s with sealState := cipher }, ⟨none, .error e⟩)
  | (cipher, .ok record) =>
    let s := { s with sealState := cipher }
    let wire := beBytes 4 record.length ++ record
    match upstreamBytes answer wire with
    | .error e => (s, ⟨none, .error e⟩)
    | .ok _ =>
      if s.upstreamSeq + 1 < 2 ^ 64 then
        ({ s with upstreamSeq := s.upstreamSeq + 1 }, ⟨some (s.upstreamSeq, wire), .ok ()⟩)
      else (s, ⟨some (s.upstreamSeq, wire), .error ⟨"M5oH upload sequence exhausted"⟩⟩)

structure WriteCall where
  kind : UInt8
  code : ℕ
  id : ℕ
  payload : Bytes
  random : Option (Block 16)
  answer : Except JsError Bytes

def WriteCall.frame (call : WriteCall) : Except JsError Bytes :=
  frameEncode call.random call.kind call.code call.id call.payload

def BrowserSession.writeFrame (A : Aead Key) (s : BrowserSession) (call : WriteCall) :
    BrowserSession × Written :=
  match call.frame with
  | .error e => (s, ⟨none, .error e⟩)
  | .ok frame => s.writeRecord A frame call.answer

/-- What one turn of the polling loop meets. `slept` is the answer of the timer, which is
asked after an empty body only. -/
inductive Poll where
  | fails (e : JsError)
  | answers (bytes : Bytes) (slept : Except JsError Unit)

/-- The source has one error type. A caller that tries again does so after a transport error. -/
inductive ReadError where
  | transport (e : JsError)
  | rejected (e : JsError)
deriving DecidableEq

/-- A read waits when the polls are used up before it returns. -/
inductive Reading (α : Type) where
  | waiting (s : BrowserSession)
  | returned (s : BrowserSession) (rest : List Poll) (result : Except ReadError α)

def Reading.andThen {α β : Type} (r : Reading α) (f : BrowserSession → List Poll → α → Reading β) :
    Reading β :=
  match r with
  | .waiting s => .waiting s
  | .returned s rest (.error e) => .returned s rest (.error e)
  | .returned s rest (.ok a) => f s rest a

def BrowserSession.drain (s : BrowserSession) (length : ℕ) (polls : List Poll) : Reading Bytes :=
  .returned { s with received := s.received.drop length } polls (.ok (s.received.take length))

def BrowserSession.readExact (s : BrowserSession) (length : ℕ) : List Poll → Reading Bytes
  | [] => if s.received.length < length then .waiting s else s.drain length []
  | poll :: rest =>
    if s.received.length < length then
      match poll with
      | .fails e => .returned s rest (.error (.transport e))
      | .answers bytes slept =>
        if s.downstreamSeq + 1 < 2 ^ 64 then
          let s := { s with downstreamSeq := s.downstreamSeq + 1 }
          if bytes = [] then
            match slept with
            | .error e => .returned s rest (.error (.transport e))
            | .ok () => s.readExact length rest
          else { s with received := s.received ++ bytes }.readExact length rest
        else .returned s rest (.error (.rejected ⟨"M5oH download sequence exhausted"⟩))
    else s.drain length (poll :: rest)

def BrowserSession.openNext (A : Aead Key) (s : BrowserSession) (rest : List Poll) (record : Bytes) :
    Reading Bytes :=
  match browserOpen A s.handshakeHash s.openState record with
  | (cipher, .ok payload) => .returned { s with openState := cipher } rest (.ok payload)
  | (cipher, .error e) => .returned { s with openState := cipher } rest (.error (.rejected e))

def BrowserSession.readRecord (A : Aead Key) (s : BrowserSession) (polls : List Poll) :
    Reading Bytes :=
  (s.readExact 4 polls).andThen fun s rest size =>
    let length := ofBe size
    if length < 24 ∨ maxRecordBytes + 512 < length then
      .returned s rest (.error (.rejected ⟨"invalid MST5 record length"⟩))
    else (s.readExact length rest).andThen fun s rest record => s.openNext A rest record

end Mst5Client.BrowserTunnel
