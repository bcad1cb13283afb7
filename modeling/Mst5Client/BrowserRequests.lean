import Mst5Client.BrowserReads
import Mst5Client.FrameDecoding
import Mst5Client.HttpResponses
import Mst5Client.JsonValues

set_option autoImplicit false

/-!
# Requests of the browser client

`BrowserSession::request` of `wasm/src/lib.rs` in the parts between which it waits, and what the
methods of `Mst5Web` ask and return. The CBOR and JavaScript conversions and the table of operations
are parameters.
-/
namespace Mst5Client.BrowserRequests
open ByteOrder AuthenticatedCipher RecordLayer BrowserRecords BrowserTunnel BrowserReads
  FrameDecoding JsonValues
open AccountClient (trim)
open HttpResponses (splitOnce)

/-- A session with its `next_request`. -/
structure Link where
  session : BrowserSession
  nextRequest : ℕ

def Link.takeRequestId (link : Link) : Except JsError (ℕ × Link) :=
  if link.nextRequest + 1 < 2 ^ 64 then
    .ok (link.nextRequest, { link with nextRequest := link.nextRequest + 1 })
  else .error ⟨"MST5 request id exhausted"⟩

def jsError : ReadError → JsError
  | .transport e => e
  | .rejected e => e

def readMatchingFrame (A : Aead Key) (D : Decompressors) (id : ℕ) (s : BrowserSession)
    (polls : List Poll) : Reading BrowserFrame :=
  match h : s.readRecord A polls with
  | .waiting t => .waiting t
  | .returned t rest (.error e) => .returned t rest (.error e)
  | .returned t rest (.ok payload) =>
    match frameDecode D payload with
    | .error e => .returned t rest (.error (.rejected e))
    | .ok frame =>
      have := unread_lt A h (by simp)
      if frame.id = id then .returned t rest (.ok frame) else readMatchingFrame A D id t rest
termination_by unread s polls

theorem readMatchingFrame_id {A : Aead Key} {D : Decompressors} {id : ℕ} {s t : BrowserSession}
    {polls rest : List Poll} {frame : BrowserFrame}
    (h : readMatchingFrame A D id s polls = .returned t rest (.ok frame)) : frame.id = id := by
  induction s, polls using readMatchingFrame.induct A D id with
  | case1 s polls u hread =>
    rw [readMatchingFrame] at h
    split at h <;> simp_all
  | case2 s polls u rest' e hread =>
    rw [readMatchingFrame] at h
    split at h <;> simp_all
  | case3 s polls u rest' payload hread e hdecode =>
    rw [readMatchingFrame] at h
    split at h <;> simp_all
  | case4 s polls u rest' payload hread hlt hdecode =>
    rw [readMatchingFrame] at h
    split at h <;> simp_all
  | case5 s polls u rest' payload hread frame' hdecode hlt hid ih =>
    rw [readMatchingFrame] at h
    split at h <;> simp_all

structure Serde (J : Type) where
  toCbor : Json → Option Bytes
  fromCbor : Bytes → Option Json
  toJs : Json → Option J
  operation : String → String → Except JsError ℕ

/-- The methods that work with the session that is kept. `command` gets the value its argument
converts to. -/
inductive Call where
  | connect
  | close
  | startEmailAuth (email : String)
  | verifyEmailAuth (email code cloudPassword : String)
  | command (input : Option Json)

inductive Outcome (J : Type) where
  | done
  | token (value : String)
  | value (value : J)
  | failed (e : JsError)

structure Query where
  kind : UInt8
  code : ℕ
  body : Json

def kindCommand : UInt8 := 2
def kindQuery : UInt8 := 3

variable {J : Type} (serde : Serde J)

def upper (s : String) : String := String.ofList (s.toList.map Char.toUpper)

def commandQuery (input : Json) : Except JsError Query :=
  match input with
  | .object _ => do
    let method := upper (((input.get "method").bind Json.asStr).getD "GET")
    let rawPath := ((input.get "path").bind Json.asStr).getD "/"
    let (path, query) := match splitOnce '?' rawPath.toList with
      | none => (rawPath, none)
      | some (path, query) => (String.ofList path, some (String.ofList query))
    let code ← serde.operation method path
    let payload := if method = "GET" then
        match query with
        | some query => .object [("query", .string query)]
        | none => .object []
      else (input.get "body").getD (.object [])
    return ⟨if method = "GET" then kindQuery else kindCommand, code, payload⟩
  | _ => .error ⟨"messenger command must be an object"⟩

def Call.query : Call → Option (Except JsError Query)
  | .connect => none
  | .close => none
  | .startEmailAuth email =>
    if trim email = "" then some (.error ⟨"e-mail is required"⟩)
    else some (.ok ⟨kindCommand, 3, .object [("email", .string (trim email))]⟩)
  | .verifyEmailAuth email code cloudPassword =>
    some (.ok ⟨kindCommand, 4, .object [("cloud_password", .string cloudPassword),
      ("code", .string (trim code)), ("email", .string (trim email))]⟩)
  | .command none => some (.error ⟨"invalid messenger JSON command"⟩)
  | .command (some input) => some (commandQuery serde input)

def successfulResponse (requestKind responseKind : UInt8) (code : ℕ) : Bool :=
  responseKind = (if requestKind = 11 then 11 else 4) ∧ 200 ≤ code ∧ code < 300

def authSessionToken (value : Json) : Option String :=
  ((value.get "token").bind Json.asStr).filter fun token => trim token ≠ ""

def Call.conclude (call : Call) (kind : UInt8) (frame : BrowserFrame) : Outcome J :=
  match serde.fromCbor frame.payload with
  | none => .failed ⟨"invalid CBOR response"⟩
  | some value =>
    if successfulResponse kind frame.kind frame.code then
      match call with
      | .verifyEmailAuth _ _ _ =>
        match authSessionToken value with
        | some token => .token token
        | none => .failed ⟨"MST5 auth response did not contain a session"⟩
      | .command _ =>
        match serde.toJs value with
        | some js => .value js
        | none => .failed ⟨"cannot return MST5 response"⟩
      | _ => .done
    else .failed ⟨((value.get "message").bind Json.asStr).getD "MST5 request failed"⟩

end Mst5Client.BrowserRequests
