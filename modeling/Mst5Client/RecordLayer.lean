import Mst5Client.AuthenticatedCipher
import Mst5Client.IoResult

set_option autoImplicit false

/-!
# The MST5 record layer

`CipherState`, `Session` and the functions around them as `src/lib.rs` has them. ChaCha20-Poly1305
and HKDF-SHA256 are parameters.
-/
namespace Mst5Client.RecordLayer
open ByteOrder AuthenticatedCipher IoResult

def maxTransportPayload : ℕ := 20 * 1024 * 1024
def paddingBlock : ℕ := 256
def largePaddingBlock : ℕ := 128
def largePaddingThreshold : ℕ := 1024
def maxRecords : ℕ := 2 ^ 20
def maxPlaintextBytes : ℕ := 2 ^ 30
def rekeyRecords : ℕ := 2 ^ 18
def rekeyBytes : ℕ := 256 * 2 ^ 20

def recordLabel : Bytes := [77, 83, 84, 53, 32, 114, 101, 99, 111, 114, 100] -- MST5 record

abbrev Key := Block 32

/-- `hkdf(chaining_key, input_key_material)`, both halves of the output. -/
abbrev Hkdf := Key → Bytes → Key × Key

structure RecordCrypto where
  aead : Aead Key
  hkdf : Hkdf

structure CipherState where
  key : Key
  nonce : ℕ
  plaintextBytes : ℕ
  generation : ℕ
deriving DecidableEq

structure Session where
  sealState : CipherState
  openState : CipherState
  handshakeHash : Block 32
deriving DecidableEq

inductive Record where
  | application (payload : Bytes)
  | close
deriving DecidableEq, Repr

def CipherState.new (key : Key) : CipherState := ⟨key, 0, 0, 0⟩

def CipherState.checkLimit (c : CipherState) (plaintextLen : ℕ) : Except IoError Unit :=
  if maxRecords ≤ c.nonce then
    .error (invalidData "MST5 record limit reached; reconnect required")
  else
    match checkedAdd c.plaintextBytes plaintextLen with
    | none => .error (invalidData "MST5 byte count overflow")
    | some total =>
      if maxPlaintextBytes < total then
        .error (invalidData "MST5 byte limit reached; reconnect required")
      else .ok ()

def nextKey (hkdf : Hkdf) (handshakeHash : Block 32) (key : Key) (generation : ℕ) : Key :=
  (hkdf key (handshakeHash.toList ++ beBytes 8 generation)).1

def CipherState.commit (hkdf : Hkdf) (handshakeHash : Block 32) (c : CipherState)
    (plaintextLen : ℕ) : CipherState × Except IoError Unit :=
  match checkedAdd c.plaintextBytes plaintextLen with
  | none => (c, .error (invalidData "MST5 byte count overflow"))
  | some plaintextBytes =>
    let c := { c with plaintextBytes }
    match checkedAdd c.nonce 1 with
    | none => (c, .error (invalidData "MST5 nonce exhausted"))
    | some nonce =>
      let c := { c with nonce }
      if rekeyRecords ≤ c.nonce ∨ rekeyBytes ≤ c.plaintextBytes then
        match checkedAdd c.generation 1 with
        -- the failing `?` keeps the assignments before it
        | none => (c, .error (invalidData "MST5 key generation exhausted"))
        | some generation =>
          ({ key := nextKey hkdf handshakeHash c.key generation
             nonce := 0
             plaintextBytes := 0
             generation }, .ok ())
      else (c, .ok ())

/-- `plaintext` is the caller's buffer; an error leaves it alone. -/
def transportPlaintextInto (plaintext : Bytes) (contentType : UInt8) (payload : Bytes) :
    Except IoError Bytes :=
  if 1 < contentType ∨ (contentType = 1 ∧ payload ≠ []) then
    .error (invalidInput "invalid MST5 transport content type")
  else if maxTransportPayload < payload.length then
    .error (invalidInput "MST5 transport payload is too large")
  else
    match checkedAdd 5 payload.length with
    | none => .error (invalidInput "MST5 transport payload overflow")
    | some base =>
      let block := if base ≤ largePaddingThreshold then paddingBlock else largePaddingBlock
      match checkedAdd base (block - 1) with
      | none => .error (invalidInput "MST5 transport padding overflow")
      | some value =>
        let padded := value / block * block
        let plaintext := resize (clear plaintext) padded
        let plaintext := plaintext.set 0 contentType
        let plaintext := copyAt plaintext 1 (beBytes 4 payload.length)
        .ok (copyAt plaintext 5 payload)

def transportPlaintext (contentType : UInt8) (payload : Bytes) : Except IoError Bytes :=
  transportPlaintextInto [] contentType payload

def parseTransportPlaintext (plaintext : Bytes) : Except IoError Record :=
  if plaintext.length < 5 then
    .error (invalidData "invalid MST5 transport padding length")
  else
    let contentType := plaintext.headD 0
    let payloadLen := ofBe ((plaintext.drop 1).take 4)
    if maxTransportPayload < payloadLen ∨ plaintext.length < 5 + payloadLen then
      .error (invalidData "invalid MST5 transport payload length")
    else if (plaintext.drop (5 + payloadLen)).any (· ≠ 0) then
      .error (invalidData "invalid MST5 transport padding")
    else if contentType = 0 then
      .ok (.application ((plaintext.drop 5).take payloadLen))
    else if contentType = 1 ∧ payloadLen = 0 then
      .ok .close
    else .error (invalidData "invalid MST5 transport content type")

def maxRecordLen : ℕ :=
  let base := 5 + maxTransportPayload
  let padded := (base + largePaddingBlock - 1) / largePaddingBlock * largePaddingBlock
  8 + padded + tagLen

def recordAad (handshakeHash : Block 32) (frameLength sequence : ℕ) : Except IoError Bytes :=
  if frameLength < 2 ^ 32 then
    .ok (recordLabel ++ handshakeHash.toList ++ beBytes 4 frameLength ++ beBytes 8 sequence)
  else .error (invalidData "MST5 encrypted record is too large")

def aeadNonce (nonce : ℕ) : Bytes := List.replicate 4 0 ++ leBytes 8 nonce

def aeadEncrypt (C : RecordCrypto) (key : Key) (nonce : ℕ) (aad plaintext : Bytes) :
    Except IoError Bytes :=
  match C.aead.encrypt key (aeadNonce nonce) aad plaintext with
  | some ciphertext => .ok ciphertext
  | none => .error (invalidData "MST5 encryption failed")

def aeadDecrypt (C : RecordCrypto) (key : Key) (nonce : ℕ) (aad ciphertextAndTag : Bytes) :
    Except IoError Bytes :=
  if ciphertextAndTag.length < tagLen then
    .error (invalidData "MST5 ciphertext is too short")
  else
    match C.aead.decrypt key (aeadNonce nonce) aad ciphertextAndTag with
    | some plaintext => .ok plaintext
    | none => .error (invalidData "MST5 authentication failed")

def Session.sealRecord (C : RecordCrypto) (s : Session) (contentType : UInt8) (payload : Bytes) :
    Session × Except IoError Bytes :=
  match transportPlaintext contentType payload with
  | .error e => (s, .error e)
  | .ok plaintext =>
    match s.sealState.checkLimit plaintext.length with
    | .error e => (s, .error e)
    | .ok () =>
      let sequence := s.sealState.nonce
      match (checkedAdd 8 plaintext.length).bind (checkedAdd · tagLen) with
      | none => (s, .error (invalidData "MST5 record length overflow"))
      | some frameLength =>
        match recordAad s.handshakeHash frameLength sequence with
        | .error e => (s, .error e)
        | .ok aad =>
          match aeadEncrypt C s.sealState.key sequence aad plaintext with
          | .error e => (s, .error e)
          | .ok ciphertext =>
            let record := beBytes 8 sequence ++ ciphertext
            match s.sealState.commit C.hkdf s.handshakeHash plaintext.length with
            | (sealState, .error e) => ({ s with sealState }, .error e)
            | (sealState, .ok ()) => ({ s with sealState }, .ok record)

def Session.openRecord (C : RecordCrypto) (s : Session) (record : Bytes) :
    Session × Except IoError Record :=
  if record.length < 8 + tagLen ∨ maxRecordLen < record.length then
    (s, .error (invalidData "invalid MST5 encrypted record length"))
  else
    let sequence := ofBe (record.take 8)
    if sequence ≠ s.openState.nonce then
      (s, .error (invalidData "MST5 encrypted record sequence mismatch"))
    else
      let plaintextLen := record.length - 8 - tagLen
      match s.openState.checkLimit plaintextLen with
      | .error e => (s, .error e)
      | .ok () =>
        match recordAad s.handshakeHash record.length sequence with
        | .error e => (s, .error e)
        | .ok aad =>
          match aeadDecrypt C s.openState.key sequence aad (record.drop 8) with
          | .error e => (s, .error e)
          | .ok plaintext =>
            match parseTransportPlaintext plaintext with
            | .error e => (s, .error e)
            | .ok decoded =>
              match s.openState.commit C.hkdf s.handshakeHash plaintext.length with
              | (openState, .error e) => ({ s with openState }, .error e)
              | (openState, .ok ()) => ({ s with openState }, .ok decoded)

end Mst5Client.RecordLayer
