import Mst5Client.AuthenticatedCipher
import Mst5Client.IoResult

set_option autoImplicit false

/-!
# Messages between two identities

`Identity::seal` and `Identity::open` of `src/e2e.rs` with the version 4 message encoding, and the
envelope bytes of the C interface. Key agreement, hashing, the cipher and the compressor are
parameters; `bits` is the width of `usize`.
-/
namespace Mst5Client.IdentityMessages
open ByteOrder AuthenticatedCipher IoResult

inductive ZstdError where
  | initialization
  | operation

structure E2eCrypto where
  publicKey : Block 32 → Block 32
  diffieHellman : Block 32 → Block 32 → Block 32
  sha256 : Bytes → Block 32
  hkdf : Bytes → Bytes → Bytes → Block 32
  aead : Aead (Block 32)
  compress : Bytes → Except ZstdError Bytes
  decompress : Bytes → ℕ → Except ZstdError Bytes

def utf8 (s : String) : Bytes := s.toUTF8.data.toList

theorem utf8_injective : Function.Injective utf8 := by
  intro s t h
  apply String.toByteArray_inj.mp
  exact ByteArray.ext (Array.toList_inj.mp h)

theorem utf8_eq_flatMap (s : String) : utf8 s = s.toList.flatMap String.utf8EncodeChar := by
  have h : s.toByteArray = s.toList.utf8Encode := by
    rw [← String.toByteArray_ofList, String.ofList_toList]
  change s.toByteArray.data.toList = _
  rw [h]
  simp [List.utf8Encode]

def envelopeVersion : UInt8 := 4
def legacyEnvelopeVersion : UInt8 := 3
def context : Bytes := utf8 "ove-messenger-e2e-v3"
def messageV4Context : Bytes := utf8 "ove-messenger-e2e-v4"

def messageV4Header : Bytes := [77, 52, 84, 90] -- M4TZ

def messageV4Zstd : UInt8 := 1
def messageCompressionThreshold : ℕ := 1024
def messageCompressionSavingsNumerator : ℕ := 9
def messageCompressionSavingsDenominator : ℕ := 10
def maxMessageBytes : ℕ := 4 * 1024 * 1024
def maxCompressionRatio : ℕ := 64

structure Envelope where
  version : UInt8
  nonce : Block 24
  ciphertext : Bytes

structure Identity (C : E2eCrypto) where
  privateKey : Block 32
  publicKey : Block 32
  publicKey_eq : publicKey = C.publicKey privateKey

def Identity.fromPrivate (C : E2eCrypto) (privateKey : Block 32) : Identity C :=
  ⟨privateKey, C.publicKey privateKey, rfl⟩

def saturatingMul (bits a b : ℕ) : ℕ := min (a * b) (2 ^ bits - 1)

def other (message : String) : IoError := ⟨.other, message⟩

section Encoding
variable (C : E2eCrypto) (bits : ℕ)

def e2eZstdCompress (input : Bytes) : Except IoError Bytes :=
  match C.compress input with
  | .error .initialization => .error (other "E2E zstd initialization failed")
  | .error .operation => .error (other "E2E zstd compression failed")
  | .ok output => .ok output

def e2eZstdDecompress (input : Bytes) (limit : ℕ) : Except IoError Bytes :=
  match C.decompress input limit with
  | .error .initialization => .error (invalidData "E2E zstd initialization failed")
  | .error .operation => .error (invalidData "invalid or oversized E2E v4 zstd payload")
  | .ok output => .ok output

def worthwhile (plaintext compressed : Bytes) : Bool :=
  saturatingMul bits compressed.length messageCompressionSavingsDenominator ≤
      saturatingMul bits plaintext.length messageCompressionSavingsNumerator ∧
    plaintext.length ≤ saturatingMul bits compressed.length maxCompressionRatio

def encodedBody (plaintext : Bytes) : Except IoError (UInt8 × Bytes) :=
  if messageCompressionThreshold ≤ plaintext.length then do
    let compressed ← e2eZstdCompress C plaintext
    if worthwhile bits plaintext compressed then return (messageV4Zstd, compressed)
    else return (0, plaintext)
  else return (0, plaintext)

def encodeMessageV4 (plaintext : Bytes) : Except IoError Bytes :=
  if maxMessageBytes < plaintext.length then .error (invalidData "E2E message is too large")
  else do
    let (flags, encoded) ← encodedBody C bits plaintext
    return messageV4Header ++ [flags] ++ beBytes 4 plaintext.length ++ encoded

def decodedBody (flags : UInt8) (body : Bytes) (originalLen : ℕ) : Except IoError Bytes :=
  if flags &&& messageV4Zstd ≠ 0 then
    if body = [] then .error (invalidData "empty E2E v4 zstd payload")
    else do
      let output ← e2eZstdDecompress C body originalLen
      if saturatingMul bits body.length maxCompressionRatio < output.length then
        .error (invalidData "E2E v4 compression ratio exceeds limit")
      else return output
  else return body

def decodeMessageV4 (plaintext : Bytes) : Except IoError Bytes :=
  if plaintext.length < 9 ∨ plaintext.take 4 ≠ messageV4Header then
    .error (invalidData "invalid E2E v4 message payload")
  else
    let flags := (plaintext.drop 4).headD 0
    if flags &&& ~~~messageV4Zstd ≠ 0 then
      .error (invalidData "unsupported E2E v4 message encoding")
    else
      let originalLen := ofBe ((plaintext.drop 5).take 4)
      if maxMessageBytes < originalLen then .error (invalidData "E2E v4 message is too large")
      else do
        let output ← decodedBody C bits flags (plaintext.drop 9) originalLen
        if output.length ≠ originalLen then .error (invalidData "invalid E2E v4 message length")
        else return output

end Encoding

def orderedIds (left right : String) : String × String :=
  -- Rust compares strings by their bytes
  if utf8 left ≤ utf8 right then (left, right) else (right, left)

def messageAad (sender recipient : String) : Bytes :=
  context ++ [0] ++ utf8 sender ++ [0] ++ utf8 recipient

def messageV4Aad (sender recipient : String) : Bytes :=
  messageV4Context ++ [0] ++ utf8 sender ++ [0] ++ utf8 recipient

variable {C : E2eCrypto}

def Identity.sessionKeyWithLabel (self : Identity C) (peerPublic : Block 32) (left right : String)
    (label : Bytes) : Except IoError (Block 32) :=
  let shared := C.diffieHellman self.privateKey peerPublic
  if shared.toList.all (· = 0) then .error (invalidData "invalid X25519 peer key")
  else
    let (first, second) := orderedIds left right
    let salt := C.sha256 (context ++ [0] ++ utf8 first ++ [0] ++ utf8 second)
    .ok (C.hkdf salt.toList shared.toList label)

def Identity.sessionKey (self : Identity C) (peerPublic : Block 32) (left right : String) :
    Except IoError (Block 32) :=
  self.sessionKeyWithLabel peerPublic left right (utf8 "message-key")

def Identity.seal (self : Identity C) (bits : ℕ) (random : Except String (Block 24))
    (peerPublic : Block 32) (fromId toId : String) (plaintext : Bytes) :
    Except IoError Envelope := do
  let key ← self.sessionKeyWithLabel peerPublic fromId toId (utf8 "message-v4-key")
  let nonce ← random.mapError fun e => other ("OS randomness failed: " ++ e)
  let aad := messageV4Aad fromId toId
  let encoded ← encodeMessageV4 C bits plaintext
  match C.aead.encrypt key nonce.toList aad encoded with
  | none => .error (invalidData "E2E encryption failed")
  | some ciphertext => .ok ⟨envelopeVersion, nonce, ciphertext⟩

def Identity.openEnvelope (self : Identity C) (bits : ℕ) (peerPublic : Block 32)
    (fromId toId : String) (envelope : Envelope) : Except IoError Bytes :=
  if (envelope.version ≠ legacyEnvelopeVersion ∧ envelope.version ≠ envelopeVersion) ∨
      envelope.ciphertext.length < 16 then
    .error (invalidData "unsupported or invalid E2E envelope")
  else do
    let (key, aad) ←
      if envelope.version = legacyEnvelopeVersion then do
        let key ← self.sessionKey peerPublic fromId toId
        pure (key, messageAad fromId toId)
      else do
        let key ← self.sessionKeyWithLabel peerPublic fromId toId (utf8 "message-v4-key")
        pure (key, messageV4Aad fromId toId)
    match C.aead.decrypt key envelope.nonce.toList aad envelope.ciphertext with
    | none => .error (invalidData "E2E message authentication failed")
    | some plaintext =>
      if envelope.version = legacyEnvelopeVersion then .ok plaintext
      else decodeMessageV4 C bits plaintext

structure FfiError where
  code : ℕ
  message : String

def encodeEnvelope (value : Envelope) : Bytes :=
  [value.version] ++ value.nonce.toList ++ value.ciphertext

def decodeEnvelope (value : Bytes) : Except FfiError Envelope :=
  if value.length < 41 ∨
      (value.headD 0 ≠ legacyEnvelopeVersion ∧ value.headD 0 ≠ envelopeVersion) then
    .error ⟨1, "unsupported E2E envelope"⟩
  else .ok ⟨value.headD 0, blockOf 24 ((value.drop 1).take 24), value.drop 25⟩

end Mst5Client.IdentityMessages
