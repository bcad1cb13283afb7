import Mst5Client.BrowserTunnel
import Mst5Client.HttpResponses
import Mst5Client.IdentityMessages

set_option autoImplicit false

/-!
# The client's handshake

`client_handshake` of `src/lib.rs` over a byte stream, and `handshake` of `wasm/src/lib.rs`, which
polls for the reply. X25519, SHA-256, HKDF and ChaCha20-Poly1305 are parameters.
-/
namespace Mst5Client.ClientHandshake
open ByteOrder AuthenticatedCipher IoResult RecordLayer BrowserRecords BrowserTunnel
open IdentityMessages (utf8)
open HttpResponses (Incoming)

structure HandshakeCrypto extends RecordCrypto where
  publicKey : Key → Block 32
  diffieHellman : Key → Block 32 → Block 32
  sha256 : Bytes → Block 32

/-! Both files have these constants. -/

def clientMagic : Bytes := utf8 "RCP5"
def serverMagic : Bytes := utf8 "RSP5"
def handshakeMessageLen : ℕ := 48
def protocolName : Bytes := utf8 "Noise_NK_25519_ChaChaPoly_SHA256"
def prologue : Bytes := utf8 "MicroMsg Secure Transport v5\x00RCP5\x00RSP5"

variable (C : HandshakeCrypto)

section Native

structure SymmetricState where
  chainingKey : Key
  handshakeHash : Block 32
  cipherKey : Option Key
  cipherNonce : ℕ

namespace SymmetricState

def mixHash (s : SymmetricState) (data : Bytes) : SymmetricState :=
  { s with handshakeHash := C.sha256 (s.handshakeHash.toList ++ data) }

def new (serverStaticPublic : Block 32) : SymmetricState :=
  let initial := blockOf 32 protocolName
  let state : SymmetricState := ⟨initial, initial, none, 0⟩
  (state.mixHash C prologue).mixHash C serverStaticPublic.toList

def mixKey (s : SymmetricState) (inputKeyMaterial : Bytes) : SymmetricState :=
  let (chainingKey, cipherKey) := C.hkdf s.chainingKey inputKeyMaterial
  { s with chainingKey, cipherKey := some cipherKey, cipherNonce := 0 }

def encryptAndHash (s : SymmetricState) (plaintext : Bytes) :
    Except IoError (SymmetricState × Bytes) :=
  match s.cipherKey with
  | none => .ok (s.mixHash C plaintext, plaintext)
  | some key => do
    let output ← aeadEncrypt C.toRecordCrypto key s.cipherNonce s.handshakeHash.toList plaintext
    match checkedAdd s.cipherNonce 1 with
    | none => .error (invalidData "MST5 handshake nonce exhausted")
    | some cipherNonce => .ok ({ s with cipherNonce }.mixHash C output, output)

def decryptAndHash (s : SymmetricState) (ciphertext : Bytes) :
    Except IoError (SymmetricState × Bytes) :=
  match s.cipherKey with
  | none => .ok (s.mixHash C ciphertext, ciphertext)
  | some key => do
    let output ← aeadDecrypt C.toRecordCrypto key s.cipherNonce s.handshakeHash.toList ciphertext
    match checkedAdd s.cipherNonce 1 with
    | none => .error (invalidData "MST5 handshake nonce exhausted")
    | some cipherNonce => .ok ({ s with cipherNonce }.mixHash C ciphertext, output)

def split (s : SymmetricState) : CipherState × CipherState :=
  let (first, second) := C.hkdf s.chainingKey []
  (CipherState.new first, CipherState.new second)

end SymmetricState

def requireNonzeroShared (shared : Block 32) : Except IoError Unit :=
  if shared.toList.all (· = 0) then .error (invalidData "invalid MST5 X25519 shared secret") else .ok ()

variable (clientPrivate : Key)

def clientHello (pinnedPublic : Block 32) : Except IoError (SymmetricState × Bytes) := do
  let clientPublic := C.publicKey clientPrivate
  let state := (SymmetricState.new C pinnedPublic).mixHash C clientPublic.toList
  let es := C.diffieHellman clientPrivate pinnedPublic
  requireNonzeroShared es
  let (state, tag) ← (state.mixKey C es.toList).encryptAndHash C []
  if tag.length ≠ tagLen then .error (invalidData "invalid MST5 client handshake tag length")
  else .ok (state, clientMagic ++ beBytes 2 handshakeMessageLen ++ clientPublic.toList ++ tag)

def finish (state : SymmetricState) (serverMessage : Bytes) : Except IoError Session := do
  let serverEphemeral : Block 32 := blockOf 32 (serverMessage.take 32)
  let state := state.mixHash C serverEphemeral.toList
  let ee := C.diffieHellman clientPrivate serverEphemeral
  requireNonzeroShared ee
  let (state, payload) ← (state.mixKey C ee.toList).decryptAndHash C (serverMessage.drop 32)
  if payload ≠ [] then .error (invalidData "invalid MST5 server handshake payload")
  else
    let (clientToServer, serverToClient) := state.split C
    .ok ⟨clientToServer, serverToClient, state.handshakeHash⟩

def readReply (state : SymmetricState) (s : Incoming) : Except IoError (Session × Incoming) := do
  let (header, s) ← s.readExact 6
  if header.take 4 ≠ serverMagic ∨ ofBe (header.drop 4) ≠ handshakeMessageLen then
    .error (invalidData "invalid MST5 server hello")
  else
    let (serverMessage, s) ← s.readExact handshakeMessageLen
    let session ← finish C clientPrivate state serverMessage
    return (session, s)

structure ClientRun where
  sent : Option Bytes
  result : Except IoError (Session × Incoming)

/-- `written` is the outcome of writing and flushing the hello. A read that times out fails with the
failure of the stream. -/
def clientHandshake (pinnedPublic : Block 32) (written : Except IoError Unit) (s : Incoming) :
    ClientRun :=
  match clientHello C clientPrivate pinnedPublic with
  | .error e => ⟨none, .error e⟩
  | .ok (state, hello) => ⟨some hello, written >>= fun _ => readReply C clientPrivate state s⟩

structure BrowserState where
  key : Key
  hash : Block 32
  cipher : Option Key
  nonce : ℕ

namespace BrowserState

def mixHash (s : BrowserState) (data : Bytes) : BrowserState :=
  { s with hash := C.sha256 (s.hash.toList ++ data) }

def new (server : Block 32) : BrowserState :=
  let initial := blockOf 32 protocolName
  let value : BrowserState := ⟨initial, initial, none, 0⟩
  (value.mixHash C prologue).mixHash C server.toList

def mixKey (s : BrowserState) (input : Bytes) : BrowserState :=
  let (key, cipher) := C.hkdf s.key input
  { s with key, cipher := some cipher, nonce := 0 }

def encryptAndHash (s : BrowserState) (value : Bytes) : Except JsError (BrowserState × Bytes) :=
  match s.cipher with
  | none => .ok (s.mixHash C value, value)
  | some key => do
    let result ← browserEncrypt C.aead key s.nonce s.hash.toList value
    return ({ s with nonce := (s.nonce + 1) % 2 ^ 64 }.mixHash C result, result)

def decryptAndHash (s : BrowserState) (value : Bytes) : Except JsError (BrowserState × Bytes) :=
  match s.cipher with
  | none => .ok (s.mixHash C value, value)
  | some key => do
    let result ← browserDecrypt C.aead key s.nonce s.hash.toList value
    return ({ s with nonce := (s.nonce + 1) % 2 ^ 64 }.mixHash C value, result)

def split (s : BrowserState) : BrowserCipher × BrowserCipher :=
  let (first, second) := C.hkdf s.key []
  (⟨first, 0⟩, ⟨second, 0⟩)

end BrowserState

def requireShared (value : Block 32) : Except JsError Unit :=
  if value.toList.all (· = 0) then .error ⟨"invalid MST5 key exchange"⟩ else .ok ()

def browserHello (serverKey : Block 32) : Except JsError (BrowserState × Bytes) := do
  let clientPublic := C.publicKey clientPrivate
  let state := (BrowserState.new C serverKey).mixHash C clientPublic.toList
  let es := C.diffieHellman clientPrivate serverKey
  requireShared es
  let (state, tag) ← (state.mixKey C es.toList).encryptAndHash C []
  return (state, clientMagic ++ beBytes 2 48 ++ clientPublic.toList ++ tag)

inductive Polling (α : Type) where
  | waiting
  | returned (rest : List Poll) (result : Except JsError α)

def collect (received : Bytes) (down : ℕ) : List Poll → Polling (Bytes × ℕ)
  | [] => if received.length < 54 then .waiting else .returned [] (.ok (received, down))
  | poll :: rest =>
    if received.length < 54 then
      match poll with
      | .fails e => .returned rest (.error e)
      | .answers body slept =>
        if body = [] then
          match slept with
          | .error e => .returned rest (.error e)
          | .ok () => collect received ((down + 1) % 2 ^ 64) rest
        else collect (received ++ body) ((down + 1) % 2 ^ 64) rest
    else .returned (poll :: rest) (.ok (received, down))

def browserFinish (state : BrowserState) (received : Bytes) (down : ℕ) :
    Except JsError BrowserSession :=
  if received.take 4 ≠ serverMagic ∨ ofBe ((received.drop 4).take 2) ≠ 48 then
    .error ⟨"invalid MST5 server hello"⟩
  else do
    let ephemeral : Block 32 := blockOf 32 ((received.drop 6).take 32)
    let state := state.mixHash C ephemeral.toList
    let ee := C.diffieHellman clientPrivate ephemeral
    requireShared ee
    let (state, payload) ← (state.mixKey C ee.toList).decryptAndHash C ((received.drop 38).take 16)
    if payload ≠ [] then .error ⟨"invalid MST5 server handshake"⟩
    else
      let (sealState, openState) := state.split C
      .ok ⟨2, down, received.drop 54, sealState, openState, state.hash⟩

structure BrowserRun where
  sent : Option (ℕ × Bytes)
  outcome : Polling BrowserSession

def handshake (serverKey : Block 32) (answer : Except JsError Bytes) (polls : List Poll) :
    BrowserRun :=
  match browserHello C clientPrivate serverKey with
  | .error e => ⟨none, .returned polls (.error e)⟩
  | .ok (state, hello) =>
    match upstreamBytes answer hello with
    | .error e => ⟨none, .returned polls (.error e)⟩
    | .ok _ =>
      match collect [] 0 polls with
      | .waiting => ⟨some (1, hello), .waiting⟩
      | .returned rest (.error e) => ⟨some (1, hello), .returned rest (.error e)⟩
      | .returned rest (.ok (received, down)) =>
        ⟨some (1, hello), .returned rest (browserFinish C clientPrivate state received down)⟩

end Native

variable {C}

def SymmetricState.view (s : SymmetricState) : BrowserState :=
  ⟨s.chainingKey, s.handshakeHash, s.cipherKey, s.cipherNonce⟩

def Viewed (native : SymmetricState × Bytes) (browser : BrowserState × Bytes) : Prop :=
  browser = (native.1.view, native.2)

theorem encrypt_same (s : SymmetricState) (hnonce : s.cipherNonce = 0) (plaintext : Bytes) :
    SameOutcome Viewed (s.encryptAndHash C plaintext) (s.view.encryptAndHash C plaintext) := by
  obtain ⟨chainingKey, hash, cipherKey, nonce⟩ := s
  subst hnonce
  cases cipherKey with
  | none => exact .ok rfl
  | some key =>
    change SameOutcome Viewed (aeadEncrypt C.toRecordCrypto key 0 hash.toList plaintext >>= _)
      (browserEncrypt C.aead key 0 hash.toList plaintext >>= _)
    rw [aeadEncrypt, browserEncrypt]
    cases C.aead.encrypt key (aeadNonce 0) hash.toList plaintext with
    | none => exact .error _ _
    | some output => exact .ok rfl

theorem decrypt_same (s : SymmetricState) (hnonce : s.cipherNonce = 0) {ciphertext : Bytes}
    (hlen : ciphertext.length = tagLen) :
    SameOutcome Viewed (s.decryptAndHash C ciphertext) (s.view.decryptAndHash C ciphertext) := by
  obtain ⟨chainingKey, hash, cipherKey, nonce⟩ := s
  subst hnonce
  cases cipherKey with
  | none => exact .ok rfl
  | some key =>
    change SameOutcome Viewed (aeadDecrypt C.toRecordCrypto key 0 hash.toList ciphertext >>= _)
      (browserDecrypt C.aead key 0 hash.toList ciphertext >>= _)
    rw [aeadDecrypt, browserDecrypt, if_neg hlen.not_lt]
    cases C.aead.decrypt key (aeadNonce 0) hash.toList ciphertext with
    | none => exact .error _ _
    | some output => exact .ok rfl

theorem require_same (shared : Block 32) :
    SameOutcome (fun _ _ => True) (requireNonzeroShared shared) (requireShared shared) :=
  .check Iff.rfl _ _ fun _ => .ok trivial

theorem encryptAndHash_length (hA : Correct C.aead) {s t : SymmetricState} {key : Key}
    {plaintext output : Bytes} (hkey : s.cipherKey = some key)
    (h : s.encryptAndHash C plaintext = .ok (t, output)) :
    output.length = plaintext.length + tagLen := by
  simp only [SymmetricState.encryptAndHash, hkey] at h
  obtain ⟨sealed, hsealed, h⟩ := bind_eq_ok h
  rw [aeadEncrypt] at hsealed
  split at hsealed
  · rename_i ciphertext hc
    cases hsealed
    split at h
    · cases h
    · cases h
      exact hA.length _ _ _ _ _ hc
  · cases hsealed

variable (clientPrivate : Key)

theorem hello_same (hA : Correct C.aead) (serverKey : Block 32) :
    SameOutcome (fun native browser => Viewed native browser ∧ native.2.length = 54)
      (clientHello C clientPrivate serverKey) (browserHello C clientPrivate serverKey) := by
  apply SameOutcome.bind (require_same (C.diffieHellman clientPrivate serverKey))
  intro _ _ _
  apply SameOutcome.bind (encrypt_same _ rfl []).with_left
  rintro ⟨state, tag⟩ _ ⟨hstate, rfl⟩
  have htag : tag.length = tagLen := (encryptAndHash_length hA rfl hstate).trans (Nat.zero_add _)
  have hlen : (clientMagic ++ beBytes 2 handshakeMessageLen ++ (C.publicKey clientPrivate).toList ++
      tag).length = 54 := by
    rw [List.length_append, List.length_append, List.length_append, beBytes_length, block_length, htag]
    decide +kernel
  dsimp only
  rw [if_neg (not_not.mpr htag)]
  exact .ok ⟨rfl, hlen⟩

theorem readExact_short {s : Incoming} {n : ℕ} (h : s.bytes.length < n) :
    ∃ e, s.readExact n = .error e :=
  ⟨_, if_pos h⟩

theorem readExact_append {received : Bytes} {n : ℕ} (h : n ≤ received.length) (tail : Bytes)
    (failure : Option IoError) :
    Incoming.readExact ⟨received ++ tail, failure⟩ n = .ok (received.take n,
      ⟨received.drop n ++ tail, failure⟩) := by
  have henough : ¬ (received ++ tail).length < n := by
    rw [List.length_append]
    omega
  rw [Incoming.readExact, if_neg henough, List.take_append_of_le_length h,
    List.drop_append_of_le_length h]

theorem readReply_short (state : SymmetricState) {bytes : Bytes} (failure : Option IoError)
    (h : bytes.length < 54) : ∃ e, readReply C clientPrivate state ⟨bytes, failure⟩ = .error e := by
  unfold readReply
  by_cases hheader : bytes.length < 6
  · obtain ⟨e, he⟩ := readExact_short (s := ⟨bytes, failure⟩) hheader
    rw [he]
    exact ⟨e, rfl⟩
  · have hread := readExact_append (not_lt.mp hheader) [] failure
    rw [List.append_nil, List.append_nil] at hread
    rw [bind_of_ok hread]
    dsimp only
    split_ifs
    · exact ⟨_, rfl⟩
    · have hrest : (bytes.drop 6).length < handshakeMessageLen := by
        rw [List.length_drop, handshakeMessageLen]
        omega
      obtain ⟨e, he⟩ := readExact_short (s := ⟨bytes.drop 6, failure⟩) hrest
      rw [he]
      exact ⟨e, rfl⟩

theorem reply_same (state : SymmetricState) {received : Bytes} (hlen : 54 ≤ received.length)
    (down : ℕ) (tail : Bytes) (failure : Option IoError) :
    SameOutcome (fun native browser => native.2 = ⟨received.drop 54 ++ tail, failure⟩ ∧
        browser = ⟨2, down, received.drop 54, ⟨native.1.sealState.key, 0⟩, ⟨native.1.openState.key, 0⟩,
          native.1.handshakeHash⟩)
      (readReply C clientPrivate state ⟨received ++ tail, failure⟩)
      (browserFinish C clientPrivate state.view received down) := by
  have hmessage : handshakeMessageLen ≤ (received.drop 6).length := by
    rw [List.length_drop, handshakeMessageLen]
    omega
  have hmagic : (received.take 6).take 4 = received.take 4 := List.take_take
  have hlength : (received.take 6).drop 4 = (received.drop 4).take 2 := List.drop_take
  have hephemeral : ((received.drop 6).take handshakeMessageLen).take 32 = (received.drop 6).take
    32 := List.take_take
  have htag : ((received.drop 6).take handshakeMessageLen).drop 32 = (received.drop 38).take 16 := by
    rw [List.drop_take, List.drop_drop]
    rfl
  have htagLen : ((received.drop 38).take 16).length = tagLen := by
    rw [List.length_take, List.length_drop, tagLen]
    omega
  unfold readReply browserFinish
  rw [bind_of_ok (readExact_append (by omega) tail failure)]
  dsimp only
  rw [hmagic, hlength]
  apply SameOutcome.check Iff.rfl
  intro _
  rw [bind_of_ok (readExact_append hmessage tail failure), List.drop_drop]
  dsimp only
  unfold finish
  rw [hephemeral, htag, bind_assoc]
  apply SameOutcome.bind (require_same _)
  intro _ _ _
  rw [bind_assoc]
  apply SameOutcome.bind (decrypt_same _ rfl htagLen)
  rintro ⟨state, payload⟩ _ rfl
  dsimp only
  split_ifs
  · exact .error _ _
  · exact .ok ⟨rfl, rfl⟩

end Mst5Client.ClientHandshake
