import Mst5Client.RecordSteps

set_option autoImplicit false

/-!
# The record layer of the browser bindings

`wasm/src/lib.rs` carries its own copy of the record functions. `usize` has 32 bits there and
release arithmetic wraps.
-/
namespace Mst5Client.BrowserRecords
open ByteOrder AuthenticatedCipher RecordLayer RecordPlaintext RecordSteps

structure JsError where
  message : String
deriving DecidableEq, Repr

def maxRecordBytes : ℕ := 4 * 1024 * 1024

structure BrowserCipher where
  key : Key
  nonce : ℕ
deriving DecidableEq

def BrowserCipher.new (key : Key) : BrowserCipher := ⟨key, 0⟩

def browserAad (hash : Block 32) (length sequence : ℕ) : Except JsError Bytes :=
  if length < 2 ^ 32 then
    .ok (recordLabel ++ hash.toList ++ beBytes 4 length ++ beBytes 8 sequence)
  else .error ⟨"record too large"⟩

def browserEncrypt (A : Aead Key) (key : Key) (nonce : ℕ) (aad value : Bytes) :
    Except JsError Bytes :=
  match A.encrypt key (aeadNonce nonce) aad value with
  | some c => .ok c
  | none => .error ⟨"MST5 encryption failed"⟩

def browserDecrypt (A : Aead Key) (key : Key) (nonce : ℕ) (aad value : Bytes) :
    Except JsError Bytes :=
  match A.decrypt key (aeadNonce nonce) aad value with
  | some m => .ok m
  | none => .error ⟨"MST5 authentication failed"⟩

def browserPlain (payload : Bytes) : Bytes :=
  let base := 5 + payload.length
  let block := if base ≤ largePaddingThreshold then paddingBlock else largePaddingBlock
  let padded := (base + block - 1) / block * block
  let plain := List.replicate padded 0
  let plain := copyAt plain 1 (beBytes 4 payload.length)
  copyAt plain 5 payload

def browserSeal (A : Aead Key) (hash : Block 32) (cipher : BrowserCipher) (payload : Bytes) :
    BrowserCipher × Except JsError Bytes :=
  let plain := browserPlain payload
  let sequence := cipher.nonce
  let length := 8 + plain.length + tagLen
  match browserAad hash length sequence with
  | .error e => (cipher, .error e)
  | .ok aad =>
    match browserEncrypt A cipher.key sequence aad plain with
    | .error e => (cipher, .error e)
    | .ok encrypted =>
      ({ cipher with nonce := (cipher.nonce + 1) % 2 ^ 64 }, .ok (beBytes 8 sequence ++ encrypted))

def browserParse (plain : Bytes) : Except JsError Bytes :=
  if plain.length < 5 ∨ plain.headD 0 ≠ 0 then
    .error ⟨"invalid MST5 secure transport plaintext"⟩
  else
    let length := ofBe ((plain.drop 1).take 4)
    let stop := (5 + length) % 2 ^ 32 -- wraps before it is compared
    if plain.length < stop ∨ (plain.drop stop).any (· ≠ 0) then
      .error ⟨"invalid secure transport padding"⟩
    else .ok ((plain.take stop).drop 5)

def browserOpen (A : Aead Key) (hash : Block 32) (cipher : BrowserCipher) (record : Bytes) :
    BrowserCipher × Except JsError Bytes :=
  if record.length < 24 then (cipher, .error ⟨"short MST5 encrypted record"⟩)
  else
    let sequence := ofBe (record.take 8)
    if sequence ≠ cipher.nonce then (cipher, .error ⟨"MST5 encrypted record sequence mismatch"⟩)
    else
      match browserAad hash record.length sequence with
      | .error e => (cipher, .error e)
      | .ok aad =>
        match browserDecrypt A cipher.key sequence aad (record.drop 8) with
        | .error e => (cipher, .error e)
        -- the nonce moves on before the plaintext is looked at
        | .ok plain => ({ cipher with nonce := (cipher.nonce + 1) % 2 ^ 64 }, browserParse plain)

def readRecord (A : Aead Key) (hash : Block 32) (cipher : BrowserCipher) (record : Bytes) :
    BrowserCipher × Except JsError Bytes :=
  if record.length < 24 ∨ maxRecordBytes + 512 < record.length then
    (cipher, .error ⟨"invalid MST5 record length"⟩)
  else browserOpen A hash cipher record

/-- `random` is the answer of the browser's generator, drawn for commands only. -/
def frameEncode (random : Option (Block 16)) (kind : UInt8) (code id : ℕ) (payload : Bytes) :
    Except JsError Bytes :=
  if maxRecordBytes < payload.length then .error ⟨"MST5 frame too large"⟩
  else
    let requestNonce : Except JsError Bytes :=
      if kind = 2 then
        match random with
        | some nonce => .ok nonce.toList
        | none => .error ⟨"browser random generator is unavailable"⟩
      else .ok (List.replicate 16 0)
    requestNonce.map fun nonce =>
      kind :: 0 :: (beBytes 2 code ++ beBytes 8 id ++ nonce ++ beBytes 8 0 ++
        beBytes 4 payload.length ++ payload)

theorem frameEncode_length {random : Option (Block 16)} {kind : UInt8} {code id : ℕ}
    {payload frame : Bytes} (h : frameEncode random kind code id payload = .ok frame) :
    frame.length = 40 + payload.length ∧ payload.length ≤ maxRecordBytes := by
  by_cases hmax : maxRecordBytes < payload.length
  · simp [frameEncode, hmax] at h
  refine ⟨?_, Nat.not_lt.mp hmax⟩
  by_cases hkind : kind = 2
  · cases random with
    | none => simp [frameEncode, hmax, hkind, Except.map] at h
    | some nonce =>
      simp only [frameEncode, hmax, hkind, ↓reduceIte, Except.map, Except.ok.injEq] at h
      simp only [← h, List.length_cons, List.length_append, beBytes_length, block_length]
      omega
  · simp only [frameEncode, hmax, hkind, ↓reduceIte, Except.map, Except.ok.injEq] at h
    simp only [← h, List.length_cons, List.length_append, beBytes_length, List.length_replicate]
    omega

theorem browserPlain_eq (payload : Bytes) : browserPlain payload = padded 0 payload := by
  rw [← written_eq_padded]
  have hzero : (List.replicate (paddedLen payload.length) (0 : UInt8)).set 0 0 =
      List.replicate (paddedLen payload.length) 0 := by
    cases paddedLen payload.length <;> rfl
  have hblock : paddedLen payload.length = (let base := 5 + payload.length
      let block := if base ≤ largePaddingThreshold then paddingBlock else largePaddingBlock
      (base + block - 1) / block * block) := by
    simp only [paddedLen, paddingBlock, largePaddingBlock]
    split_ifs <;> rfl
  rw [hzero, hblock]
  rfl

theorem browserAad_eq (hash : Block 32) (sequence : ℕ) {n : ℕ} (hn : n ≤ maxRecordLen) :
    browserAad hash (8 + n + tagLen) sequence = .ok (aadAt hash sequence n) := by
  simp only [browserAad, aadAt, frameLength_lt hn, ↓reduceIte]

theorem browserParse_padded {payload : Bytes} (h : payload.length ≤ maxTransportPayload) :
    browserParse (padded 0 payload) = .ok payload := by
  have hmax : payload.length ≤ 20971520 := h
  rw [padded_eq_laidOut]
  generalize paddedLen payload.length - (5 + payload.length) = padding
  have hlen := laidOut_length 0 payload padding
  have hshort : ¬ ((laidOut 0 payload padding).length < 5 ∨
      (laidOut 0 payload padding).headD 0 ≠ 0) := by
    simp only [laidOut, List.headD_cons, ne_eq, not_true_eq_false, or_false]
    rw [laidOut] at hlen
    omega
  have hstop : (5 + payload.length) % 2 ^ 32 = 5 + payload.length := Nat.mod_eq_of_lt (by omega)
  have hfit : ¬ (laidOut 0 payload padding).length < 5 + payload.length := by omega
  have hslice : ((laidOut 0 payload padding).take (5 + payload.length)).drop 5 = payload := by
    rw [List.drop_take, Nat.add_sub_cancel_left, laidOut_payload]
  simp only [browserParse, hshort, laidOut_lengthField 0 payload padding (by omega), hstop, hfit,
    laidOut_tail_zero, hslice, ↓reduceIte, Bool.false_eq_true, or_self]

end Mst5Client.BrowserRecords
