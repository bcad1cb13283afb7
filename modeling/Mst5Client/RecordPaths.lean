import Mst5Client.FrameDecoding
import Mst5Client.HttpResponses
import Mst5Client.RecordNonces

set_option autoImplicit false

/-!
# The two record paths

A connection is opened with `Session::seal_record` and `Session::read_frame` and then goes on with
`seal_record_into` and `read_frame` of `src/connection.rs`, which write into buffers that still hold
an earlier record.
-/
namespace Mst5Client.RecordPaths
open ByteOrder AuthenticatedCipher IoResult RecordLayer RecordNonces ConnectionState FrameDecoding
open HttpResponses (Incoming)

section Sealing

/-- In place, the ciphertext takes the room of the plaintext, and the tag that ordinary encryption
appends comes apart. -/
structure Detached (C : WriterCrypto) : Prop where
  same : ∀ k n a m, C.aead.encrypt k n a m = (C.encryptInPlace k n a m).map fun sealed =>
    sealed.1 ++ sealed.2
  length : ∀ k n a m sealed, C.encryptInPlace k n a m = some sealed → sealed.1.length = m.length

theorem transportPlaintextInto_buffer (buffer : Bytes) (contentType : UInt8) (payload : Bytes) :
    transportPlaintextInto buffer contentType payload = transportPlaintext contentType payload :=
  rfl

variable {C : WriterCrypto} (hC : Detached C)
include hC

theorem aeadEncrypt_detached (key : Key) (nonce : ℕ) (aad plaintext : Bytes) :
    aeadEncrypt C.toRecordCrypto key nonce aad plaintext =
      (aeadEncryptInPlace C key nonce aad plaintext).map fun sealed => sealed.1 ++ sealed.2 := by
  rw [aeadEncrypt, aeadEncryptInPlace, hC.same]
  cases C.encryptInPlace key (aeadNonce nonce) aad plaintext with
  | none => rfl
  | some sealed => rfl

theorem aeadEncryptInPlace_length {key : Key} {nonce : ℕ} {aad plaintext : Bytes}
    {sealed : Bytes × Bytes} (h : aeadEncryptInPlace C key nonce aad plaintext = .ok sealed) :
    sealed.1.length = plaintext.length := by
  unfold aeadEncryptInPlace at h
  cases hsealed : C.encryptInPlace key (aeadNonce nonce) aad plaintext with
  | none =>
    rw [hsealed] at h
    cases h
  | some found =>
    rw [hsealed] at h
    cases h
    exact hC.length _ _ _ _ _ hsealed

theorem sealRecordInto_eq (s : Session) (contentType : UInt8) (payload plaintext record : Bytes) :
    (sealRecordInto C ⟨s.sealState, s.handshakeHash, plaintext, record⟩ contentType payload).1.cipher =
        (s.sealRecord C.toRecordCrypto contentType payload).1.sealState ∧
      ((sealRecordInto C ⟨s.sealState, s.handshakeHash, plaintext, record⟩ contentType
          payload).2.map fun _ =>
          (sealRecordInto C ⟨s.sealState, s.handshakeHash, plaintext, record⟩ contentType
        payload).1.record) = (s.sealRecord C.toRecordCrypto contentType payload).2 := by
  unfold sealRecordInto Session.sealRecord
  dsimp only
  rw [transportPlaintextInto_buffer]
  cases transportPlaintext contentType payload with
  | error e => exact ⟨rfl, rfl⟩
  | ok plaintext =>
    dsimp only
    cases s.sealState.checkLimit plaintext.length with
    | error e => exact ⟨rfl, rfl⟩
    | ok done =>
    dsimp only
    cases (checkedAdd 8 plaintext.length).bind (checkedAdd · tagLen) with
    | none => exact ⟨rfl, rfl⟩
    | some frameLength =>
    dsimp only
    cases recordAad s.handshakeHash frameLength s.sealState.nonce with
    | error e => exact ⟨rfl, rfl⟩
    | ok aad =>
    dsimp only
    rw [aeadEncrypt_detached hC]
    cases hsealed : aeadEncryptInPlace C s.sealState.key s.sealState.nonce aad plaintext with
    | error e => exact ⟨rfl, rfl⟩
    | ok sealed =>
    dsimp only [Except.map]
    rw [aeadEncryptInPlace_length hC hsealed, ← List.append_assoc]
    rcases s.sealState.commit C.hkdf s.handshakeHash plaintext.length with ⟨cipher, (e | done)⟩
    · exact ⟨rfl, rfl⟩
    · exact ⟨rfl, rfl⟩

end Sealing

variable (C : RecordCrypto)

def Session.readFrame (s : Session) (stream : Incoming) :
    Session × Except IoError (Option Bytes × Incoming) :=
  match stream.readExact 4 with
  | .error e => (s, .error e)
  | .ok (size, stream) =>
    let length := ofBe size
    if length < 8 + tagLen ∨ maxRecordLen < length then
      (s, .error (invalidData "invalid MST5 encrypted record length"))
    else
      match stream.readExact length with
      | .error e => (s, .error e)
      | .ok (record, stream) =>
        match s.openRecord C record with
        | (s, .error e) => (s, .error e)
        | (s, .ok (.application payload)) => (s, .ok (some payload, stream))
        | (s, .ok .close) => (s, .ok (none, stream))

/-- The reader's share of the connection. `zstd` is what the decompressor does that is used for
every frame. -/
structure ReaderState where
  cipher : CipherState
  handshakeHash : Block 32
  zstd : Bytes → ℕ → Option Bytes
  record : Bytes

variable (bits : ℕ) (D : Decompressors)

def ReaderState.decodeWithZstd (r : ReaderState) (payload : Bytes) : Except IoError Frame :=
  FrameDecoding.decodeWithZstd bits { D with zstdDecompress := r.zstd } payload

/-- `read_frame` of `src/connection.rs`. -/
def ReaderState.readFrame (r : ReaderState) (stream : Incoming) :
    ReaderState × Except IoError (Option Frame × Incoming) :=
  match stream.readExact 4 with
  | .error e => (r, .error e)
  | .ok (size, stream) =>
    let length := ofBe size
    if length < 8 + tagLen ∨ maxRecordLen < length then
      (r, .error (invalidData "invalid MST5 encrypted record length"))
    else
      let r := { r with record := resize (clear r.record) length }
      match stream.readExact length with
      -- what has arrived is in the buffer
      | .error e => ({ r with record := copyAt r.record 0 stream.bytes }, .error e)
      | .ok (bytes, stream) =>
        let r := { r with record := copyAt r.record 0 bytes }
        let sequence := ofBe (r.record.take 8)
        if sequence ≠ r.cipher.nonce then
          (r, .error (invalidData "MST5 encrypted record sequence mismatch"))
        else
          let plaintextLen := r.record.length - 8 - tagLen
          match r.cipher.checkLimit plaintextLen with
          | .error e => (r, .error e)
          | .ok () =>
            match recordAad r.handshakeHash r.record.length sequence with
            | .error e => (r, .error e)
            | .ok aad =>
              match aeadDecrypt C r.cipher.key sequence aad (r.record.drop 8) with
              | .error e => (r, .error e)
              | .ok plaintext =>
                match parseTransportPlaintext plaintext with
                | .error e => (r, .error e)
                | .ok decoded =>
                  match r.cipher.commit C.hkdf r.handshakeHash plaintext.length with
                  | (cipher, .error e) => ({ r with cipher }, .error e)
                  | (cipher, .ok ()) =>
                    let r := { r with cipher }
                    match decoded with
                    | .application payload =>
                      (r, (r.decodeWithZstd bits D payload).map fun frame => (some frame, stream))
                    | .close => (r, .ok (none, stream))

/-- `Frame::decode` of what `Session::read_frame` returns. -/
def decodeRead : Option Bytes × Incoming → Except IoError (Option Frame × Incoming)
  | (some payload, stream) => (decode bits D payload true).map fun frame => (some frame, stream)
  | (none, stream) => .ok (none, stream)

variable {C bits D}

theorem readExact_length {stream rest : Incoming} {n : ℕ} {bytes : Bytes}
    (h : stream.readExact n = .ok (bytes, rest)) : bytes.length = n := by
  unfold Incoming.readExact at h
  rw [ite_error_eq_ok, Nat.not_lt] at h
  obtain ⟨hle, h⟩ := h
  cases h
  exact List.length_take_of_le hle

theorem filled_buffer (buffer bytes : Bytes) {n : ℕ} (h : bytes.length = n) :
    copyAt (resize (clear buffer) n) 0 bytes = bytes := by
  rw [copyAt, List.take_zero, List.nil_append, Nat.zero_add, h,
    List.drop_eq_nil_of_le (resize_length _ _).le, List.append_nil]

theorem readFrame_eq (s : Session) {zstd : Bytes → ℕ → Option Bytes}
    (hzstd : ∀ input limit, zstd input limit = D.zstdDecompress input limit) (record : Bytes)
    (stream : Incoming) :
    (ReaderState.readFrame C bits D ⟨s.openState, s.handshakeHash, zstd, record⟩ stream).1.cipher =
        (Session.readFrame C s stream).1.openState ∧
      (ReaderState.readFrame C bits D ⟨s.openState, s.handshakeHash, zstd, record⟩ stream).2 =
        (Session.readFrame C s stream).2 >>= decodeRead bits D := by
  obtain rfl : zstd = D.zstdDecompress := by
    funext input limit
    exact hzstd input limit
  unfold ReaderState.readFrame Session.readFrame
  cases stream.readExact 4 with
  | error e => exact ⟨rfl, rfl⟩
  | ok head =>
    obtain ⟨size, stream⟩ := head
    dsimp only
    by_cases hlen : ofBe size < 8 + tagLen ∨ maxRecordLen < ofBe size
    · rw [if_pos hlen, if_pos hlen]
      exact ⟨rfl, rfl⟩
    rw [if_neg hlen, if_neg hlen]
    cases hread : stream.readExact (ofBe size) with
    | error e => exact ⟨rfl, rfl⟩
    | ok body =>
      obtain ⟨bytes, stream⟩ := body
      dsimp only
      have hbytes := readExact_length hread
      rw [filled_buffer record bytes hbytes, Session.openRecord, hbytes, if_neg hlen]
      dsimp only
      by_cases hseq : ofBe (bytes.take 8) ≠ s.openState.nonce
      · rw [if_pos hseq, if_pos hseq]
        exact ⟨rfl, rfl⟩
      rw [if_neg hseq, if_neg hseq]
      cases s.openState.checkLimit (ofBe size - 8 - tagLen) with
      | error e => exact ⟨rfl, rfl⟩
      | ok done =>
        dsimp only
        cases recordAad s.handshakeHash (ofBe size) (ofBe (bytes.take 8)) with
        | error e => exact ⟨rfl, rfl⟩
        | ok aad =>
          dsimp only
          cases aeadDecrypt C s.openState.key (ofBe (bytes.take 8)) aad (bytes.drop 8) with
          | error e => exact ⟨rfl, rfl⟩
          | ok plaintext =>
            dsimp only
            cases parseTransportPlaintext plaintext with
            | error e => exact ⟨rfl, rfl⟩
            | ok decoded =>
              dsimp only
              rcases s.openState.commit C.hkdf s.handshakeHash plaintext.length with
                ⟨cipher, (e | done)⟩
              · exact ⟨rfl, rfl⟩
              · cases decoded with
                | application payload => exact ⟨rfl, rfl⟩
                | close => exact ⟨rfl, rfl⟩

/-- Sealing into dirty buffers and reading into one give what the plain functions give, for every
state and input: the same records, frames and errors, and equal cipher states. -/
theorem record_paths_agree {C : WriterCrypto} (hC : Detached C) (bits : ℕ) (D : Decompressors)
    {zstd : Bytes → ℕ → Option Bytes}
    (hzstd : ∀ input limit, zstd input limit = D.zstdDecompress input limit) (s : Session)
    (plaintext record : Bytes) :
    (∀ (contentType : UInt8) (payload : Bytes),
      let w := sealRecordInto C ⟨s.sealState, s.handshakeHash, plaintext, record⟩ contentType payload
      let t := s.sealRecord C.toRecordCrypto contentType payload
      (w.2 = .ok () ↔ ∃ sealed, t.2 = .ok sealed) ∧ (∀ sealed, t.2 = .ok sealed → w.1.record = sealed) ∧
        w.1.cipher = t.1.sealState) ∧
    ∀ stream : Incoming,
      let r := ReaderState.readFrame C.toRecordCrypto bits D ⟨s.openState, s.handshakeHash, zstd,
        record⟩ stream
      let t := Session.readFrame C.toRecordCrypto s stream
      r.2 = (t.2 >>= decodeRead bits D) ∧ r.1.cipher = t.1.openState := by
  constructor
  · intro contentType payload w t
    obtain ⟨hcipher, hrecord⟩ := sealRecordInto_eq hC s contentType payload plaintext record
    refine ⟨⟨?_, ?_⟩, ?_, hcipher⟩
    · intro hok
      refine ⟨w.1.record, hrecord.symm.trans ?_⟩
      change w.2.map (fun _ => w.1.record) = _
      rw [hok]
      rfl
    · rintro ⟨sealed, hsealed⟩
      obtain ⟨_, hw, -⟩ := map_eq_ok (hrecord.trans hsealed)
      exact hw
    · intro sealed hsealed
      obtain ⟨_, -, hsame⟩ := map_eq_ok (hrecord.trans hsealed)
      exact hsame
  · intro stream r t
    exact (readFrame_eq s hzstd record stream).symm

theorem checksumWriter_detached : Detached checksumWriter where
  same := by
    intro k n a m
    by_cases hm : m.length < messageLimit
    · simp [checksumWriter, RecordSteps.checksumCrypto, checksumAead, hm]
    · simp [checksumWriter, RecordSteps.checksumCrypto, checksumAead, hm]
  length := by
    intro k n a m sealed h
    simp only [checksumWriter, Option.ite_none_right_eq_some, Option.some.injEq] at h
    rw [← h.2]

/-- A short record is sealed over the remains of a longer one. -/
theorem record_paths_agree_dirty :
    let s := RecordSteps.Session.new (blockOf 32 [1]) (blockOf 32 [2])
    let w := sealRecordInto checksumWriter ⟨s.sealState, s.handshakeHash, List.replicate 300 7,
      List.replicate 400 9⟩ 0 [5]
    let t := s.sealRecord checksumWriter.toRecordCrypto 0 [5]
    (w.2 = .ok () ↔ ∃ sealed, t.2 = .ok sealed) ∧ (∀ sealed, t.2 = .ok sealed → w.1.record = sealed) ∧
      w.1.cipher = t.1.sealState :=
  (record_paths_agree checksumWriter_detached 64 sampleDecompressors (fun _ _ => rfl)
    (RecordSteps.Session.new (blockOf 32 [1]) (blockOf 32 [2])) (List.replicate 300 7)
      (List.replicate 400 9)).1 0 [5]

end Mst5Client.RecordPaths
