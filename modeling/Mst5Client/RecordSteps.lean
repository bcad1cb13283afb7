import Mst5Client.RecordPlaintext
import Mst5Client.Ratchet

set_option autoImplicit false

/-!
# Cipher states on the rekeying clock

A cipher state that has only seen successful records is determined by the initial key, the handshake
hash and a clock position.
-/
namespace Mst5Client.RecordSteps
open ByteOrder AuthenticatedCipher IoResult RecordLayer RecordPlaintext Ratchet

def limits : Limits := ⟨rekeyRecords, rekeyBytes⟩

theorem limits_records_pos : 0 < limits.records := by decide
theorem limits_bytes_pos : 0 < limits.bytes := by decide

variable (hkdf : Hkdf) (hash : Block 32) (key : Key)

def generationKey : ℕ → Key := keyAt (nextKey hkdf hash) key

def stateAt (p : Position) : CipherState :=
  ⟨generationKey hkdf hash key p.generation, p.records, p.bytes, p.generation⟩

theorem new_eq_stateAt : CipherState.new key = stateAt hkdf hash key Position.start := rfl

def maxGeneration : ℕ := 2 ^ 64 - 1

theorem within_limits {p : Position} (hp : p.Within limits) :
    p.records < 2 ^ 18 ∧ p.bytes < 2 ^ 28 := hp

theorem checkLimit_within {c : CipherState} {n : ℕ} (hr : c.nonce < rekeyRecords)
    (hb : c.plaintextBytes < rekeyBytes) (hn : n ≤ maxRecordLen) : c.checkLimit n = .ok () := by
  simp only [rekeyRecords, rekeyBytes, maxRecordLen_eq] at *
  have hrec : ¬ maxRecords ≤ c.nonce := by simp only [maxRecords]; omega
  have hsum : checkedAdd c.plaintextBytes n = some (c.plaintextBytes + n) :=
    checkedAdd_of_lt (by omega)
  have hbytes : ¬ maxPlaintextBytes < c.plaintextBytes + n := by
    simp only [maxPlaintextBytes]; omega
  simp only [CipherState.checkLimit, hrec, hsum, hbytes, ↓reduceIte]

theorem checkLimit_ok {c : CipherState} {n : ℕ} (h : c.checkLimit n = .ok ()) :
    c.nonce < maxRecords ∧ c.plaintextBytes + n ≤ maxPlaintextBytes := by
  simp only [CipherState.checkLimit] at h
  by_cases hr : maxRecords ≤ c.nonce
  · simp [hr] at h
  simp only [hr, ↓reduceIte] at h
  by_cases hs : c.plaintextBytes + n < 2 ^ 64
  · rw [checkedAdd_of_lt hs] at h
    by_cases hb : maxPlaintextBytes < c.plaintextBytes + n
    · simp [hb] at h
    · exact ⟨Nat.not_le.mp hr, Nat.not_lt.mp hb⟩
  · rw [checkedAdd_of_le (Nat.not_lt.mp hs)] at h
    cases h

theorem commit_stateAt (hkdf : Hkdf) (hash : Block 32) (key : Key) {p : Position} {n : ℕ}
    (hp : p.Within limits) (hn : n ≤ maxRecordLen) (hg : p.generation < maxGeneration) :
    (stateAt hkdf hash key p).commit hkdf hash n = (stateAt hkdf hash key (advance limits p n),
      .ok ()) := by
  obtain ⟨hr, hb⟩ := within_limits hp
  rw [maxRecordLen_eq] at hn
  have hgen : p.generation + 1 < 2 ^ 64 := by simp only [maxGeneration] at hg; omega
  simp only [CipherState.commit, stateAt]
  rw [checkedAdd_of_lt (by omega)]
  dsimp only
  rw [checkedAdd_of_lt (by omega)]
  dsimp only
  by_cases h : rekeyRecords ≤ p.records + 1 ∨ rekeyBytes ≤ p.bytes + n
  · simp only [h, ↓reduceIte, checkedAdd_of_lt hgen, advance, limits]
    rfl
  · simp only [h, ↓reduceIte, advance, limits]

theorem commit_generation_le (hkdf : Hkdf) (hash : Block 32) (c : CipherState) (n : ℕ) :
    c.generation ≤ (c.commit hkdf hash n).1.generation := by
  simp only [CipherState.commit]
  cases checkedAdd c.plaintextBytes n with
  | none => exact le_refl _
  | some bytes =>
    cases checkedAdd c.nonce 1 with
    | none => exact le_refl _
    | some nonce =>
      by_cases h : rekeyRecords ≤ nonce ∨ rekeyBytes ≤ bytes
      · simp only [h, ↓reduceIte]
        by_cases hg : c.generation + 1 < 2 ^ 64
        · rw [checkedAdd_of_lt hg]
          exact Nat.le_succ _
        · rw [checkedAdd_of_le (Nat.not_lt.mp hg)]
      · simp only [h, ↓reduceIte, le_refl]

def aadAt (hash : Block 32) (sequence n : ℕ) : Bytes :=
  recordLabel ++ hash.toList ++ beBytes 4 (8 + n + tagLen) ++ beBytes 8 sequence

theorem frameLength_lt {n : ℕ} (hn : n ≤ maxRecordLen) : 8 + n + tagLen < 2 ^ 32 := by
  rw [maxRecordLen_eq] at hn
  simp only [tagLen]
  omega

theorem recordAad_ok (hash : Block 32) (sequence : ℕ) {n : ℕ} (hn : n ≤ maxRecordLen) :
    recordAad hash (8 + n + tagLen) sequence = .ok (aadAt hash sequence n) := by
  simp only [recordAad, aadAt, frameLength_lt hn, ↓reduceIte]

theorem frameLength_ok {n : ℕ} (hn : n ≤ maxRecordLen) :
    (checkedAdd 8 n).bind (checkedAdd · tagLen) = some (8 + n + tagLen) := by
  have hlt := frameLength_lt hn
  rw [checkedAdd_of_lt (by omega), Option.bind_some, checkedAdd_of_lt (by omega)]

/-- What sealing asks of the cipher, for both paths. -/
def query (c : CipherState) (hash : Block 32) (contentType : UInt8) (payload : Bytes) :
    Option (Query Key) :=
  match transportPlaintext contentType payload with
  | .error _ => none
  | .ok plaintext =>
    match c.checkLimit plaintext.length with
    | .error _ => none
    | .ok () => some ⟨c.key, aeadNonce c.nonce, aadAt hash c.nonce plaintext.length, plaintext⟩

theorem query_cases (c : CipherState) (hash : Block 32) (contentType : UInt8) (payload : Bytes) :
    (query c hash contentType payload = none ∧
      ((∃ e, transportPlaintext contentType payload = .error e) ∨
        Admissible contentType payload ∧ ∃ e, c.checkLimit (padded contentType payload).length =
          .error e)) ∨
    (Admissible contentType payload ∧ c.checkLimit (padded contentType payload).length = .ok () ∧
      query c hash contentType payload = some ⟨c.key, aeadNonce c.nonce,
        aadAt hash c.nonce (padded contentType payload).length, padded contentType payload⟩) := by
  cases hplain : transportPlaintext contentType payload with
  | error e => exact .inl ⟨by simp only [query, hplain], .inl ⟨e, rfl⟩⟩
  | ok plaintext =>
  obtain ⟨hadm, rfl⟩ := transportPlaintextInto_inv hplain
  cases hlimit : c.checkLimit (padded contentType payload).length with
  | error e => exact .inl ⟨by simp only [query, hplain, hlimit], .inr ⟨hadm, e, rfl⟩⟩
  | ok => exact .inr ⟨hadm, rfl, by simp only [query, hplain, hlimit]⟩

/-- How a session goes on with the answer of the cipher to a message of length `n`. -/
def answered (hkdf : Hkdf) (s : Session) (n : ℕ) : Option Bytes → Session × Except IoError Bytes
  | none => (s, .error (invalidData "MST5 encryption failed"))
  | some c =>
    ({ s with sealState := (s.sealState.commit hkdf s.handshakeHash n).1 },
      (s.sealState.commit hkdf s.handshakeHash n).2.map fun _ => beBytes 8 s.sealState.nonce ++ c)

theorem sealRecord_answered (C : RecordCrypto) (s : Session) {contentType : UInt8} {payload : Bytes}
    (hadm : Admissible contentType payload)
    (hlimit : s.sealState.checkLimit (padded contentType payload).length = .ok ()) :
    s.sealRecord C contentType payload = answered C.hkdf s (padded contentType payload).length
      (C.aead.encrypt s.sealState.key (aeadNonce s.sealState.nonce)
        (aadAt s.handshakeHash s.sealState.nonce (padded contentType payload).length)
        (padded contentType payload)) := by
  have hn := padded_le_record hadm
  simp only [Session.sealRecord, transportPlaintext_ok hadm, hlimit, frameLength_ok hn,
    recordAad_ok s.handshakeHash s.sealState.nonce hn, aeadEncrypt]
  cases C.aead.encrypt s.sealState.key (aeadNonce s.sealState.nonce)
      (aadAt s.handshakeHash s.sealState.nonce (padded contentType payload).length)
      (padded contentType payload) with
  | none => rfl
  | some c =>
    dsimp only [answered]
    rcases s.sealState.commit C.hkdf s.handshakeHash (padded contentType payload).length with
      ⟨st, (e | u)⟩ <;> rfl

theorem sealRecord_refused (s : Session) {contentType : UInt8} {payload : Bytes}
    (h : query s.sealState s.handshakeHash contentType payload = none) :
    ∃ e, ∀ C, s.sealRecord C contentType payload = (s, .error e) := by
  rcases query_cases s.sealState s.handshakeHash contentType payload with
    ⟨-, ⟨e, hplain⟩ | ⟨hadm, e, hlimit⟩⟩ | ⟨-, -, hsome⟩
  · exact ⟨e, fun C => by simp only [Session.sealRecord, hplain]⟩
  · exact ⟨e, fun C => by simp only [Session.sealRecord, transportPlaintext_ok hadm, hlimit]⟩
  · cases h.symm.trans hsome

theorem aeadNonce_injective {m n : ℕ} (hm : m < 2 ^ 64) (hn : n < 2 ^ 64)
    (h : aeadNonce m = aeadNonce n) : m = n :=
  leBytes_injective (k := 8) (by norm_num; omega) (by norm_num; omega) (List.append_cancel_left h)

def ciphertextAt (C : RecordCrypto) (hash : Block 32) (key : Key) (p : Position) (i : Item) :
    Option Bytes :=
  C.aead.encrypt (generationKey C.hkdf hash key p.generation) (aeadNonce p.records)
    (aadAt hash p.records i.size) i.plaintext

theorem sealRecord_stateAt (C : RecordCrypto) (key : Key) {p : Position} (s : Session) (i : Item)
    (hs : s.sealState = stateAt C.hkdf s.handshakeHash key p) (hp : p.Within limits)
    (hg : p.generation < maxGeneration) {c : Bytes}
    (hc : ciphertextAt C s.handshakeHash key p i = some c) :
    s.sealRecord C i.contentType i.payload =
      ({ s with sealState := stateAt C.hkdf s.handshakeHash key (advance limits p i.size) },
        .ok (beBytes 8 p.records ++ c)) := by
  have hlimit : s.sealState.checkLimit i.plaintext.length = .ok () := by
    rw [hs, Item.plaintext_length]
    exact checkLimit_within hp.1 hp.2 i.size_le
  have hcommit : s.sealState.commit C.hkdf s.handshakeHash i.plaintext.length =
      (stateAt C.hkdf s.handshakeHash key (advance limits p i.size), .ok ()) := by
    rw [hs, Item.plaintext_length]
    exact commit_stateAt C.hkdf s.handshakeHash key hp i.size_le hg
  have henc : C.aead.encrypt s.sealState.key (aeadNonce s.sealState.nonce)
      (aadAt s.handshakeHash s.sealState.nonce i.plaintext.length) i.plaintext = some c := by
    rw [hs, Item.plaintext_length]
    exact hc
  rw [sealRecord_answered C s i.admissible hlimit]
  change answered C.hkdf s i.plaintext.length (C.aead.encrypt _ _ (aadAt _ _ i.plaintext.length)
    i.plaintext) = _
  rw [henc, answered, hcommit, hs]
  rfl

theorem openRecord_stateAt (C : RecordCrypto) (hA : Correct C.aead) (key : Key) {p : Position}
    (r : Session) (i : Item) (hr : r.openState = stateAt C.hkdf r.handshakeHash key p)
    (hp : p.Within limits) (hg : p.generation < maxGeneration) {c : Bytes}
    (hc : ciphertextAt C r.handshakeHash key p i = some c) :
    r.openRecord C (beBytes 8 p.records ++ c) =
      ({ r with openState := stateAt C.hkdf r.handshakeHash key (advance limits p i.size) },
        .ok i.record) := by
  have height : (beBytes 8 p.records).length = 8 := beBytes_length 8 _
  have hclen : c.length = i.size + tagLen := by rw [hA.length _ _ _ _ _ hc, Item.plaintext_length]
  have hlen : (beBytes 8 p.records ++ c).length = 8 + i.size + tagLen := by
    rw [List.length_append, height, hclen, Nat.add_assoc]
  have hmax : 8 + i.size + tagLen ≤ maxRecordLen := paddedLen_record i.admissible.2
  have hbounds : ¬ (8 + i.size + tagLen < 8 + tagLen ∨ maxRecordLen < 8 + i.size + tagLen) := by
    omega
  have hrec := (within_limits hp).1
  have hseq : ofBe ((beBytes 8 p.records ++ c).take 8) = p.records := by
    rw [List.take_left' height, ofBe_beBytes_of_lt (by norm_num; omega)]
  have hnonce : r.openState.nonce = p.records := by rw [hr]; rfl
  have hplain : 8 + i.size + tagLen - 8 - tagLen = i.size := by omega
  have hlimit : r.openState.checkLimit i.size = .ok () := by
    rw [hr]
    exact checkLimit_within hp.1 hp.2 i.size_le
  have hdec : aeadDecrypt C r.openState.key p.records (aadAt r.handshakeHash p.records i.size) c =
      .ok i.plaintext := by
    have hshort : ¬ c.length < tagLen := by omega
    have hd := hA.decrypts _ _ _ _ _ hc
    simp only [aeadDecrypt, hshort, ↓reduceIte, hr, stateAt, hd]
  have hcommit : r.openState.commit C.hkdf r.handshakeHash i.plaintext.length =
      (stateAt C.hkdf r.handshakeHash key (advance limits p i.size), .ok ()) := by
    rw [hr, Item.plaintext_length]
    exact commit_stateAt C.hkdf r.handshakeHash key hp i.size_le hg
  have hparse : parseTransportPlaintext i.plaintext = .ok i.record := parse_padded i.admissible
  simp only [Session.openRecord, hlen, hbounds, hseq, hnonce, ne_eq, not_true_eq_false, ↓reduceIte,
    hplain, hlimit, recordAad_ok r.handshakeHash p.records i.size_le,
    List.drop_left' height, hdec, hparse, hcommit]

def encryption (C : RecordCrypto) (s : Session) (contentType : UInt8) (payload : Bytes) :
    Option (Entry Key) :=
  (query s.sealState s.handshakeHash contentType payload).bind fun q =>
    (C.aead.encrypt q.key q.nonce q.aad q.message).map fun c => ⟨q.key, q.nonce, q.aad, q.message, c⟩

theorem sealRecord_cases (C : RecordCrypto) (s : Session) (contentType : UInt8) (payload : Bytes) :
    (encryption C s contentType payload = none ∧
      ∃ e, s.sealRecord C contentType payload = (s, .error e)) ∨
    Admissible contentType payload ∧ ∃ aad c : Bytes,
      s.sealState.checkLimit (padded contentType payload).length = .ok () ∧
      encryption C s contentType payload =
        some ⟨s.sealState.key, aeadNonce s.sealState.nonce, aad, padded contentType payload, c⟩ ∧
      s.sealRecord C contentType payload =
        ({ s with sealState := (s.sealState.commit C.hkdf s.handshakeHash
            (padded contentType payload).length).1 },
          (s.sealState.commit C.hkdf s.handshakeHash (padded contentType payload).length).2.map
            fun _ => beBytes 8 s.sealState.nonce ++ c) := by
  rcases query_cases s.sealState s.handshakeHash contentType payload with
    ⟨hnone, -⟩ | ⟨hadm, hlimit, hsome⟩
  · obtain ⟨e, hrefused⟩ := sealRecord_refused s hnone
    exact .inl ⟨by rw [encryption, hnone]; rfl, e, hrefused C⟩
  have hseal := sealRecord_answered C s hadm hlimit
  cases henc : C.aead.encrypt s.sealState.key (aeadNonce s.sealState.nonce)
      (aadAt s.handshakeHash s.sealState.nonce (padded contentType payload).length)
      (padded contentType payload) with
  | none =>
    rw [henc] at hseal
    exact .inl ⟨by rw [encryption, hsome, Option.bind_some, henc]; rfl, _, hseal⟩
  | some c =>
    rw [henc] at hseal
    exact .inr ⟨hadm, _, c, hlimit, by rw [encryption, hsome, Option.bind_some, henc]; rfl, hseal⟩

theorem aeadDecrypt_some {C : RecordCrypto} {key : Key} {nonce : ℕ} {aad c plaintext : Bytes}
    (h : aeadDecrypt C key nonce aad c = .ok plaintext) :
    C.aead.decrypt key (aeadNonce nonce) aad c = some plaintext := by
  simp only [aeadDecrypt] at h
  split_ifs at h
  cases hd : C.aead.decrypt key (aeadNonce nonce) aad c with
  | none => simp [hd] at h
  | some m => simpa [hd] using h

theorem openRecord_cases (C : RecordCrypto) (s : Session) (record : Bytes) :
    (∃ e, s.openRecord C record = (s, .error e)) ∨
    ∃ aad plaintext decoded,
      C.aead.decrypt s.openState.key (aeadNonce s.openState.nonce) aad (record.drop 8) =
        some plaintext ∧
      parseTransportPlaintext plaintext = .ok decoded ∧
      s.openRecord C record =
        ({ s with openState := (s.openState.commit C.hkdf s.handshakeHash plaintext.length).1 },
          (s.openState.commit C.hkdf s.handshakeHash plaintext.length).2.map fun _ => decoded) := by
  by_cases hlen : record.length < 8 + tagLen ∨ maxRecordLen < record.length
  · exact Or.inl ⟨_, by simp only [Session.openRecord, hlen, ↓reduceIte]; rfl⟩
  by_cases hseq : ofBe (record.take 8) = s.openState.nonce
  swap
  · exact Or.inl ⟨_, by
      simp only [Session.openRecord, hlen, hseq, ne_eq, not_false_eq_true, ↓reduceIte]
      rfl⟩
  cases hlimit : s.openState.checkLimit (record.length - 8 - tagLen) with
  | error e => exact Or.inl ⟨e, by simp [Session.openRecord, hlen, hseq, hlimit]⟩
  | ok =>
  cases haad : recordAad s.handshakeHash record.length s.openState.nonce with
  | error e => exact Or.inl ⟨e, by simp [Session.openRecord, hlen, hseq, hlimit, haad]⟩
  | ok aad =>
  cases hdec : aeadDecrypt C s.openState.key s.openState.nonce aad (record.drop 8) with
  | error e => exact Or.inl ⟨e, by simp [Session.openRecord, hlen, hseq, hlimit, haad, hdec]⟩
  | ok plaintext =>
  cases hparse : parseTransportPlaintext plaintext with
  | error e => exact Or.inl ⟨e, by simp [Session.openRecord, hlen, hseq, hlimit, haad, hdec, hparse]⟩
  | ok decoded =>
  refine Or.inr ⟨aad, plaintext, decoded, aeadDecrypt_some hdec, hparse, ?_⟩
  simp only [Session.openRecord, hlen, hseq, hlimit, haad, hdec, hparse, ne_eq, not_true_eq_false,
    ↓reduceIte]
  rcases s.openState.commit C.hkdf s.handshakeHash plaintext.length with ⟨c, (e | u)⟩ <;> rfl

def counterHkdf : Hkdf := fun key material => (blockOf 32 (material.drop 32), key)

def checksumCrypto : RecordCrypto := ⟨checksumAead List.Vector.toList, counterHkdf⟩

theorem generationKey_counter (hash : Block 32) (key : Key) (g : ℕ) :
    generationKey counterHkdf hash key (g + 1) = blockOf 32 (beBytes 8 (g + 1)) := by
  simp only [generationKey, Ratchet.keyAt, nextKey, counterHkdf]
  rw [List.drop_left' (block_length hash)]

def Session.new (key : Key) (hash : Block 32) : Session :=
  ⟨CipherState.new key, CipherState.new key, hash⟩

end Mst5Client.RecordSteps
