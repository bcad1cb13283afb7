import Mst5Client.RecordLockstep
import Mst5Client.BrowserRecords

set_option autoImplicit false

/-!
# Browser and native ends of one connection

The browser copy of the record layer has no rekeying.
-/
namespace Mst5Client.RecordInterop
open ByteOrder AuthenticatedCipher IoResult RecordLayer RecordPlaintext Ratchet RecordSteps
  MachineRuns RecordLockstep BrowserRecords

def nativeSeal (C : RecordCrypto) (s : Session) (payload : Bytes) :
    Session × Except IoError Bytes :=
  s.sealRecord C 0 payload

def nativeOpen (C : RecordCrypto) (s : Session) (record : Bytes) :
    Session × Except IoError Record :=
  s.openRecord C record

/-- In both directions every payload arrives as it was sent. -/
def Interoperates (C : RecordCrypto) (key : Key) (hash : Block 32) (payloads : List Bytes) : Prop :=
  Delivered (browserSeal C.aead hash) (nativeOpen C) (BrowserCipher.new key) (Session.new key hash)
    payloads (payloads.map Record.application) ∧
  Delivered (nativeSeal C) (readRecord C.aead hash) (Session.new key hash) (BrowserCipher.new key)
    payloads payloads

/-- Length of an encoded frame whose payload keeps the browser's limit. -/
def FrameSized (payload : Bytes) : Prop := payload.length ≤ 40 + maxRecordBytes

def frameSize (payload : Bytes) : ℕ := paddedLen payload.length

def frameItem (payload : Bytes) (h : FrameSized payload) : Item :=
  ⟨0, payload, Or.inl rfl, h.trans (by decide)⟩

section Agreement
variable (C : RecordCrypto) (hash : Block 32) (key : Key)

def openerAt (p : Position) : Session := ⟨CipherState.new key, stateAt C.hkdf hash key p, hash⟩

def sealerAt (p : Position) : Session := ⟨stateAt C.hkdf hash key p, CipherState.new key, hash⟩

variable {C hash key} {A : Aead Key} {n : ℕ} {payload c : Bytes}

theorem browserSeal_ok (hp : FrameSized payload)
    (hc : A.encrypt key (aeadNonce n) (aadAt hash n (frameSize payload)) (padded 0 payload) = some c) :
    browserSeal A hash ⟨key, n⟩ payload = (⟨key, (n + 1) % 2 ^ 64⟩, .ok (beBytes 8 n ++ c)) := by
  have hsize : (padded 0 payload).length ≤ maxRecordLen :=
    padded_le_record (frameItem payload hp).admissible
  rw [frameSize, ← padded_length 0] at hc
  simp only [browserSeal, browserPlain_eq, browserAad_eq hash n hsize, browserEncrypt, hc]

theorem browserRecord_length (hA : Correct A)
    (hc : A.encrypt key (aeadNonce n) (aadAt hash n (frameSize payload)) (padded 0 payload) = some c) :
    (beBytes 8 n ++ c).length = 8 + frameSize payload + tagLen := by
  rw [List.length_append, beBytes_length, hA.length _ _ _ _ _ hc, padded_length, Nat.add_assoc]
  rfl

theorem readRecord_ok (hA : Correct A) (hn : n < 2 ^ 64) (hp : FrameSized payload)
    (hc : A.encrypt key (aeadNonce n) (aadAt hash n (frameSize payload)) (padded 0 payload) = some c) :
    readRecord A hash ⟨key, n⟩ (beBytes 8 n ++ c) = (⟨key, (n + 1) % 2 ^ 64⟩, .ok payload) := by
  have hsmall : payload.length ≤ 4194344 := hp
  have hbounds := paddedLen_bounds payload.length
  have height : (beBytes 8 n).length = 8 := beBytes_length 8 _
  have hlen := browserRecord_length hA hc
  have hshort : ¬ 8 + frameSize payload + tagLen < 24 := by
    simp only [frameSize, tagLen]
    omega
  have hlong : ¬ maxRecordBytes + 512 < 8 + frameSize payload + tagLen := by
    simp only [frameSize, tagLen, maxRecordBytes]
    omega
  have hseq : ofBe ((beBytes 8 n ++ c).take 8) = n := by
    rw [List.take_left' height, ofBe_beBytes_of_lt (by norm_num; omega)]
  have haad : browserAad hash (8 + frameSize payload + tagLen) n =
      .ok (aadAt hash n (frameSize payload)) := browserAad_eq hash n (frameItem payload hp).size_le
  have hparse : browserParse (padded 0 payload) = .ok payload :=
    browserParse_padded (frameItem payload hp).admissible.2
  simp only [readRecord, browserOpen, hlen, hshort, hlong, hseq, haad, browserDecrypt, hparse,
    List.drop_left' height, hA.decrypts _ _ _ _ _ hc, ne_eq, not_true_eq_false, or_self,
    ↓reduceIte]

theorem agreement_step (hA : Correct C.aead) (hash : Block 32) (key : Key) {p : Position}
    (hp : p.Within limits) (hg : p.generation = 0) (hv : FrameSized payload) : ∃ record,
    browserSeal C.aead hash ⟨key, p.records⟩ payload = (⟨key, p.records + 1⟩, .ok record) ∧
    nativeOpen C (openerAt C hash key p) record =
      (openerAt C hash key (advance limits p (frameSize payload)), .ok (.application payload)) ∧
    nativeSeal C (sealerAt C hash key p) payload =
      (sealerAt C hash key (advance limits p (frameSize payload)), .ok record) ∧
    readRecord C.aead hash ⟨key, p.records⟩ record = (⟨key, p.records + 1⟩, .ok payload) := by
  have hrecords := (within_limits hp).1
  have hgen : p.generation < maxGeneration := by rw [hg]; decide
  obtain ⟨c, hc⟩ := hA.encrypts key (aeadNonce p.records) (aadAt hash p.records (frameSize payload))
    (padded 0 payload) (padded_encryptable (frameItem payload hv).admissible)
  have hcAt : ciphertextAt C hash key p (frameItem payload hv) = some c := by
    rw [ciphertextAt, hg]
    exact hc
  have hlt : p.records < 2 ^ 64 := lt_trans hrecords (by decide)
  have hnext : (p.records + 1) % 2 ^ 64 = p.records + 1 := Nat.mod_eq_of_lt (by omega)
  have hseal := browserSeal_ok hv hc
  have hread := readRecord_ok hA hlt hv hc
  rw [hnext] at hseal hread
  exact ⟨beBytes 8 p.records ++ c, hseal,
    openRecord_stateAt C hA key (openerAt C hash key p) (frameItem payload hv) rfl hp hgen hcAt,
    sealRecord_stateAt C key (sealerAt C hash key p) (frameItem payload hv) rfl hp hgen hcAt,
    hread⟩

end Agreement

section Sequence
variable {C : RecordCrypto} {hash : Block 32} {cipher : BrowserCipher} {s : Session}
  {payload record : Bytes}

theorem browserSeal_sequence (h : (browserSeal C.aead hash cipher payload).2 = .ok record) :
    record.take 8 = beBytes 8 cipher.nonce := by
  simp only [browserSeal] at h
  cases haad : browserAad hash (8 + (browserPlain payload).length + tagLen) cipher.nonce with
  | error e => simp [haad] at h
  | ok aad =>
    cases henc : browserEncrypt C.aead cipher.key cipher.nonce aad (browserPlain payload) with
    | error e => simp [haad, henc] at h
    | ok c =>
      simp only [haad, henc, Except.ok.injEq] at h
      rw [← h, List.take_left' (beBytes_length 8 _)]

theorem nativeSeal_sequence (h : (nativeSeal C s payload).2 = .ok record) :
    record.take 8 = beBytes 8 s.sealState.nonce := by
  rcases sealRecord_cases C s 0 payload with ⟨-, e, hrec⟩ | ⟨hadm, aad, c, -, -, hrec⟩
  · simp [nativeSeal, hrec] at h
  · rw [nativeSeal, hrec] at h
    cases hcommit : (s.sealState.commit C.hkdf s.handshakeHash (padded 0 payload).length).2 with
    | error e => simp [hcommit, Except.map] at h
    | ok =>
      simp only [hcommit, Except.map, Except.ok.injEq] at h
      rw [← h, List.take_left' (beBytes_length 8 _)]

theorem nativeOpen_sequence {decoded : Record} (h : (nativeOpen C s record).2 = .ok decoded) :
    ofBe (record.take 8) = s.openState.nonce := by
  by_contra hseq
  simp only [nativeOpen, Session.openRecord, ne_eq, hseq, not_false_eq_true, ↓reduceIte] at h
  split_ifs at h

theorem readRecord_sequence (h : (readRecord C.aead hash cipher record).2 = .ok payload) :
    ofBe (record.take 8) = cipher.nonce := by
  by_contra hseq
  simp only [readRecord, browserOpen, ne_eq, hseq, not_false_eq_true, ↓reduceIte] at h
  split_ifs at h

end Sequence

theorem sequences_part {m n : ℕ} {record : Bytes} (hm : m < 2 ^ 64)
    (hsent : record.take 8 = beBytes 8 m) (hread : ofBe (record.take 8) = n) : m = n := by
  rw [← hread, hsent, ofBe_beBytes_of_lt (by norm_num; omega)]

section Directions
variable {C : RecordCrypto} (hA : Correct C.aead) (key : Key) (hash : Block 32) (payloads : List Bytes)
  (hv : ∀ p ∈ payloads, FrameSized p)
include hA hv

theorem toNative_iff :
    Delivered (browserSeal C.aead hash) (nativeOpen C) (BrowserCipher.new key) (Session.new key hash)
        payloads (payloads.map Record.application) ↔
      ((payloads.map frameSize).dropLast.foldl (advance limits) Position.start).generation = 0 := by
  refine delivered_iff_first_generation limits_records_pos limits_bytes_pos
    (fun _ n => (⟨key, n⟩ : BrowserCipher)) (fun p _ => openerAt C hash key p) FrameSized ?_ ?_
    payloads hv (p := Position.start) ⟨limits_records_pos, limits_bytes_pos⟩ rfl
  · intro p payload hp hg hpayload
    obtain ⟨record, hseal, hopen, -, -⟩ := agreement_step hA hash key hp hg hpayload
    exact ⟨record, hseal, hopen⟩
  · intro p n payload record hn _ hne hseal decoded hopen
    have hlt : n < 2 ^ 64 := lt_of_le_of_lt hn (by decide)
    exact hne (sequences_part hlt (browserSeal_sequence hseal) (nativeOpen_sequence hopen))

theorem toBrowser_iff :
    Delivered (nativeSeal C) (readRecord C.aead hash) (Session.new key hash) (BrowserCipher.new key)
        payloads payloads ↔
      ((payloads.map frameSize).dropLast.foldl (advance limits) Position.start).generation = 0 := by
  have hid : Delivered (nativeSeal C) (readRecord C.aead hash) (Session.new key hash)
      (BrowserCipher.new key) payloads (payloads.map id) ↔
        ((payloads.map frameSize).dropLast.foldl (advance limits) Position.start).generation = 0 := by
    refine delivered_iff_first_generation limits_records_pos limits_bytes_pos
      (fun p _ => sealerAt C hash key p) (fun _ n => (⟨key, n⟩ : BrowserCipher)) FrameSized ?_ ?_
      payloads hv (p := Position.start) ⟨limits_records_pos, limits_bytes_pos⟩ rfl
    · intro p payload hp hg hpayload
      obtain ⟨record, -, -, hseal, hread⟩ := agreement_step hA hash key hp hg hpayload
      exact ⟨record, hseal, hread⟩
    · intro p n payload record _ hp hne hseal decoded hread
      have hlt : p.records < 2 ^ 64 := lt_of_le_of_lt hp (by decide)
      exact hne (sequences_part hlt (nativeSeal_sequence hseal) (readRecord_sequence hread)).symm
  rwa [List.map_id] at hid

end Directions

theorem rekeys_dropLast_iff (payloads : List Bytes) :
    ((payloads.map frameSize).dropLast.foldl (advance limits) Position.start).generation = 0 ↔
      payloads.dropLast.length < rekeyRecords ∧ (payloads.dropLast.map frameSize).sum < rekeyBytes := by
  have h := position_first_generation limits_records_pos limits_bytes_pos
    (payloads.map frameSize).dropLast
  rw [← List.map_dropLast, List.length_map] at h
  rw [← List.map_dropLast]
  exact h

/-- A browser and a native end understand each other exactly until the native one rekeys. -/
theorem interoperates_iff_before_rekey {C : RecordCrypto} (hA : Correct C.aead) (key : Key)
    (hash : Block 32) (payloads : List Bytes) (hv : ∀ p ∈ payloads, FrameSized p) :
    Interoperates C key hash payloads ↔
      payloads.dropLast.length < rekeyRecords ∧ (payloads.dropLast.map frameSize).sum < rekeyBytes := by
  rw [Interoperates, toNative_iff hA key hash payloads hv, toBrowser_iff hA key hash payloads hv,
    and_self, rekeys_dropLast_iff]

def emptyDataFrame : Bytes :=
  15 :: 0 :: (beBytes 2 0 ++ beBytes 8 1 ++ List.replicate 16 0 ++ beBytes 8 0 ++ beBytes 4 0)

theorem emptyDataFrame_encoded : frameEncode none 15 0 1 [] = .ok emptyDataFrame := by decide

theorem emptyDataFrame_sized : FrameSized emptyDataFrame := by
  have h := (frameEncode_length emptyDataFrame_encoded).1
  rw [FrameSized, h]
  decide

theorem interoperates_iff_before_rekey_pair :
    Interoperates checksumCrypto sampleKey sampleHash [emptyDataFrame, emptyDataFrame] ↔
      [emptyDataFrame, emptyDataFrame].dropLast.length < rekeyRecords ∧
        ([emptyDataFrame, emptyDataFrame].dropLast.map frameSize).sum < rekeyBytes :=
  interoperates_iff_before_rekey (checksumAead_correct _) sampleKey sampleHash _
    (by simp [emptyDataFrame_sized])

/-- The record after the first rekey is not understood. -/
theorem long_session_stops :
    frameEncode none 15 0 1 [] = .ok emptyDataFrame ∧ Correct checksumCrypto.aead ∧
      ¬ Interoperates checksumCrypto sampleKey sampleHash
        (List.replicate (2 ^ 18 + 1) emptyDataFrame) := by
  refine ⟨emptyDataFrame_encoded, checksumAead_correct _, ?_⟩
  rintro ⟨hnative, -⟩
  have hv : ∀ p ∈ List.replicate (2 ^ 18 + 1) emptyDataFrame, FrameSized p := by
    intro p hp
    rw [List.eq_of_mem_replicate hp]
    exact emptyDataFrame_sized
  rw [toNative_iff (checksumAead_correct _) sampleKey sampleHash _ hv, rekeys_dropLast_iff,
    List.dropLast_replicate, List.length_replicate] at hnative
  exact absurd hnative.1 (by decide)

end Mst5Client.RecordInterop
