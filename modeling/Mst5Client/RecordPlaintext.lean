import Mst5Client.RecordLayer

set_option autoImplicit false

/-!
# Transport plaintexts

What `transport_plaintext` builds for an admissible record, how long it is, and that
`parse_transport_plaintext` reads the record back.
-/
namespace Mst5Client.RecordPlaintext
open ByteOrder AuthenticatedCipher IoResult RecordLayer

/-- What `transport_plaintext` accepts: application data, or an empty record of type 1. -/
def Admissible (contentType : UInt8) (payload : Bytes) : Prop :=
  (contentType = 0 ∨ contentType = 1 ∧ payload = []) ∧ payload.length ≤ maxTransportPayload

instance (contentType : UInt8) (payload : Bytes) : Decidable (Admissible contentType payload) :=
  inferInstanceAs (Decidable (_ ∧ _))

def paddedLen (n : ℕ) : ℕ :=
  let block := if 5 + n ≤ largePaddingThreshold then paddingBlock else largePaddingBlock
  (5 + n + (block - 1)) / block * block

def padded (contentType : UInt8) (payload : Bytes) : Bytes :=
  contentType :: (beBytes 4 payload.length ++ payload ++
    List.replicate (paddedLen payload.length - (5 + payload.length)) 0)

theorem paddedLen_bounds (n : ℕ) : 5 + n ≤ paddedLen n ∧ paddedLen n < 5 + n + 256 := by
  simp only [paddedLen, largePaddingThreshold, paddingBlock, largePaddingBlock]
  by_cases h : 5 + n ≤ 1024
  · simp only [h, ↓reduceIte]
    omega
  · simp only [h, ↓reduceIte]
    omega

theorem paddedLen_record {n : ℕ} (h : n ≤ maxTransportPayload) :
    8 + paddedLen n + tagLen ≤ maxRecordLen := by
  simp only [paddedLen, largePaddingThreshold, paddingBlock, largePaddingBlock, maxRecordLen,
    maxTransportPayload, tagLen] at *
  by_cases hs : 5 + n ≤ 1024
  · simp only [hs, ↓reduceIte]
    omega
  · simp only [hs, ↓reduceIte]
    omega

theorem maxRecordLen_eq : maxRecordLen = 20971672 := by decide

theorem padded_length (contentType : UInt8) (payload : Bytes) :
    (padded contentType payload).length = paddedLen payload.length := by
  have h := (paddedLen_bounds payload.length).1
  simp only [padded, List.length_cons, List.length_append, beBytes_length, List.length_replicate]
  omega

variable {contentType : UInt8} {payload : Bytes}

theorem padded_le_record (h : Admissible contentType payload) :
    (padded contentType payload).length ≤ maxRecordLen := by
  have hrecord := paddedLen_record h.2
  rw [padded_length]
  omega

theorem padded_encryptable (h : Admissible contentType payload) :
    (padded contentType payload).length < messageLimit := by
  have hrecord := padded_le_record h
  rw [maxRecordLen_eq] at hrecord
  simp only [messageLimit]
  omega

theorem written_eq_padded (contentType : UInt8) (payload : Bytes) :
    copyAt (copyAt ((List.replicate (paddedLen payload.length) (0 : UInt8)).set 0 contentType) 1
      (beBytes 4 payload.length)) 5 payload = padded contentType payload := by
  obtain ⟨k, hk⟩ : ∃ k, paddedLen payload.length = k + payload.length + 4 + 1 :=
    ⟨paddedLen payload.length - (5 + payload.length), by
      have h := (paddedLen_bounds payload.length).1
      omega⟩
  have hlen : (beBytes 4 payload.length).length = 4 := beBytes_length 4 _
  have hpad : paddedLen payload.length - (5 + payload.length) = k := by omega
  rw [padded, hpad, hk]
  simp only [List.replicate_succ, List.set_cons_zero, copyAt, List.take_succ_cons, List.take_zero,
    List.nil_append, hlen, List.cons_append, Nat.add_comm 1 4, List.drop_succ_cons, List.drop_zero]
  rw [Nat.add_comm 5 payload.length]
  simp only [List.drop_succ_cons, List.append_assoc, List.take_left' hlen]
  have hdrop : ((beBytes 4 payload.length) ++ List.replicate (k + payload.length) (0 : UInt8)).drop
      (payload.length + 4) = List.replicate k 0 := by
    rw [Nat.add_comm, ← List.drop_drop, List.drop_left' hlen, List.drop_replicate]
    congr 1
    omega
  rw [hdrop]

theorem transportPlaintextInto_ok (buffer : Bytes) (h : Admissible contentType payload) :
    transportPlaintextInto buffer contentType payload = .ok (padded contentType payload) := by
  obtain ⟨htype, hlen⟩ := h
  have htype' : ¬ (1 < contentType ∨ contentType = 1 ∧ payload ≠ []) := by
    rcases htype with rfl | ⟨rfl, rfl⟩ <;> simp
  have hmax : payload.length ≤ 20971520 := hlen
  have hblock : (if 5 + payload.length ≤ largePaddingThreshold then paddingBlock
      else largePaddingBlock) ≤ 256 := by
    split_ifs <;> decide
  simp only [transportPlaintextInto, htype', Nat.not_lt.mpr hlen, ↓reduceIte]
  rw [checkedAdd_of_lt (by omega)]
  dsimp only
  rw [checkedAdd_of_lt (by omega)]
  dsimp only
  rw [← written_eq_padded contentType payload]
  simp [clear, resize, paddedLen]

theorem transportPlaintext_ok (h : Admissible contentType payload) :
    transportPlaintext contentType payload = .ok (padded contentType payload) :=
  transportPlaintextInto_ok [] h

theorem transportPlaintextInto_inv {buffer plaintext : Bytes}
    (h : transportPlaintextInto buffer contentType payload = .ok plaintext) :
    Admissible contentType payload ∧ plaintext = padded contentType payload := by
  have hadm : Admissible contentType payload := by
    by_cases htype : 1 < contentType ∨ contentType = 1 ∧ payload ≠ []
    · simp [transportPlaintextInto, htype] at h
    by_cases hlen : maxTransportPayload < payload.length
    · simp [transportPlaintextInto, htype, hlen] at h
    refine ⟨?_, Nat.not_lt.mp hlen⟩
    simp only [not_or, not_and, not_not] at htype
    by_cases hone : contentType = 1
    · exact Or.inr ⟨hone, htype.2 hone⟩
    · have hle : contentType.toNat ≤ 1 := UInt8.le_iff_toNat_le.mp (UInt8.not_lt.mp htype.1)
      have hne : contentType.toNat ≠ 1 := fun he => hone (UInt8.toNat_inj.mp he)
      have hzero : contentType.toNat = 0 := by omega
      exact Or.inl (UInt8.toNat_inj.mp hzero)
  rw [transportPlaintextInto_ok buffer hadm] at h
  exact ⟨hadm, (Except.ok.inj h).symm⟩

def recordOf (contentType : UInt8) (payload : Bytes) : Record :=
  if contentType = 0 then .application payload else .close

variable (contentType payload) (padding : ℕ)

def laidOut : Bytes := contentType :: (beBytes 4 payload.length ++ payload ++ List.replicate padding 0)

theorem laidOut_length :
    (laidOut contentType payload padding).length = 5 + payload.length + padding := by
  simp only [laidOut, List.length_cons, List.length_append, beBytes_length, List.length_replicate]
  omega

theorem laidOut_body :
    (laidOut contentType payload padding).drop 5 = payload ++ List.replicate padding 0 := by
  rw [laidOut, List.drop_succ_cons, List.append_assoc, List.drop_left' (beBytes_length 4 _)]

theorem laidOut_tail_zero :
    ((laidOut contentType payload padding).drop (5 + payload.length)).any (· ≠ 0) = false := by
  rw [← List.drop_drop, laidOut_body, List.drop_left]
  simp [List.any_replicate]

theorem laidOut_payload :
    ((laidOut contentType payload padding).drop 5).take payload.length = payload := by
  rw [laidOut_body, List.take_left]

theorem laidOut_lengthField (h : payload.length < 2 ^ 32) :
    ofBe (((laidOut contentType payload padding).drop 1).take 4) = payload.length := by
  rw [laidOut, List.drop_succ_cons, List.drop_zero, List.append_assoc,
    List.take_left' (beBytes_length 4 _), ofBe_beBytes_of_lt (by norm_num; omega)]

theorem padded_eq_laidOut :
    padded contentType payload = laidOut contentType payload
      (paddedLen payload.length - (5 + payload.length)) := rfl

variable {contentType payload}

theorem parse_laidOut (h : Admissible contentType payload) (padding : ℕ) :
    parseTransportPlaintext (laidOut contentType payload padding) =
      .ok (recordOf contentType payload) := by
  obtain ⟨htype, hlen⟩ := h
  have hmax : payload.length ≤ 20971520 := hlen
  have hshort : ¬ (laidOut contentType payload padding).length < 5 := by rw [laidOut_length]; omega
  have hfit : ¬ (maxTransportPayload < payload.length ∨
      (laidOut contentType payload padding).length < 5 + payload.length) := by
    rw [laidOut_length]
    simp only [maxTransportPayload]
    omega
  simp only [parseTransportPlaintext, hshort,
    laidOut_lengthField contentType payload padding (by omega), hfit, laidOut_tail_zero,
    laidOut_payload, ↓reduceIte, Bool.false_eq_true]
  rcases htype with rfl | ⟨rfl, rfl⟩
  · simp [laidOut, recordOf]
  · simp [laidOut, recordOf]

theorem parse_padded (h : Admissible contentType payload) :
    parseTransportPlaintext (padded contentType payload) = .ok (recordOf contentType payload) :=
  parse_laidOut h _

structure Item where
  contentType : UInt8
  payload : Bytes
  admissible : Admissible contentType payload

def Item.record (i : Item) : Record := recordOf i.contentType i.payload

def Item.plaintext (i : Item) : Bytes := padded i.contentType i.payload

def Item.size (i : Item) : ℕ := paddedLen i.payload.length

theorem Item.plaintext_length (i : Item) : i.plaintext.length = i.size :=
  padded_length i.contentType i.payload

theorem Item.size_le (i : Item) : i.size ≤ maxRecordLen :=
  i.plaintext_length ▸ padded_le_record i.admissible

end Mst5Client.RecordPlaintext
