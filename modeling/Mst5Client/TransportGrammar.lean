import Mst5Client.RecordPlaintext
import Mathlib.Order.Bounds.Basic

set_option autoImplicit false

/-!
# The grammar of transport plaintexts

The parser accepts any number of padding zeros; the padding policy is the sender's alone.
-/
namespace Mst5Client.TransportGrammar
open ByteOrder AuthenticatedCipher RecordLayer RecordPlaintext

theorem eq_replicate_zero {bs : Bytes} (h : ¬ bs.any (· ≠ 0) = true) :
    bs = List.replicate bs.length 0 := by
  rw [List.eq_replicate_iff]
  simpa using h

theorem eq_laidOut {plaintext : Bytes} (hfive : 5 ≤ plaintext.length)
    (hlen : 5 + ofBe ((plaintext.drop 1).take 4) ≤ plaintext.length)
    (hzero : ¬ (plaintext.drop (5 + ofBe ((plaintext.drop 1).take 4))).any (· ≠ 0) = true) :
    ∃ payload padding, payload = (plaintext.drop 5).take (ofBe ((plaintext.drop 1).take 4)) ∧
      payload.length = ofBe ((plaintext.drop 1).take 4) ∧
      plaintext = laidOut (plaintext.headD 0) payload padding := by
  generalize hfield : ofBe ((plaintext.drop 1).take 4) = n at hlen hzero ⊢
  have hpayload : ((plaintext.drop 5).take n).length = n := by
    rw [List.length_take, List.length_drop]
    omega
  refine ⟨(plaintext.drop 5).take n, (plaintext.drop (5 + n)).length, rfl, hpayload, ?_⟩
  have hbytes : beBytes 4 n = (plaintext.drop 1).take 4 := by
    have hfour : ((plaintext.drop 1).take 4).length = 4 := by
      rw [List.length_take, List.length_drop]
      omega
    have hback := beBytes_ofBe ((plaintext.drop 1).take 4)
    rwa [hfour, hfield] at hback
  have hbody : plaintext.drop 5 = (plaintext.drop 5).take n ++ plaintext.drop (5 + n) := by
    rw [← List.drop_drop, List.take_append_drop]
  have htail : plaintext.drop 1 = (plaintext.drop 1).take 4 ++ plaintext.drop 5 := by
    have hfifth : (plaintext.drop 1).drop 4 = plaintext.drop 5 := List.drop_drop
    rw [← hfifth, List.take_append_drop]
  rw [laidOut, hpayload, hbytes, ← eq_replicate_zero hzero, List.append_assoc, ← hbody, ← htail]
  cases plaintext with
  | nil => simp at hfive
  | cons first rest => rfl

theorem parse_eq_ok_iff {plaintext : Bytes} {record : Record} :
    parseTransportPlaintext plaintext = .ok record ↔
      ∃ contentType payload padding, Admissible contentType payload ∧
        plaintext = laidOut contentType payload padding ∧ record = recordOf contentType payload := by
  constructor
  · intro h
    unfold parseTransportPlaintext at h
    dsimp only at h
    split_ifs at h with hshort hlen hzero happlication hclose
    · obtain ⟨payload, padding, hpayload, hn, hlaid⟩ := eq_laidOut (by omega) (by omega) hzero
      refine ⟨0, payload, padding, ⟨.inl rfl, by omega⟩, ?_, ?_⟩
      · rwa [happlication] at hlaid
      · cases h
        rw [recordOf, if_pos rfl, hpayload]
    · obtain ⟨payload, padding, -, hn, hlaid⟩ := eq_laidOut (by omega) (by omega) hzero
      have hempty : payload = [] := List.length_eq_zero_iff.mp (hn.trans hclose.2)
      refine ⟨1, [], padding, ⟨.inr ⟨rfl, rfl⟩, Nat.zero_le _⟩, ?_, ?_⟩
      · rwa [hclose.1, hempty] at hlaid
      · cases h
        rfl
  · rintro ⟨contentType, payload, padding, hadmissible, rfl, rfl⟩
    exact parse_laidOut hadmissible padding

def blockOfPayload (n : ℕ) : ℕ :=
  if 5 + n ≤ largePaddingThreshold then paddingBlock else largePaddingBlock

theorem blockOfPayload_pos (n : ℕ) : 0 < blockOfPayload n := by
  unfold blockOfPayload
  split_ifs <;> decide

theorem isLeast_roundUp {base block : ℕ} (hblock : 0 < block) :
    IsLeast {m | block ∣ m ∧ base ≤ m} ((base + (block - 1)) / block * block) := by
  have hdiv := Nat.div_add_mod (base + (block - 1)) block
  have hmod := Nat.mod_lt (base + (block - 1)) hblock
  rw [Nat.mul_comm] at hdiv
  refine ⟨⟨Dvd.intro_left _ rfl, by omega⟩, ?_⟩
  rintro m ⟨⟨q, rfl⟩, hm⟩
  rw [Nat.mul_comm block q]
  refine Nat.mul_le_mul_right block ?_
  rw [Nat.div_le_iff_le_mul_add_pred hblock]
  omega

theorem paddedLen_isLeast (n : ℕ) : IsLeast {m | blockOfPayload n ∣ m ∧ 5 + n ≤ m} (paddedLen n) :=
  isLeast_roundUp (blockOfPayload_pos n)

theorem paddedLen_mono {m n : ℕ} (h : m ≤ n) : paddedLen m ≤ paddedLen n := by
  simp only [paddedLen, largePaddingThreshold, paddingBlock, largePaddingBlock]
  by_cases hn : 5 + n ≤ 1024
  · have hm : 5 + m ≤ 1024 := by omega
    simp only [hm, hn, ↓reduceIte]
    omega
  · by_cases hm : 5 + m ≤ 1024
    · simp only [hm, hn, ↓reduceIte]
      omega
    · simp only [hm, hn, ↓reduceIte]
      omega

/-- The accepted plaintexts are `0 || be32(L) || payload || zeros` and `1 || 0000 || zeros`. For an
admissible record one of them is built, with as much padding as rounds it up to the block, which
grows with the payload and stays within a record. -/
theorem transport_plaintext_grammar :
    (∀ plaintext record, parseTransportPlaintext plaintext = .ok record ↔
      (∃ payload padding, payload.length ≤ maxTransportPayload ∧ record = .application payload ∧
        plaintext = 0 :: (beBytes 4 payload.length ++ payload ++ List.replicate padding 0)) ∨
      ∃ padding, record = .close ∧ plaintext = [1, 0, 0, 0, 0] ++ List.replicate padding 0) ∧
    (∀ contentType payload, Admissible contentType payload →
      ∃ plaintext, transportPlaintext contentType payload = .ok plaintext ∧
        parseTransportPlaintext plaintext = .ok (recordOf contentType payload) ∧
        IsLeast {m | (if 5 + payload.length ≤ 1024 then 256 else 128) ∣ m ∧ 5 + payload.length ≤ m}
          plaintext.length ∧
        plaintext.length + 24 ≤ maxRecordLen) ∧
    ∀ contentType payload contentType' payload' plaintext plaintext',
      transportPlaintext contentType payload = .ok plaintext →
      transportPlaintext contentType' payload' = .ok plaintext' →
      payload.length ≤ payload'.length → plaintext.length ≤ plaintext'.length := by
  refine ⟨?_, ?_, ?_⟩
  · intro plaintext record
    rw [parse_eq_ok_iff]
    constructor
    · rintro ⟨contentType, payload, padding, ⟨rfl | ⟨rfl, rfl⟩, hlen⟩, rfl, rfl⟩
      · exact .inl ⟨payload, padding, hlen, rfl, rfl⟩
      · exact .inr ⟨padding, rfl, rfl⟩
    · rintro (⟨payload, padding, hlen, rfl, rfl⟩ | ⟨padding, rfl, rfl⟩)
      · exact ⟨0, payload, padding, ⟨.inl rfl, hlen⟩, rfl, rfl⟩
      · exact ⟨1, [], padding, ⟨.inr ⟨rfl, rfl⟩, Nat.zero_le _⟩, rfl, rfl⟩
  · intro contentType payload h
    refine ⟨padded contentType payload, transportPlaintext_ok h, parse_padded h, ?_, ?_⟩
    · rw [padded_length]
      exact paddedLen_isLeast payload.length
    · have hrecord := paddedLen_record h.2
      rw [padded_length]
      simp only [tagLen] at hrecord
      omega
  · intro contentType payload contentType' payload' plaintext plaintext' h h' hle
    rw [(transportPlaintextInto_inv h).2, (transportPlaintextInto_inv h').2, padded_length,
      padded_length]
    exact paddedLen_mono hle

def legacyPlaintext : Bytes := 0 :: (beBytes 4 2 ++ [111, 107] ++ List.replicate 57 0)

theorem transport_plaintext_grammar_legacy :
    parseTransportPlaintext legacyPlaintext = .ok (.application [111, 107]) ∧
    ∃ plaintext, transportPlaintext 0 [111, 107] = .ok plaintext ∧
      IsLeast {m | 256 ∣ m ∧ 7 ≤ m} plaintext.length := by
  obtain ⟨hgrammar, hbuilt, -⟩ := transport_plaintext_grammar
  obtain ⟨plaintext, hplaintext, -, hleast, -⟩ := hbuilt 0 [111, 107] (by decide)
  refine ⟨?_, plaintext, hplaintext, hleast⟩
  rw [hgrammar]
  exact .inl ⟨[111, 107], 57, by decide, rfl, rfl⟩

end Mst5Client.TransportGrammar
