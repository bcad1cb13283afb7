import Mst5Client.IdentityMessages

set_option autoImplicit false

/-!
# Message round trip

The decoder's checks are met by whatever the encoder chooses, for any compressor that can be undone.
-/
namespace Mst5Client.MessageRoundTrip
open ByteOrder AuthenticatedCipher IoResult IdentityMessages

/-- Decompression with the original length undoes compression. -/
def Lossless (C : E2eCrypto) : Prop :=
  ∀ x c, C.compress x = .ok c → C.decompress c x.length = .ok x

/-- Both sides of a key agreement compute the same secret, and it is not zero. -/
structure Agree {C : E2eCrypto} (a b : Identity C) : Prop where
  commutes : C.diffieHellman a.privateKey b.publicKey = C.diffieHellman b.privateKey a.publicKey
  nonzero : (C.diffieHellman a.privateKey b.publicKey).toList.all (· = 0) = false

variable {C : E2eCrypto} {bits : ℕ} {plaintext : Bytes}
variable {c encoded : Bytes}

theorem e2eZstdCompress_ok (h : e2eZstdCompress C plaintext = .ok c) :
    C.compress plaintext = .ok c := by
  unfold e2eZstdCompress at h
  split at h
  · cases h
  · cases h
  · rename_i hok
    cases h
    exact hok

theorem encodedBody_cases {flags : UInt8} {body : Bytes}
    (h : encodedBody C bits plaintext = .ok (flags, body)) :
    (flags = 0 ∧ body = plaintext) ∨
      (flags = messageV4Zstd ∧ C.compress plaintext = .ok body ∧ 0 < plaintext.length ∧
        plaintext.length ≤ saturatingMul bits body.length maxCompressionRatio) := by
  unfold encodedBody at h
  split_ifs at h with hlong
  · obtain ⟨compressed, hcompress, h⟩ := bind_eq_ok h
    split_ifs at h with hworth
    · cases h
      simp only [worthwhile, decide_eq_true_eq] at hworth
      have hpos : 0 < plaintext.length := lt_of_lt_of_le (by decide) hlong
      exact .inr ⟨rfl, e2eZstdCompress_ok hcompress, hpos, hworth.2⟩
    · cases h
      exact .inl ⟨rfl, rfl⟩
  · cases h
    exact .inl ⟨rfl, rfl⟩

theorem decodedBody_encodedBody (hC : Lossless C) {flags : UInt8} {body : Bytes}
    (h : encodedBody C bits plaintext = .ok (flags, body)) :
    flags &&& ~~~messageV4Zstd = 0 ∧ decodedBody C bits flags body plaintext.length =
      .ok plaintext := by
  obtain ⟨rfl, rfl⟩ | ⟨rfl, hcompress, hpos, hratio⟩ := encodedBody_cases h
  · exact ⟨by decide, rfl⟩
  -- an empty body would exceed the ratio
  · have hbody : body ≠ [] := by
      rintro rfl
      rw [saturatingMul, List.length_nil, Nat.zero_mul, Nat.zero_min] at hratio
      omega
    have hdecompress : e2eZstdDecompress C body plaintext.length = .ok plaintext := by
      rw [e2eZstdDecompress, hC plaintext body hcompress]
    refine ⟨by decide, ?_⟩
    rw [decodedBody, if_pos (by decide), if_neg hbody, bind_of_ok hdecompress,
      if_neg (not_lt.mpr hratio)]
    rfl

theorem decode_encode (hC : Lossless C) (h : encodeMessageV4 C bits plaintext = .ok encoded) :
    decodeMessageV4 C bits encoded = .ok plaintext := by
  unfold encodeMessageV4 at h
  split_ifs at h with hlarge
  obtain ⟨⟨flags, body⟩, hbody, h⟩ := bind_eq_ok h
  cases h
  obtain ⟨hflags, hdecoded⟩ := decodedBody_encodedBody hC hbody
  have hmax : plaintext.length < 256 ^ 4 := lt_of_le_of_lt (not_lt.mp hlarge) (by decide)
  have hfour : messageV4Header.length = 4 := rfl
  have hnine : (messageV4Header ++ [flags] ++ beBytes 4 plaintext.length).length = 9 := by simp [hfour]
  have hsize : ((messageV4Header ++ [flags] ++ beBytes 4 plaintext.length ++ body).drop 5).take 4 =
      beBytes 4 plaintext.length := by
    rw [List.append_assoc, List.drop_left' (by simp [hfour]), List.take_left' (beBytes_length 4 _)]
  have hhead : ¬ ((messageV4Header ++ [flags] ++ beBytes 4 plaintext.length ++ body).length < 9 ∨
      (messageV4Header ++ [flags] ++ beBytes 4 plaintext.length ++ body).take 4 ≠ messageV4Header) := by
    rw [List.length_append, hnine, List.append_assoc, List.append_assoc, List.take_left' hfour, not_or]
    exact ⟨by omega, not_not.mpr rfl⟩
  have hflag : ((messageV4Header ++ [flags] ++ beBytes 4 plaintext.length ++ body).drop 4).headD 0 =
      flags := by
    rw [List.append_assoc, List.append_assoc, List.drop_left' hfour]
    rfl
  rw [decodeMessageV4, if_neg hhead]
  dsimp only
  rw [hflag, if_neg (not_not.mpr hflags), hsize, ofBe_beBytes_of_lt hmax, if_neg hlarge,
    List.drop_left' hnine, bind_of_ok hdecoded, if_neg (not_not.mpr rfl)]
  rfl

theorem worthwhile_length (hbits : 32 ≤ bits) (hlen : plaintext.length ≤ maxMessageBytes)
    (h : worthwhile bits plaintext c = true) : c.length ≤ plaintext.length := by
  simp only [worthwhile, decide_eq_true_eq] at h
  have hpow : 2 ^ 32 ≤ 2 ^ bits := Nat.pow_le_pow_right (by norm_num) hbits
  have hmax : plaintext.length ≤ 4194304 := hlen
  have hsaved : min (c.length * 10) (2 ^ bits - 1) ≤ min (plaintext.length * 9) (2 ^ bits - 1) := h.1
  omega

theorem encode_ok (hbits : 32 ≤ bits) (hlen : plaintext.length ≤ maxMessageBytes)
    (hc : C.compress plaintext = .ok c) :
    ∃ encoded, encodeMessageV4 C bits plaintext = .ok encoded ∧ encoded.length < messageLimit := by
  have hcompress : e2eZstdCompress C plaintext = .ok c := by rw [e2eZstdCompress, hc]
  have hbody : ∃ flags body, encodedBody C bits plaintext = .ok (flags, body) ∧
      body.length ≤ plaintext.length := by
    unfold encodedBody
    split_ifs
    · rw [bind_of_ok hcompress]
      split_ifs with hworth
      · exact ⟨_, _, rfl, worthwhile_length hbits hlen hworth⟩
      · exact ⟨_, _, rfl, le_rfl⟩
    · exact ⟨_, _, rfl, le_rfl⟩
  obtain ⟨flags, body, hbody, hshort⟩ := hbody
  refine ⟨_, by rw [encodeMessageV4, if_neg (not_lt.mpr hlen), bind_of_ok hbody]; rfl, ?_⟩
  have hmax : plaintext.length ≤ 4194304 := hlen
  simp only [List.length_append, beBytes_length, messageV4Header,
    List.length_cons, List.length_nil, messageLimit]
  omega

theorem encode_length (h : encodeMessageV4 C bits plaintext = .ok encoded) :
    9 ≤ encoded.length := by
  unfold encodeMessageV4 at h
  split_ifs at h
  obtain ⟨⟨flags, body⟩, -, h⟩ := bind_eq_ok h
  cases h
  simp only [List.length_append, beBytes_length, messageV4Header, List.length_cons, List.length_nil]
  omega

variable {a b : Identity C}
variable {fromId toId : String} {key : Block 32}

theorem sessionKey_agree (h : Agree a b) (left right : String) (label : Bytes) : ∃ key,
    a.sessionKeyWithLabel b.publicKey left right label = .ok key ∧
      b.sessionKeyWithLabel a.publicKey left right label = .ok key := by
  have hzero : ¬ (C.diffieHellman a.privateKey b.publicKey).toList.all (· = 0) = true := by
    rw [h.nonzero]
    exact Bool.false_ne_true
  refine ⟨_, if_neg hzero, ?_⟩
  rw [Identity.sessionKeyWithLabel, ← h.commutes]
  exact if_neg hzero

theorem seal_eq_ok {random : Except String (Block 24)} {envelope : Envelope}
    (hkey : a.sessionKeyWithLabel b.publicKey fromId toId (utf8 "message-v4-key") = .ok key)
    (h : a.seal bits random b.publicKey fromId toId plaintext = .ok envelope) :
    ∃ nonce encoded ciphertext, encodeMessageV4 C bits plaintext = .ok encoded ∧
      C.aead.encrypt key nonce.toList (messageV4Aad fromId toId) encoded = some ciphertext ∧
      envelope = ⟨envelopeVersion, nonce, ciphertext⟩ := by
  unfold Identity.seal at h
  rw [bind_of_ok hkey] at h
  obtain ⟨nonce, -, h⟩ := bind_eq_ok h
  obtain ⟨encoded, hencoded, h⟩ := bind_eq_ok h
  split at h
  · cases h
  · rename_i ciphertext hc
    cases h
    exact ⟨nonce, encoded, ciphertext, hencoded, hc, rfl⟩

theorem seal_ok (hA : Correct C.aead) (hbits : 32 ≤ bits) {compressed : Bytes}
    (hlen : plaintext.length ≤ maxMessageBytes)
    (hcompressed : C.compress plaintext = .ok compressed)
    (hkey : a.sessionKeyWithLabel b.publicKey fromId toId (utf8 "message-v4-key") = .ok key)
    (nonce : Block 24) :
    ∃ encoded ciphertext, encodeMessageV4 C bits plaintext = .ok encoded ∧
      C.aead.encrypt key nonce.toList (messageV4Aad fromId toId) encoded = some ciphertext ∧
      a.seal bits (.ok nonce) b.publicKey fromId toId plaintext = .ok ⟨envelopeVersion, nonce,
        ciphertext⟩ := by
  obtain ⟨encoded, hencoded, hshort⟩ := encode_ok hbits hlen hcompressed
  obtain ⟨ciphertext, hc⟩ := hA.encrypts key nonce.toList (messageV4Aad fromId toId) encoded hshort
  refine ⟨encoded, ciphertext, hencoded, hc, ?_⟩
  rw [Identity.seal, bind_of_ok hkey]
  change (encodeMessageV4 C bits plaintext >>= _) = _
  rw [bind_of_ok hencoded, hc]

theorem open_sealed (hA : Correct C.aead) (hC : Lossless C) {nonce : Block 24} {ciphertext : Bytes}
    (hkey : b.sessionKeyWithLabel a.publicKey fromId toId (utf8 "message-v4-key") = .ok key)
    (hencoded : encodeMessageV4 C bits plaintext = .ok encoded)
    (hc : C.aead.encrypt key nonce.toList (messageV4Aad fromId toId) encoded = some ciphertext) :
    b.openEnvelope bits a.publicKey fromId toId ⟨envelopeVersion, nonce, ciphertext⟩ =
      .ok plaintext := by
  have hlen : ciphertext.length = encoded.length + 16 := hA.length _ _ _ _ _ hc
  have hvalid : ¬ ((envelopeVersion ≠ legacyEnvelopeVersion ∧ envelopeVersion ≠ envelopeVersion) ∨
      ciphertext.length < 16) := by
    rw [not_or]
    exact ⟨by decide, by omega⟩
  have hversion : ¬ envelopeVersion = legacyEnvelopeVersion := by decide
  unfold Identity.openEnvelope
  rw [if_neg hvalid, if_neg hversion, bind_of_ok hkey]
  simp only [pure_bind, hA.decrypts _ _ _ _ _ hc, if_neg hversion]
  exact decode_encode hC hencoded

theorem decodeEnvelope_encodeEnvelope {nonce : Block 24} {ciphertext : Bytes}
    (h : 16 ≤ ciphertext.length) :
    decodeEnvelope (encodeEnvelope ⟨envelopeVersion, nonce, ciphertext⟩) =
      .ok ⟨envelopeVersion, nonce, ciphertext⟩ := by
  have hnonce : (nonce.toList ++ ciphertext).take 24 = nonce.toList :=
    List.take_left' (block_length nonce)
  have hrest : (nonce.toList ++ ciphertext).drop 24 = ciphertext := List.drop_left' (block_length nonce)
  have hvalid : ¬ ((envelopeVersion :: (nonce.toList ++ ciphertext)).length < 41 ∨
      (envelopeVersion ≠ legacyEnvelopeVersion ∧ envelopeVersion ≠ envelopeVersion)) := by
    rw [not_or, List.length_cons, List.length_append, block_length]
    exact ⟨by omega, by decide⟩
  change decodeEnvelope (envelopeVersion :: (nonce.toList ++ ciphertext)) = _
  rw [decodeEnvelope]
  simp only [List.headD_cons, if_neg hvalid, List.drop_succ_cons, List.drop_zero, hnonce, hrest,
    blockOf_toList]

/-- Every envelope that comes back from `seal` opens to its plaintext, directly and through
the bytes of the C interface; and one does come back unless the generator or the compressor
fails. -/
theorem sealed_message_opens (hA : Correct C.aead) (hC : Lossless C) (hbits : 32 ≤ bits)
    (hab : Agree a b) (fromId toId : String) {plaintext : Bytes}
    (hlen : plaintext.length ≤ 4 * 1024 * 1024) :
    (∀ random envelope, a.seal bits random b.publicKey fromId toId plaintext = .ok envelope →
      b.openEnvelope bits a.publicKey fromId toId envelope = .ok plaintext ∧
      ∃ received, decodeEnvelope (encodeEnvelope envelope) = .ok received ∧
        b.openEnvelope bits a.publicKey fromId toId received = .ok plaintext) ∧
    ∀ nonce compressed, C.compress plaintext = .ok compressed →
      ∃ envelope, a.seal bits (.ok nonce) b.publicKey fromId toId plaintext = .ok envelope := by
  obtain ⟨key, hsender, hreceiver⟩ := sessionKey_agree hab fromId toId (utf8 "message-v4-key")
  constructor
  · intro random envelope h
    obtain ⟨nonce, encoded, ciphertext, hencoded, hc, rfl⟩ := seal_eq_ok hsender h
    have hopen := open_sealed hA hC hreceiver hencoded hc
    have hcipher : ciphertext.length = encoded.length + 16 := hA.length _ _ _ _ _ hc
    exact ⟨hopen, _, decodeEnvelope_encodeEnvelope (by omega), hopen⟩
  · intro nonce compressed hcompressed
    obtain ⟨encoded, ciphertext, -, -, hseal⟩ := seal_ok hA hbits hlen hcompressed hsender nonce
    exact ⟨_, hseal⟩

/-- A text that repeats itself is compressed to its half. -/
def sampleCrypto : E2eCrypto where
  publicKey k := k
  diffieHellman k p := blockOf 32 (List.zipWith (· + ·) k.toList p.toList)
  sha256 _ := blockOf 32 []
  hkdf _ secret _ := blockOf 32 secret
  aead := checksumAead List.Vector.toList
  compress x := .ok (if x.take (x.length / 2) ++ x.take (x.length / 2) = x then
    x.take (x.length / 2) else x)
  decompress c n := .ok (if n = c.length + c.length then c ++ c else c)

def sampleIdentity (b : UInt8) : Identity sampleCrypto :=
  Identity.fromPrivate sampleCrypto (blockOf 32 (List.replicate 32 b))

theorem sampleCrypto_lossless : Lossless sampleCrypto := by
  intro x c h
  cases h
  refine congrArg Except.ok ?_
  split_ifs with htwice hlength hlength
  · exact htwice
  · exact absurd (by rw [← List.length_append, htwice]) hlength
  · rw [List.eq_nil_of_length_eq_zero (by omega : x.length = 0)]
    rfl
  · rfl

def sampleText : Bytes := List.replicate 2048 104

theorem sealed_message_opens_sample :
    encodedBody sampleCrypto 64 sampleText = .ok (messageV4Zstd, List.replicate 1024 104) ∧
    ∃ envelope received,
      (sampleIdentity 1).seal 64 (.ok (blockOf 24 []))
        (sampleIdentity 2).publicKey "alice" "bob" sampleText = .ok envelope ∧
      (sampleIdentity 2).openEnvelope 64 (sampleIdentity 1).publicKey "alice" "bob" envelope =
      .ok sampleText ∧ decodeEnvelope (encodeEnvelope envelope) = .ok received ∧
      (sampleIdentity 2).openEnvelope 64 (sampleIdentity 1).publicKey "alice" "bob" received =
        .ok sampleText := by
  have hlen : sampleText.length ≤ 4 * 1024 * 1024 := by decide +kernel
  obtain ⟨hopens, hseals⟩ := sealed_message_opens (a := sampleIdentity 1) (b := sampleIdentity 2)
    (checksumAead_correct _) sampleCrypto_lossless (by norm_num : 32 ≤ 64) ⟨by decide, by decide⟩
      "alice" "bob" hlen
  obtain ⟨envelope, hseal⟩ := hseals (blockOf 24 []) _ rfl
  obtain ⟨hopen, received, hdecode, hreceived⟩ := hopens _ envelope hseal
  exact ⟨by decide +kernel, envelope, received, hseal, hopen, hdecode, hreceived⟩

end Mst5Client.MessageRoundTrip
