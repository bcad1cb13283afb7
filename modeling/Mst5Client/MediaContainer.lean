import Mst5Client.AuthenticatedCipher
import Mst5Client.IoResult
import Mst5Client.StreamDecoder

set_option autoImplicit false

/-!
# The encrypted media container

`MediaEncryptor` and `MediaDecryptor` of `src/e2e.rs` (container version 2). The cipher is a
parameter, and so is the width of `usize`, which the decryptor narrows the remaining length to.
-/
namespace Mst5Client.MediaContainer
open ByteOrder AuthenticatedCipher IoResult StreamDecoder

abbrev MediaKey := Block 32

def mediaEnvelopeVersion : UInt8 := 2
def mediaChunkSize : ℕ := 64 * 1024
def mediaHeaderSize : ℕ := 32
def mediaTagSize : ℕ := 16

def mediaMagic : Bytes := [77, 53, 69, 77] -- M5EM

def mediaHeader (plaintextSize : ℕ) (noncePrefix : Block 16) : Bytes :=
  mediaMagic ++ [mediaEnvelopeVersion, 16, 0, 0] ++ beBytes 8 plaintextSize ++ noncePrefix.toList

def mediaNonce (noncePrefix : Block 16) (index : ℕ) : Bytes := noncePrefix.toList ++ beBytes 8 index

def mediaChunkAad (aadPrefix header : Bytes) (index plaintextLen : ℕ) : Bytes :=
  aadPrefix ++ header ++ beBytes 8 index ++ beBytes 4 plaintextLen

def checkedMul (a b : ℕ) : Option ℕ := if a * b < 2 ^ 64 then some (a * b) else none

theorem checkedMul_of_lt {a b : ℕ} (h : a * b < 2 ^ 64) : checkedMul a b = some (a * b) := if_pos h

def encryptedMediaSize (plaintextSize : ℕ) : Except IoError ℕ :=
  let chunks := divCeil plaintextSize mediaChunkSize
  match (checkedMul chunks (4 + mediaTagSize)).bind (checkedAdd · mediaHeaderSize) with
  | none => .error (invalidData "E2E media size overflow")
  | some overhead =>
    match checkedAdd plaintextSize overhead with
    | none => .error (invalidData "E2E media size overflow")
    | some size => .ok size

def mediaCipher (key : Bytes) : Except IoError MediaKey :=
  if h : key.length = 32 then .ok ⟨key, h⟩ else .error (invalidData "invalid E2E media key")

structure MediaEncryptor where
  key : MediaKey
  aadPrefix : Bytes
  noncePrefix : Block 16
  plaintextSize : ℕ
  written : ℕ
  index : ℕ

def MediaEncryptor.withKey (random : Except String (Block 16)) (key aadPrefix : Bytes)
    (plaintextSize : ℕ) : Except IoError MediaEncryptor :=
  match mediaCipher key with
  | .error e => .error e
  | .ok key =>
    match random with
    | .error e => .error ⟨.other, "OS randomness failed: " ++ e⟩
    | .ok noncePrefix => .ok ⟨key, aadPrefix, noncePrefix, plaintextSize, 0, 0⟩

def MediaEncryptor.header (e : MediaEncryptor) : Bytes := mediaHeader e.plaintextSize e.noncePrefix

def MediaEncryptor.sealChunk (A : Aead MediaKey) (e : MediaEncryptor) (plaintext : Bytes) :
    MediaEncryptor × Except IoError Bytes :=
  if plaintext = [] ∨ mediaChunkSize < plaintext.length then
    (e, .error (invalidData "invalid E2E media chunk size"))
  else
    match checkedAdd e.written plaintext.length with
    | none => (e, .error (invalidData "E2E media size overflow"))
    | some next =>
      if e.plaintextSize < next ∨ (next ≠ e.plaintextSize ∧ plaintext.length ≠ mediaChunkSize) then
        (e, .error (invalidData "E2E media chunks do not match declared size"))
      else
        match A.encrypt e.key (mediaNonce e.noncePrefix e.index)
            (mediaChunkAad e.aadPrefix e.header e.index plaintext.length) plaintext with
        | none => (e, .error (invalidData "E2E media encryption failed"))
        | some ciphertext =>
          let out := beBytes 4 ciphertext.length ++ ciphertext
          let e := { e with written := next } -- kept if the index overflows
          match checkedAdd e.index 1 with
          | none => (e, .error (invalidData "E2E media chunk index overflow"))
          | some index => ({ e with index }, .ok out)

def MediaEncryptor.finish (e : MediaEncryptor) : Except IoError Unit :=
  if e.written = e.plaintextSize then .ok ()
  else .error (invalidData "E2E media source is shorter than declared size")

/-- The decryptor without the bytes it has not consumed. -/
structure MediaCursor where
  key : MediaKey
  aadPrefix : Bytes
  noncePrefix : Block 16
  plaintextSize : ℕ
  written : ℕ
  index : ℕ
  headerRead : Bool

structure MediaDecryptor extends MediaCursor where
  pending : Bytes

def MediaDecryptor.withKey (key aadPrefix : Bytes) : Except IoError MediaDecryptor :=
  match mediaCipher key with
  | .error e => .error e
  | .ok key => .ok ⟨⟨key, aadPrefix, blockOf 16 [], 0, 0, 0, false⟩, []⟩

def MediaCursor.header (d : MediaCursor) : Bytes := mediaHeader d.plaintextSize d.noncePrefix

def headerSupported (header : Bytes) : Bool :=
  header.take 4 = mediaMagic ∧ (header.drop 4).take 4 = [mediaEnvelopeVersion, 16, 0, 0]

section Header
variable (plaintextSize : ℕ) (noncePrefix : Block 16)

@[simp] theorem mediaHeader_length :
    (mediaHeader plaintextSize noncePrefix).length = mediaHeaderSize := by
  simp [mediaHeader, mediaMagic, mediaHeaderSize]

theorem mediaHeader_supported : headerSupported (mediaHeader plaintextSize noncePrefix) = true := by
  simp [headerSupported, mediaHeader, mediaMagic]

theorem mediaHeader_size :
    ((mediaHeader plaintextSize noncePrefix).drop 8).take 8 = beBytes 8 plaintextSize := by
  simp [mediaHeader, mediaMagic, List.take_left' (beBytes_length 8 plaintextSize)]

theorem mediaHeader_nonce : (mediaHeader plaintextSize noncePrefix).drop 16 = noncePrefix.toList := by
  have h : (mediaMagic ++ [mediaEnvelopeVersion, 16, 0, 0] ++ beBytes 8 plaintextSize).length = 16 := by
    simp [mediaMagic]
  rw [mediaHeader, List.drop_left' h]

end Header

/-- The `while` loop of `push`. Each round takes bytes from `pending`, so as many rounds as
it has bytes are enough. -/
def MediaDecryptor.pushLoop (A : Aead MediaKey) (bits : ℕ) :
    ℕ → MediaDecryptor → List Bytes → MediaDecryptor × Except IoError (List Bytes)
  | 0, d, output => (d, .ok output)
  | fuel + 1, d, output =>
    if d.plaintextSize ≤ d.written then (d, .ok output)
    else if d.pending.length < 4 then (d, .ok output)
    else
      let ciphertextLen := ofBe (d.pending.take 4)
      let remaining := (d.plaintextSize - d.written) % 2 ^ bits -- `as usize`
      let expectedPlain := min remaining mediaChunkSize
      if ciphertextLen ≠ expectedPlain + mediaTagSize then
        (d, .error (invalidData "invalid E2E media chunk length"))
      else if d.pending.length < 4 + ciphertextLen then (d, .ok output)
      else
        match A.decrypt d.key (mediaNonce d.noncePrefix d.index)
            (mediaChunkAad d.aadPrefix d.header d.index expectedPlain)
            ((d.pending.drop 4).take ciphertextLen) with
        | none => (d, .error (invalidData "E2E media authentication failed"))
        | some plaintext =>
          let d := { d with
            pending := d.pending.drop (4 + ciphertextLen), written := d.written + plaintext.length }
          match checkedAdd d.index 1 with
          | none => (d, .error (invalidData "E2E media chunk index overflow"))
          | some index => pushLoop A bits fuel { d with index } (output ++ [plaintext])

def MediaDecryptor.push (A : Aead MediaKey) (bits : ℕ) (d : MediaDecryptor) (bytes : Bytes) :
    MediaDecryptor × Except IoError (List Bytes) :=
  let d := { d with pending := d.pending ++ bytes }
  if d.headerRead then d.pushLoop A bits d.pending.length []
  else if d.pending.length < mediaHeaderSize then (d, .ok [])
  else
    let header := d.pending.take mediaHeaderSize
    if headerSupported header then
      let d := { d with
        plaintextSize := ofBe ((header.drop 8).take 8)
        noncePrefix := blockOf 16 (header.drop 16)
        pending := d.pending.drop mediaHeaderSize
        headerRead := true }
      d.pushLoop A bits d.pending.length []
    else (d, .error (invalidData "unsupported E2E media version; update the application"))

def MediaDecryptor.finish (d : MediaDecryptor) : Except IoError ℕ :=
  if d.headerRead = false ∨ d.written ≠ d.plaintextSize ∨ d.pending ≠ [] then
    .error (invalidData "E2E media is truncated or has trailing bytes")
  else .ok d.written

def mediaNext (A : Aead MediaKey) (bits : ℕ) (d : MediaCursor) (p : Bytes) :
    Verdict MediaCursor Bytes IoError :=
  if d.headerRead = false then
    if p.length < mediaHeaderSize then .wait
    else if headerSupported (p.take mediaHeaderSize) then
      .take mediaHeaderSize { d with
        plaintextSize := ofBe (((p.take mediaHeaderSize).drop 8).take 8)
        noncePrefix := blockOf 16 ((p.take mediaHeaderSize).drop 16)
        headerRead := true } none
    else .fail 0 d (invalidData "unsupported E2E media version; update the application")
  else if d.plaintextSize ≤ d.written then .wait
  else if p.length < 4 then .wait
  else
    let ciphertextLen := ofBe (p.take 4)
    let expectedPlain := min ((d.plaintextSize - d.written) % 2 ^ bits) mediaChunkSize
    if ciphertextLen ≠ expectedPlain + mediaTagSize then
      .fail 0 d (invalidData "invalid E2E media chunk length")
    else if p.length < 4 + ciphertextLen then .wait
    else
      match A.decrypt d.key (mediaNonce d.noncePrefix d.index)
          (mediaChunkAad d.aadPrefix d.header d.index expectedPlain)
          ((p.drop 4).take ciphertextLen) with
      | none => .fail 0 d (invalidData "E2E media authentication failed")
      | some plaintext =>
        let d := { d with written := d.written + plaintext.length }
        match checkedAdd d.index 1 with
        | none => .fail (4 + ciphertextLen) d (invalidData "E2E media chunk index overflow")
        | some index => .take (4 + ciphertextLen) { d with index } (some plaintext)

variable (A : Aead MediaKey) (bits : ℕ)

def fromDrained (output : List Bytes) (r : Drained MediaCursor Bytes IoError) :
    MediaDecryptor × Except IoError (List Bytes) :=
  (⟨r.state, r.rest⟩, match r.error with
    | some e => .error e
    | none => .ok (output ++ r.items))

theorem mediaNext_productive : Productive (mediaNext A bits) where
  waits := by
    intro d
    by_cases hread : d.headerRead = false
    · simp [mediaNext, hread, mediaHeaderSize]
    · by_cases hdone : d.plaintextSize ≤ d.written <;> simp [mediaNext, hread, hdone]
  consumes := by
    intro d p n d' item h
    simp only [mediaNext] at h
    split_ifs at h
    · cases h
      decide
    · split at h
      · cases h
      · split at h
        · cases h
        · cases h
          omega

theorem pushLoop_eq_drain (fuel : ℕ) (d : MediaDecryptor) (hread : d.headerRead = true)
    (output : List Bytes) :
    d.pushLoop A bits fuel output =
      fromDrained output (drain (mediaNext A bits) fuel d.toMediaCursor d.pending) := by
  induction fuel generalizing d output with
  | zero => simp [MediaDecryptor.pushLoop, drain, fromDrained]
  | succ fuel ih =>
    simp only [MediaDecryptor.pushLoop, drain, mediaNext, hread, Bool.true_eq_false, ↓reduceIte]
    by_cases hdone : d.plaintextSize ≤ d.written
    · simp [hdone, fromDrained]
    by_cases hfour : d.pending.length < 4
    · simp [hdone, hfour, fromDrained]
    simp only [hdone, hfour, ↓reduceIte]
    by_cases hlen : ofBe (d.pending.take 4) ≠
        min ((d.plaintextSize - d.written) % 2 ^ bits) mediaChunkSize + mediaTagSize
    · simp [hlen, fromDrained]
    by_cases hmore : d.pending.length < 4 + ofBe (d.pending.take 4)
    · simp [hlen, hmore, fromDrained]
    simp only [hlen, hmore, ↓reduceIte]
    cases A.decrypt d.key (mediaNonce d.noncePrefix d.index)
        (mediaChunkAad d.aadPrefix d.header d.index
          (min ((d.plaintextSize - d.written) % 2 ^ bits) mediaChunkSize))
        ((d.pending.drop 4).take (ofBe (d.pending.take 4))) with
    | none => simp [fromDrained]
    | some plaintext =>
      cases checkedAdd d.index 1 with
      | none => simp [fromDrained]
      | some index =>
        dsimp only
        rw [ih]
        · simp [fromDrained]
        · rfl

theorem push_eq_drainAll (d : MediaDecryptor) (bytes : Bytes) :
    d.push A bits bytes =
      fromDrained [] (drainAll (mediaNext A bits) d.toMediaCursor (d.pending ++ bytes)) := by
  have hnext := mediaNext_productive A bits
  unfold MediaDecryptor.push
  generalize d.pending ++ bytes = p
  dsimp only
  cases hread : d.headerRead with
  | true => exact pushLoop_eq_drain A bits p.length ⟨d.toMediaCursor, p⟩ hread []
  | false =>
    by_cases hshort : p.length < mediaHeaderSize
    · rw [drainAll_wait hnext (by simp [mediaNext, hread, hshort])]
      simp [hshort, fromDrained]
    by_cases hheader : headerSupported (p.take mediaHeaderSize) = true
    · have htake : mediaNext A bits d.toMediaCursor p = .take mediaHeaderSize { d.toMediaCursor with
          plaintextSize := ofBe (((p.take mediaHeaderSize).drop 8).take 8)
          noncePrefix := blockOf 16 ((p.take mediaHeaderSize).drop 16)
          headerRead := true } none := by
        simp [mediaNext, hread, hshort, hheader]
      rw [drainAll_take hnext htake]
      simp only [hshort, hheader, Bool.false_eq_true, ↓reduceIte]
      rw [pushLoop_eq_drain A bits _ _ rfl]
      rfl
    · rw [drainAll_fail hnext (by simp only [mediaNext, hread, hshort, hheader, ↓reduceIte]; rfl)]
      simp [hshort, hheader, fromDrained]

theorem push_eq_feed (d : MediaDecryptor) (bytes : Bytes) :
    d.push A bits bytes =
      (⟨(feed (mediaNext A bits) (d.toMediaCursor, d.pending) bytes).1.1,
          (feed (mediaNext A bits) (d.toMediaCursor, d.pending) bytes).1.2⟩,
        (feed (mediaNext A bits) (d.toMediaCursor, d.pending) bytes).2) := by
  rw [push_eq_drainAll]
  simp only [fromDrained, feed, List.nil_append]
  cases (drainAll (mediaNext A bits) d.toMediaCursor (d.pending ++ bytes)).error <;> rfl

end Mst5Client.MediaContainer
