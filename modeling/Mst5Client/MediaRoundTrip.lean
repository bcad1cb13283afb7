import Mst5Client.MediaSteps

set_option autoImplicit false

/-!
# Media round trip

What an encryptor writes is an expected stream of the decryptor, so cutting it makes no difference.
-/
namespace Mst5Client.MediaRoundTrip
open ByteOrder AuthenticatedCipher IoResult StreamDecoder MachineRuns MediaContainer MediaSteps

def pieces : Bytes → List Bytes
  | [] => []
  | b :: bs => (b :: bs).take mediaChunkSize :: pieces ((b :: bs).drop mediaChunkSize)
termination_by bs => bs.length
decreasing_by simp [mediaChunkSize]

theorem pieces_ne_nil {bs : Bytes} (h : bs ≠ []) :
    pieces bs = bs.take mediaChunkSize :: pieces (bs.drop mediaChunkSize) := by
  cases bs with
  | nil => exact absurd rfl h
  | cons b bs => rw [pieces]

theorem pieces_induction {P : Bytes → Prop} (nil : P [])
    (piece : ∀ bs, bs ≠ [] → P (bs.drop mediaChunkSize) → P bs) (bs : Bytes) : P bs := by
  induction hn : bs.length using Nat.strong_induction_on generalizing bs with
  | _ n ih =>
    by_cases hbs : bs = []
    · rw [hbs]
      exact nil
    · have hpos := List.length_pos_iff.mpr hbs
      refine piece bs hbs (ih (bs.drop mediaChunkSize).length ?_ _ rfl)
      rw [List.length_drop]
      simp only [mediaChunkSize]
      omega

theorem pieces_flatten (bs : Bytes) : (pieces bs).flatten = bs := by
  induction bs using pieces_induction with
  | nil => simp [pieces]
  | piece bs hbs ih => rw [pieces_ne_nil hbs, List.flatten_cons, ih, List.take_append_drop]

theorem pieces_length (bs : Bytes) : (pieces bs).length = divCeil bs.length mediaChunkSize := by
  induction bs using pieces_induction with
  | nil => simp [pieces, divCeil]
  | piece bs hbs ih =>
    have hpos := List.length_pos_iff.mpr hbs
    have hchunk : mediaChunkSize = 65536 := rfl
    rw [pieces_ne_nil hbs, List.length_cons, ih, List.length_drop, hchunk]
    unfold divCeil
    split_ifs <;> omega

theorem fits_first {e : MediaEncryptor} {bs : Bytes} (hbs : bs ≠ [])
    (hleft : e.written + bs.length = e.plaintextSize) (hsize : e.plaintextSize < 2 ^ 64)
    (hindex : e.index ≤ e.written) :
    Fits e (bs.take mediaChunkSize) ∧
      (advanceBy e (bs.take mediaChunkSize)).written + (bs.drop mediaChunkSize).length =
        e.plaintextSize := by
  have hpos := List.length_pos_iff.mpr hbs
  have hlen : (bs.take mediaChunkSize).length = min mediaChunkSize bs.length := List.length_take
  have hdrop : (bs.drop mediaChunkSize).length = bs.length - mediaChunkSize := List.length_drop
  have hchunk : mediaChunkSize = 65536 := rfl
  refine ⟨⟨?_, ?_, ?_, ?_, hsize, hindex⟩, ?_⟩
  · rw [← List.length_pos_iff]
    omega
  · omega
  · omega
  · omega
  · simp only [advanceBy]
    omega

theorem chunks_follow {A : Aead MediaKey} (hA : Correct A) (bs : Bytes) {e : MediaEncryptor}
    (hleft : e.written + bs.length = e.plaintextSize) (hsize : e.plaintextSize < 2 ^ 64)
    (hindex : e.index ≤ e.written) :
    ∃ (chunks : List Bytes) (parts : List (Part MediaCursor Bytes)),
      (trace (MediaEncryptor.sealChunk A) e (pieces bs)).map Prod.snd = chunks.map Except.ok ∧
      (final (MediaEncryptor.sealChunk A) e (pieces bs)).finish = .ok () ∧
      chunks.flatten.length = bs.length + (4 + mediaTagSize) * (pieces bs).length ∧
      bytesOf parts = chunks.flatten ∧ itemsOf parts = pieces bs ∧
      Follows (mediaNext A 64) (cursorOf e) parts ∧
      lastState (cursorOf e) parts = cursorOf (final (MediaEncryptor.sealChunk A) e (pieces bs)) := by
  induction bs using pieces_induction generalizing e with
  | nil =>
    have hdone : e.written = e.plaintextSize := hleft
    rw [pieces]
    exact ⟨[], [], rfl, by simp [MediaEncryptor.finish, hdone], rfl, rfl, rfl, trivial, rfl⟩
  | piece bs hbs ih =>
    obtain ⟨hfits, hnext⟩ := fits_first hbs hleft hsize hindex
    obtain ⟨c, hc, hclen⟩ := hfits.encrypts hA
    obtain ⟨hdone, hwait⟩ := hfits.decrypts hclen (hA.decrypts _ _ _ _ _ hc)
    obtain ⟨chunks, parts, hok, hfinish, hlen, hbytes, hitems, hfollow, hlast⟩ :=
      ih (e := advanceBy e (bs.take mediaChunkSize)) hnext hsize hfits.advance
    have hseal := hfits.sealChunk hc
    rw [pieces_ne_nil hbs]
    refine ⟨(beBytes 4 c.length ++ c) :: chunks,
      ⟨beBytes 4 c.length ++ c, cursorOf (advanceBy e (bs.take mediaChunkSize)),
        some (bs.take mediaChunkSize)⟩ :: parts, ?_, ?_, ?_, ?_, ?_, ?_, ?_⟩
    · simp only [trace, List.map_cons, hseal, hok]
    · rw [final_cons, hseal]
      exact hfinish
    · rw [List.flatten_cons, List.length_append, hlen, List.length_append, beBytes_length, hclen,
        List.length_cons]
      have hsplit : (bs.take mediaChunkSize).length + (bs.drop mediaChunkSize).length = bs.length := by
        rw [← List.length_append, List.take_append_drop]
      simp only [mediaTagSize, tagLen]
      omega
    · rw [List.flatten_cons, ← hbytes]
      rfl
    · rw [← hitems]
      rfl
    · refine ⟨?_, hdone, hwait, hfollow⟩
      rw [← List.length_pos_iff, List.length_append, beBytes_length]
      omega
    · rw [final_cons, hseal]
      exact hlast

theorem encryptedMediaSize_eq {n : ℕ} (h : n < 2 ^ 63) :
    encryptedMediaSize n =
      .ok (n + (divCeil n mediaChunkSize * (4 + mediaTagSize) + mediaHeaderSize)) := by
  have hchunks : divCeil n mediaChunkSize ≤ n / 65536 + 1 := by
    have hchunk : mediaChunkSize = 65536 := rfl
    rw [hchunk]
    unfold divCeil
    split_ifs <;> omega
  have htag : mediaTagSize = 16 := rfl
  have hheader : mediaHeaderSize = 32 := rfl
  simp only [encryptedMediaSize]
  rw [htag, checkedMul_of_lt (by omega), Option.bind_some, checkedAdd_of_lt (by omega)]
  dsimp only
  rw [checkedAdd_of_lt (by omega)]

section Containers
variable {A : Aead MediaKey} (hA : Correct A) (key : MediaKey) (aadPrefix : Bytes)
  (random : Block 16) {P : Bytes}

include hA in
theorem sealed_reads_back (hP : P.length < 2 ^ 64) : ∃ chunks : List Bytes,
    (trace (MediaEncryptor.sealChunk A) (encryptor key aadPrefix random P.length) (pieces P)).map
      Prod.snd = chunks.map Except.ok ∧
    (final (MediaEncryptor.sealChunk A) (encryptor key aadPrefix random P.length)
      (pieces P)).finish = .ok () ∧
    chunks.flatten.length = P.length + (4 + mediaTagSize) * (pieces P).length ∧
    ∀ cuts : List Bytes, cuts.flatten = (encryptor key aadPrefix random P.length).header ++
      chunks.flatten → ∃ outputs : List (List Bytes),
        (trace (MediaDecryptor.push A 64) (decryptor key aadPrefix) cuts).map Prod.snd =
        outputs.map Except.ok ∧ outputs.flatten.flatten = P ∧
        (final (MediaDecryptor.push A 64) (decryptor key aadPrefix) cuts).finish = .ok P.length := by
  let e := encryptor key aadPrefix random P.length
  have he : Sound e := ⟨le_rfl, Nat.zero_le _, hP⟩
  obtain ⟨chunks, parts, hok, hfinish, hlen, hbytes, hitems, hfollow, hlast⟩ :=
    chunks_follow hA P (e := e) (Nat.zero_add _) hP le_rfl
  refine ⟨chunks, hok, hfinish, hlen, fun cuts hcuts => ?_⟩
  have hstream : cuts.flatten = bytesOf (⟨e.header, cursorOf e, none⟩ :: parts) := by
    rw [hcuts, ← hbytes]
    rfl
  obtain ⟨outputs, hpushed, hout, hend⟩ :=
    push_fragments (d := decryptor key aadPrefix) rfl
      (follows_header A 64 key aadPrefix random hP hfollow) hstream
  refine ⟨outputs, hpushed, ?_, ?_⟩
  · rw [hout]
    change (itemsOf parts).flatten = P
    rw [hitems, pieces_flatten]
  · rw [hend]
    change (MediaDecryptor.mk (lastState (cursorOf e) parts) []).finish = .ok P.length
    rw [hlast, finish_cursorOf hfinish, (final_accepted A he (pieces P)).2]
    rfl

end Containers

/-- Whatever the plaintext, sealing succeeds, the container has the announced size, and any
way of cutting it gives the plaintext back. -/
theorem media_round_trip {A : Aead MediaKey} (hA : Correct A) (key aadPrefix P : Bytes)
    (hkey : key.length = 32) (hP : P.length < 2 ^ 63) (random : Block 16) :
    ∃ (e : MediaEncryptor) (d : MediaDecryptor) (chunks : List Bytes),
      MediaEncryptor.withKey (.ok random) key aadPrefix P.length = .ok e ∧
      MediaDecryptor.withKey key aadPrefix = .ok d ∧
      (trace (MediaEncryptor.sealChunk A) e (pieces P)).map Prod.snd = chunks.map Except.ok ∧
      (final (MediaEncryptor.sealChunk A) e (pieces P)).finish = .ok () ∧
      encryptedMediaSize P.length = .ok (e.header ++ chunks.flatten).length ∧
      ∀ cuts : List Bytes, cuts.flatten = e.header ++ chunks.flatten → ∃ outputs : List (List Bytes),
        (trace (MediaDecryptor.push A 64) d cuts).map Prod.snd = outputs.map Except.ok ∧
        outputs.flatten.flatten = P ∧
        (final (MediaDecryptor.push A 64) d cuts).finish = .ok P.length := by
  obtain ⟨chunks, hok, hfinish, hlen, hback⟩ :=
    sealed_reads_back hA ⟨key, hkey⟩ aadPrefix random (P := P) (by omega)
  refine ⟨_, _, chunks, encryptor_eq ⟨key, hkey⟩ aadPrefix random P.length,
    decryptor_eq ⟨key, hkey⟩ aadPrefix, hok, hfinish, ?_, hback⟩
  rw [encryptedMediaSize_eq hP, List.length_append, hlen, pieces_length, MediaEncryptor.header,
    mediaHeader_length, Nat.mul_comm (4 + mediaTagSize)]
  congr 1
  omega

def sampleCipher : Aead MediaKey := checksumAead List.Vector.toList

def sampleMediaKey : Bytes := List.replicate 32 7

theorem sampleMediaKey_length : sampleMediaKey.length = 32 := rfl

def sampleNoncePrefix : Block 16 := ⟨List.replicate 16 3, rfl⟩

theorem media_round_trip_sample :
    ∃ (e : MediaEncryptor) (d : MediaDecryptor) (chunks : List Bytes),
      MediaEncryptor.withKey (.ok sampleNoncePrefix) sampleMediaKey [1, 2] 3 = .ok e ∧
      MediaDecryptor.withKey sampleMediaKey [1, 2] = .ok d ∧
      (trace (MediaEncryptor.sealChunk sampleCipher) e (pieces [4, 5, 6])).map Prod.snd =
        chunks.map Except.ok ∧
      (final (MediaEncryptor.sealChunk sampleCipher) e (pieces [4, 5, 6])).finish = .ok () ∧
      encryptedMediaSize 3 = .ok (e.header ++ chunks.flatten).length ∧
      ∀ cuts : List Bytes, cuts.flatten = e.header ++ chunks.flatten → ∃ outputs : List (List Bytes),
        (trace (MediaDecryptor.push sampleCipher 64) d cuts).map Prod.snd = outputs.map Except.ok ∧
        outputs.flatten.flatten = [4, 5, 6] ∧
        (final (MediaDecryptor.push sampleCipher 64) d cuts).finish = .ok 3 :=
  media_round_trip (checksumAead_correct _) sampleMediaKey [1, 2] [4, 5, 6] rfl (by decide)
    sampleNoncePrefix

end Mst5Client.MediaRoundTrip
