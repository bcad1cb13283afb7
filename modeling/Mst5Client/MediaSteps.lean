import Mst5Client.MediaContainer

set_option autoImplicit false

/-!
# Steps of the media encryptor and decryptor

A decryptor that has consumed what an encryptor wrote stands where the encryptor stands.
-/
namespace Mst5Client.MediaSteps
open ByteOrder AuthenticatedCipher IoResult StreamDecoder MachineRuns MediaContainer

def cursorOf (e : MediaEncryptor) : MediaCursor :=
  ⟨e.key, e.aadPrefix, e.noncePrefix, e.plaintextSize, e.written, e.index, true⟩

def advanceBy (e : MediaEncryptor) (plaintext : Bytes) : MediaEncryptor :=
  { e with written := e.written + plaintext.length, index := e.index + 1 }

section Starts
variable (key : MediaKey) (aadPrefix : Bytes) (random : Block 16)

def encryptor (size : ℕ) : MediaEncryptor := ⟨key, aadPrefix, random, size, 0, 0⟩

def decryptor : MediaDecryptor := ⟨⟨key, aadPrefix, blockOf 16 [], 0, 0, 0, false⟩, []⟩

theorem encryptor_eq (size : ℕ) :
    MediaEncryptor.withKey (.ok random) key.toList aadPrefix size =
      .ok (encryptor key aadPrefix random size) := by
  simp only [MediaEncryptor.withKey, mediaCipher, List.Vector.toList_length, ↓reduceDIte]
  rfl

theorem decryptor_eq : MediaDecryptor.withKey key.toList aadPrefix = .ok (decryptor key aadPrefix) := by
  simp only [MediaDecryptor.withKey, mediaCipher, List.Vector.toList_length, ↓reduceDIte]
  rfl

end Starts

/-- The call of the cipher for the next chunk. -/
def encrypted (A : Aead MediaKey) (e : MediaEncryptor) (plaintext : Bytes) : Option Bytes :=
  A.encrypt e.key (mediaNonce e.noncePrefix e.index)
    (mediaChunkAad e.aadPrefix e.header e.index plaintext.length)
    plaintext

def decrypted (A : Aead MediaKey) (d : MediaCursor) (expected : ℕ) (c : Bytes) : Option Bytes :=
  A.decrypt d.key (mediaNonce d.noncePrefix d.index)
    (mediaChunkAad d.aadPrefix d.header d.index expected) c

structure Fits (e : MediaEncryptor) (plaintext : Bytes) : Prop where
  nonempty : plaintext ≠ []
  small : plaintext.length ≤ mediaChunkSize
  within : e.written + plaintext.length ≤ e.plaintextSize
  full : e.written + plaintext.length ≠ e.plaintextSize → plaintext.length = mediaChunkSize
  size : e.plaintextSize < 2 ^ 64
  index : e.index ≤ e.written

section Step
variable {A : Aead MediaKey} (hA : Correct A) {e : MediaEncryptor} {plaintext : Bytes}

theorem Fits.advance (h : Fits e plaintext) :
    (advanceBy e plaintext).index ≤ (advanceBy e plaintext).written := by
  have hpos := List.length_pos_iff.mpr h.nonempty
  have hindex := h.index
  simp only [advanceBy]
  omega

theorem Fits.expected (h : Fits e plaintext) :
    min ((e.plaintextSize - e.written) % 2 ^ 64) mediaChunkSize = plaintext.length := by
  have hsize := h.size
  have hsmall := h.small
  have hwithin := h.within
  rw [Nat.mod_eq_of_lt (by omega)]
  by_cases hlast : e.written + plaintext.length = e.plaintextSize
  · rw [Nat.min_def]
    split_ifs <;> omega
  · have hfull := h.full hlast
    rw [Nat.min_def]
    split_ifs <;> omega

include hA in
theorem Fits.encrypts (h : Fits e plaintext) :
    ∃ c, encrypted A e plaintext = some c ∧
      c.length = plaintext.length + tagLen := by
  have hsmall : plaintext.length < messageLimit := by
    have hle := h.small
    simp only [mediaChunkSize] at hle
    simp only [messageLimit]
    omega
  obtain ⟨c, hc⟩ := hA.encrypts e.key (mediaNonce e.noncePrefix e.index)
    (mediaChunkAad e.aadPrefix e.header e.index plaintext.length) plaintext hsmall
  exact ⟨c, hc, hA.length _ _ _ _ _ hc⟩

/-- How a call that passes the checks ends, by the answer of the cipher. -/
def answered (e : MediaEncryptor) (plaintext : Bytes) :
    Option Bytes → MediaEncryptor × Except IoError Bytes
  | none => (e, .error (invalidData "E2E media encryption failed"))
  | some c => (advanceBy e plaintext, .ok (beBytes 4 c.length ++ c))

theorem Fits.sealChunk_eq (h : Fits e plaintext) :
    e.sealChunk A plaintext = answered e plaintext (encrypted A e plaintext) := by
  have hsize := h.size
  have hwithin := h.within
  have hadvance := h.advance
  simp only [advanceBy] at hadvance
  have hlen : ¬ (plaintext = [] ∨ mediaChunkSize < plaintext.length) := by
    rw [not_or, not_lt]
    exact ⟨h.nonempty, h.small⟩
  have hfits : ¬ (e.plaintextSize < e.written + plaintext.length ∨
      (e.written + plaintext.length ≠ e.plaintextSize ∧ plaintext.length ≠ mediaChunkSize)) := by
    rw [not_or, not_lt, not_and, not_not]
    exact ⟨hwithin, h.full⟩
  have hnext : checkedAdd e.written plaintext.length = some (e.written + plaintext.length) :=
    checkedAdd_of_lt (by omega)
  have hcount : checkedAdd e.index 1 = some (e.index + 1) := checkedAdd_of_lt (by omega)
  rw [MediaEncryptor.sealChunk, ← encrypted]
  cases encrypted A e plaintext with
  | none => simp only [hlen, hnext, hfits, ↓reduceIte, answered]
  | some c => simp only [hlen, hnext, hfits, hcount, ↓reduceIte, answered, advanceBy]

theorem Fits.sealChunk (h : Fits e plaintext) {c : Bytes} (hc : encrypted A e plaintext = some c) :
    e.sealChunk A plaintext = (advanceBy e plaintext, .ok (beBytes 4 c.length ++ c)) := by
  rw [h.sealChunk_eq, hc, answered]

theorem Fits.decrypts (h : Fits e plaintext) {c : Bytes}
    (hlen : c.length = plaintext.length + tagLen)
    (hdec : decrypted A (cursorOf e) plaintext.length c = some plaintext) :
    (∀ q, mediaNext A 64 (cursorOf e) (beBytes 4 c.length ++ c ++ q) =
      .take (beBytes 4 c.length ++ c).length (cursorOf (advanceBy e plaintext)) (some plaintext)) ∧
    ∀ p, p <+: beBytes 4 c.length ++ c → p ≠ beBytes 4 c.length ++ c →
      mediaNext A 64 (cursorOf e) p = .wait := by
  have hsize := h.size
  have hwithin := h.within
  have hindex := h.index
  have hpos := List.length_pos_iff.mpr h.nonempty
  have hsmall : plaintext.length ≤ 65536 := h.small
  have hclen : c.length = plaintext.length + 16 := hlen
  have hfour : (beBytes 4 c.length).length = 4 := beBytes_length 4 _
  have hmore : ¬ e.plaintextSize ≤ e.written := by omega
  have hcount : checkedAdd e.index 1 = some (e.index + 1) := checkedAdd_of_lt (by omega)
  have hexpected : ¬ c.length ≠ min ((e.plaintextSize - e.written) % 2 ^ 64) mediaChunkSize +
      mediaTagSize := by
    rw [h.expected, not_not, hclen]
    rfl
  have hfield : ∀ q, ofBe ((beBytes 4 c.length ++ q).take 4) = c.length := by
    intro q
    rw [List.take_left' hfour, ofBe_beBytes_of_lt (by norm_num; omega)]
  constructor
  · intro q
    have hlen : (beBytes 4 c.length ++ c ++ q).length = 4 + c.length + q.length := by
      simp only [List.length_append, hfour]
    have henough : ¬ 4 + c.length + q.length < 4 := by omega
    have hcomplete : ¬ 4 + c.length + q.length < 4 + c.length := by omega
    have hslice : ((beBytes 4 c.length ++ c ++ q).drop 4).take c.length = c := by
      rw [List.append_assoc, List.drop_left' hfour, List.take_left]
    simp only [decrypted, cursorOf, ← h.expected] at hdec
    simp only [mediaNext, cursorOf, Bool.true_eq_false, ↓reduceIte, hmore, hlen, henough,
      List.length_append, hfour]
    rw [List.append_assoc, hfield, if_neg hexpected, if_neg hcomplete, ← List.append_assoc, hslice]
    simp only [hdec, hcount, advanceBy]
  · intro p hp hne
    have hlt : p.length < (beBytes 4 c.length ++ c).length := by
      refine lt_of_le_of_ne hp.length_le fun hlen => hne (hp.eq_of_length hlen)
    rw [List.length_append, hfour] at hlt
    by_cases hshort : p.length < 4
    · simp [mediaNext, cursorOf, hmore, hshort]
    · obtain ⟨q, rfl⟩ : beBytes 4 c.length <+: p :=
        List.prefix_of_prefix_length_le (List.prefix_append _ _) hp (by omega)
      simp only [mediaNext, cursorOf, Bool.true_eq_false, ↓reduceIte, hmore, hshort, hfield]
      rw [if_neg hexpected, if_pos hlt]

end Step

theorem header_ne_nil (e : MediaEncryptor) : e.header ≠ [] := by
  rw [← List.length_pos_iff, MediaEncryptor.header, mediaHeader_length]
  decide

theorem header_follows (A : Aead MediaKey) (bits : ℕ) {e : MediaEncryptor} {d : MediaCursor}
    (hd : { d with plaintextSize := e.plaintextSize, noncePrefix := e.noncePrefix,
                   headerRead := true } = cursorOf e) (hread : d.headerRead = false)
    (hsize : e.plaintextSize < 2 ^ 64) :
    (∀ q, mediaNext A bits d (e.header ++ q) = .take e.header.length (cursorOf e) none) ∧
      ∀ p, p <+: e.header → p ≠ e.header → mediaNext A bits d p = .wait := by
  have hlen : e.header.length = mediaHeaderSize := mediaHeader_length _ _
  constructor
  · intro q
    have henough : ¬ (e.header ++ q).length < mediaHeaderSize := by
      rw [List.length_append, hlen]
      omega
    have hnumber : ofBe (((e.header).drop 8).take 8) = e.plaintextSize := by
      rw [MediaEncryptor.header, mediaHeader_size, ofBe_beBytes_of_lt (by norm_num; omega)]
    have hnonce : blockOf 16 (e.header.drop 16) = e.noncePrefix := by
      rw [MediaEncryptor.header, mediaHeader_nonce, blockOf_toList]
    have hsupported : headerSupported e.header = true := mediaHeader_supported _ _
    simp only [mediaNext, hread, henough, ↓reduceIte, List.take_left' hlen, hsupported, hnumber, hnonce,
      hd, hlen]
  · intro p hp hne
    have hshort : p.length < mediaHeaderSize := by
      rw [← hlen]
      exact lt_of_le_of_ne hp.length_le fun h => hne (hp.eq_of_length h)
    simp only [mediaNext, hread, hshort, ↓reduceIte]

theorem follows_header (A : Aead MediaKey) (bits : ℕ) (key : MediaKey) (aadPrefix : Bytes)
    (random : Block 16) {size : ℕ} (hsize : size < 2 ^ 64) {parts : List (Part MediaCursor Bytes)}
    (h : Follows (mediaNext A bits) (cursorOf (encryptor key aadPrefix random size)) parts) :
    Follows (mediaNext A bits) (decryptor key aadPrefix).toMediaCursor
      (⟨(encryptor key aadPrefix random size).header,
        cursorOf (encryptor key aadPrefix random size), none⟩ :: parts) := by
  obtain ⟨hheader, hwait⟩ := header_follows A bits (e := encryptor key aadPrefix random size)
    (d := (decryptor key aadPrefix).toMediaCursor) rfl rfl hsize
  exact ⟨header_ne_nil _, hheader, hwait, h⟩

structure Sound (e : MediaEncryptor) : Prop where
  index : e.index ≤ e.written
  within : e.written ≤ e.plaintextSize
  size : e.plaintextSize < 2 ^ 64

theorem Fits.sound {e : MediaEncryptor} {plaintext : Bytes} (h : Fits e plaintext) :
    Sound (advanceBy e plaintext) := ⟨h.advance, h.within, h.size⟩

theorem sealChunk_rejects (A : Aead MediaKey) {e : MediaEncryptor} (he : Sound e)
    {plaintext : Bytes} (h : ¬ Fits e plaintext) :
    ∃ error, e.sealChunk A plaintext = (e, .error error) ∧
      error ≠ invalidData "E2E media chunk index overflow" := by
  unfold MediaEncryptor.sealChunk
  split_ifs with hlen
  · exact ⟨_, rfl, by decide⟩
  · rw [not_or, not_lt] at hlen
    cases hnext : checkedAdd e.written plaintext.length with
    | none => exact ⟨_, rfl, by decide⟩
    | some next =>
      obtain rfl : e.written + plaintext.length = next := checkedAdd_eq_some hnext
      dsimp only
      split_ifs with hbad
      · exact ⟨_, rfl, by decide⟩
      · rw [not_or, not_lt, not_and, not_not] at hbad
        exact absurd ⟨hlen.1, hlen.2, hbad.1, hbad.2, he.size, he.index⟩ h

theorem sealChunk_cases (A : Aead MediaKey) {e : MediaEncryptor} (he : Sound e) (plaintext : Bytes) :
    (∃ error, e.sealChunk A plaintext = (e, .error error)) ∨
      Fits e plaintext ∧ ∃ c, encrypted A e plaintext = some c ∧
        e.sealChunk A plaintext = (advanceBy e plaintext, .ok (beBytes 4 c.length ++ c)) := by
  by_cases hfits : Fits e plaintext
  · cases hc : encrypted A e plaintext with
    | none => exact .inl ⟨_, by rw [hfits.sealChunk_eq, hc, answered]⟩
    | some c => exact .inr ⟨hfits, c, rfl, hfits.sealChunk hc⟩
  · obtain ⟨error, hseal, -⟩ := sealChunk_rejects A he hfits
    exact .inl ⟨error, hseal⟩

def accepted (A : Aead MediaKey) : MediaEncryptor → List Bytes → List Bytes
  | _, [] => []
  | e, plaintext :: inputs =>
    match e.sealChunk A plaintext with
    | (e', .ok _) => plaintext :: accepted A e' inputs
    | (e', .error _) => accepted A e' inputs

theorem final_accepted (A : Aead MediaKey) {e : MediaEncryptor} (he : Sound e) (inputs : List Bytes) :
    Sound (final (MediaEncryptor.sealChunk A) e inputs) ∧
      final (MediaEncryptor.sealChunk A) e inputs =
        { e with
          written := e.written + (accepted A e inputs).flatten.length
          index := e.index + (accepted A e inputs).length } := by
  induction inputs generalizing e with
  | nil => exact ⟨he, rfl⟩
  | cons plaintext inputs ih =>
    obtain ⟨error, hseal⟩ | ⟨hfits, c, -, hseal⟩ := sealChunk_cases A he plaintext
    · rw [final_cons, hseal, accepted, hseal]
      exact ih he
    · obtain ⟨hsound, hfinal⟩ := ih hfits.sound
      rw [final_cons, hseal, accepted, hseal]
      refine ⟨hsound, hfinal.trans ?_⟩
      simp only [advanceBy, List.flatten_cons, List.length_append, List.length_cons]
      congr 1 <;> omega

theorem finish_cursorOf {e : MediaEncryptor} (h : e.finish = .ok ()) :
    (MediaDecryptor.mk (cursorOf e) []).finish = .ok e.plaintextSize := by
  simp only [MediaEncryptor.finish] at h
  split_ifs at h with hdone
  simp [MediaDecryptor.finish, cursorOf, hdone]

variable {A : Aead MediaKey} {bits : ℕ} {d d' : MediaCursor} {p : Bytes} {n : ℕ}

theorem mediaNext_take {item : Option Bytes} (h : mediaNext A bits d p = .take n d' item) :
    (d.headerRead = false ∧ mediaHeaderSize ≤ p.length ∧ n = mediaHeaderSize ∧
        headerSupported (p.take mediaHeaderSize) = true ∧ item = none ∧
        d' = { d with
          plaintextSize := ofBe (((p.take mediaHeaderSize).drop 8).take 8)
          noncePrefix := blockOf 16 ((p.take mediaHeaderSize).drop 16)
          headerRead := true }) ∨
      ∃ expected c m, d.headerRead = true ∧
        decrypted A d expected c = some m ∧ item = some m ∧
        d' = { d with written := d.written + m.length, index := d.index + 1 } := by
  unfold mediaNext at h
  dsimp only at h
  split_ifs at h with hread hshort hsupported
  · cases h
    exact .inl ⟨hread, not_lt.mp hshort, rfl, hsupported, rfl, rfl⟩
  · rw [Bool.not_eq_false] at hread
    split at h
    · cases h
    · rename_i m hdec
      split at h
      · cases h
      · rename_i index hcount
        cases h
        refine .inr ⟨_, _, m, hread, hdec, rfl, ?_⟩
        rw [← checkedAdd_eq_some hcount]

theorem mediaNext_fail {error : IoError} (h : mediaNext A bits d p = .fail n d' error) :
    (n = 0 ∧ d' = d ∧ ∀ q, mediaNext A bits d (p ++ q) = .fail 0 d error) ∨
      ∃ expected c m, decrypted A d expected c = some m ∧ 2 ^ 64 ≤ d.index + 1 := by
  have hmono : ∀ q, p.length ≤ (p ++ q).length := fun q => by simp
  have hkeep : ∀ k q, k ≤ p.length → (p ++ q).take k = p.take k :=
    fun k q => List.take_append_of_le_length
  unfold mediaNext at h
  dsimp only at h
  split_ifs at h with hread hshort hsupported hdone hfour hlen hmore
  -- an unsupported header, a wrong length, a chunk that is not authentic, or the counter
  · cases h
    refine .inl ⟨rfl, rfl, fun q => ?_⟩
    have hlong := hmono q
    rw [mediaNext, if_pos hread, if_neg (by omega), hkeep _ q (by omega), if_neg hsupported]
  · cases h
    refine .inl ⟨rfl, rfl, fun q => ?_⟩
    have hlong := hmono q
    rw [mediaNext, if_neg hread, if_neg hdone, if_neg (by omega), hkeep _ q (by omega)]
    exact if_pos hlen
  · split at h
    · rename_i hdec
      cases h
      refine .inl ⟨rfl, rfl, fun q => ?_⟩
      have hlong := hmono q
      rw [mediaNext, if_neg hread, if_neg hdone, if_neg (by omega), hkeep _ q (by omega)]
      dsimp only
      have hslice : ((p ++ q).drop 4).take (ofBe (p.take 4)) = (p.drop 4).take (ofBe (p.take 4)) := by
        rw [List.drop_append_of_le_length (by omega), List.take_append_of_le_length]
        rw [List.length_drop]
        omega
      rw [if_neg hlen, if_neg (by omega), hslice, hdec]
    · rename_i m hdec
      split at h
      · rename_i hcount
        refine .inr ⟨_, _, m, hdec, ?_⟩
        by_contra hlt
        rw [checkedAdd_of_lt (not_le.mp hlt)] at hcount
        cases hcount
      · cases h

theorem push_fragments {A : Aead MediaKey} {bits : ℕ} {d : MediaDecryptor}
    (hpending : d.pending = []) {parts : List (Part MediaCursor Bytes)}
    (h : Follows (mediaNext A bits) d.toMediaCursor parts) {cuts : List Bytes}
    (hcuts : cuts.flatten = bytesOf parts) :
    ∃ outputs : List (List Bytes),
      (trace (MediaDecryptor.push A bits) d cuts).map Prod.snd = outputs.map Except.ok ∧
      outputs.flatten = itemsOf parts ∧
      final (MediaDecryptor.push A bits) d cuts = ⟨lastState d.toMediaCursor parts, []⟩ := by
  have hnext := mediaNext_productive A bits
  obtain ⟨outputs, hok, hitems, hfinal⟩ :=
    feed_fragments hnext h (hnext.waits d.toMediaCursor) (by rw [List.nil_append, hcuts])
  have hstep : ∀ s bytes, True → True ∧ MediaDecryptor.push A bits ⟨s.1, s.2⟩ bytes =
      (⟨(feed (mediaNext A bits) s bytes).1.1, (feed (mediaNext A bits) s bytes).1.2⟩,
        (feed (mediaNext A bits) s bytes).2) := by
    intro s bytes _
    exact ⟨trivial, push_eq_feed A bits ⟨s.1, s.2⟩ bytes⟩
  obtain ⟨htrace, hend, -⟩ :=
    trace_simulation (fun s : MediaCursor × Bytes => MediaDecryptor.mk s.1 s.2)
    (fun _ => True) hstep (s := (d.toMediaCursor, [])) trivial cuts
  have hd : MediaDecryptor.mk d.toMediaCursor [] = d := by rw [← hpending]
  rw [hfinal, hd] at hend
  rw [hd] at htrace
  refine ⟨outputs, ?_, hitems, hend.symm⟩
  rw [← htrace, ← hok, List.map_map]
  rfl

end Mst5Client.MediaSteps
