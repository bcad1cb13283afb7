import Mst5Client.MediaRoundTrip

set_option autoImplicit false

/-!
# Media decryption and the width of `usize`

The decryptor narrows what remains to `usize` before it takes the minimum with the chunk size. Below
4 GiB that loses nothing; from 4 GiB on every stream comes to a chunk whose expected length is too
small on a 32-bit host, and is refused there.
-/
namespace Mst5Client.MediaWidths
open ByteOrder AuthenticatedCipher IoResult StreamDecoder MachineRuns MediaContainer MediaSteps
  MediaRoundTrip

def expectedPlain (bits : ℕ) (d : MediaCursor) : ℕ :=
  min ((d.plaintextSize - d.written) % 2 ^ bits) mediaChunkSize

section Narrow
variable (A : Aead MediaKey)

theorem expectedPlain_of_small {d : MediaCursor} (h : d.plaintextSize < 2 ^ 32) :
    expectedPlain 32 d = expectedPlain 64 d := by
  have hnarrow : (d.plaintextSize - d.written) % 2 ^ 32 = d.plaintextSize - d.written :=
    Nat.mod_eq_of_lt (by omega)
  have hwide : (d.plaintextSize - d.written) % 2 ^ 64 = d.plaintextSize - d.written :=
    Nat.mod_eq_of_lt (by omega)
  rw [expectedPlain, expectedPlain, hnarrow, hwide]

theorem mediaNext_width {d : MediaCursor} (h : expectedPlain 32 d = expectedPlain 64 d) (p : Bytes) :
    mediaNext A 32 d p = mediaNext A 64 d p := by
  unfold expectedPlain at h
  simp only [mediaNext, h]

theorem pushLoop_width (fuel : ℕ) (d : MediaDecryptor) (h : d.plaintextSize < 2 ^ 32)
    (output : List Bytes) : d.pushLoop A 32 fuel output = d.pushLoop A 64 fuel output := by
  induction fuel generalizing d output with
  | zero => rfl
  | succ fuel ih =>
    have hexpected := expectedPlain_of_small (d := d.toMediaCursor) h
    unfold expectedPlain at hexpected
    simp only [MediaDecryptor.pushLoop, hexpected]
    split_ifs
    · rfl
    · rfl
    · rfl
    · rfl
    · split
      · rfl
      · split
        · rfl
        · refine ih _ ?_ _
          exact h

theorem pushLoop_keeps (bits fuel : ℕ) (d : MediaDecryptor) (output : List Bytes) :
    (d.pushLoop A bits fuel output).1.headerRead = d.headerRead ∧
      (d.pushLoop A bits fuel output).1.plaintextSize = d.plaintextSize := by
  induction fuel generalizing d output with
  | zero => exact ⟨rfl, rfl⟩
  | succ fuel ih =>
    simp only [MediaDecryptor.pushLoop]
    split_ifs
    · exact ⟨rfl, rfl⟩
    · exact ⟨rfl, rfl⟩
    · exact ⟨rfl, rfl⟩
    · exact ⟨rfl, rfl⟩
    · split
      · exact ⟨rfl, rfl⟩
      · split
        · exact ⟨rfl, rfl⟩
        · exact ih _ _

def Small (e : MediaEncryptor) (d : MediaDecryptor) (future : Bytes) : Prop :=
  d.headerRead = true ∧ d.plaintextSize < 2 ^ 32 ∨
    d.headerRead = false ∧ ∃ chunks, d.pending ++ future = e.header ++ chunks

theorem push_width {e : MediaEncryptor} (he : e.plaintextSize < 2 ^ 32) {d : MediaDecryptor}
    {bytes future : Bytes} (h : Small e d (bytes ++ future)) :
    d.push A 32 bytes = d.push A 64 bytes ∧ Small e (d.push A 64 bytes).1 future := by
  rcases h with ⟨hread, hsmall⟩ | ⟨hread, chunks, hstream⟩
  · have hkeeps := pushLoop_keeps A 64 (d.pending ++ bytes).length
      { d with pending := d.pending ++ bytes } []
    simp only [MediaDecryptor.push, hread, ↓reduceIte]
    refine ⟨?_, .inl ⟨hkeeps.1.trans hread, ?_⟩⟩
    · refine pushLoop_width A _ _ ?_ []
      exact hsmall
    · rw [hkeeps.2]
      exact hsmall
  · rw [← List.append_assoc] at hstream
    simp only [MediaDecryptor.push, hread, Bool.false_eq_true, ↓reduceIte]
    by_cases hshort : (d.pending ++ bytes).length < mediaHeaderSize
    · simp only [if_pos hshort]
      exact ⟨trivial, .inr ⟨hread, chunks, hstream⟩⟩
    simp only [if_neg hshort]
    have hlen : e.header.length = mediaHeaderSize := mediaHeader_length _ _
    have hheader : (d.pending ++ bytes).take mediaHeaderSize = e.header := by
      rw [← List.take_append_of_le_length (not_lt.mp hshort), hstream, List.take_left' hlen]
    have hsupported : headerSupported e.header = true := mediaHeader_supported _ _
    have hnumber : ofBe ((e.header.drop 8).take 8) = e.plaintextSize := by
      rw [MediaEncryptor.header, mediaHeader_size, ofBe_beBytes_of_lt (by norm_num; omega)]
    simp only [hheader, hsupported, ↓reduceIte, hnumber]
    refine ⟨pushLoop_width A _ _ he [], .inl ?_⟩
    have hkeeps := fun d' => pushLoop_keeps A 64 ((d.pending ++ bytes).drop mediaHeaderSize).length
      d' []
    refine ⟨(hkeeps _).1, ?_⟩
    rw [(hkeeps _).2]
    exact he

theorem trace_width {e : MediaEncryptor} (he : e.plaintextSize < 2 ^ 32) (cuts : List Bytes)
    {d : MediaDecryptor} (h : Small e d cuts.flatten) :
    trace (MediaDecryptor.push A 32) d cuts = trace (MediaDecryptor.push A 64) d cuts := by
  induction cuts generalizing d with
  | nil => rfl
  | cons bytes cuts ih =>
    obtain ⟨hpush, hsmall⟩ := push_width A he (by simpa only [List.flatten_cons] using h)
    rw [trace, trace, hpush, ih hsmall]

end Narrow

section Wide
variable {A : Aead MediaKey} (hA : Correct A)

theorem expectedPlain_wide {e : MediaEncryptor} {bs : Bytes}
    (hleft : e.written + bs.length = e.plaintextSize) (hsize : e.plaintextSize < 2 ^ 64)
    (hwide : 2 ^ 32 ≤ bs.length) (hlow : bs.length % 2 ^ 32 < mediaChunkSize) :
    expectedPlain 32 (cursorOf e) < mediaChunkSize ∧
      expectedPlain 64 (cursorOf e) = mediaChunkSize := by
  have hremaining : e.plaintextSize - e.written = bs.length := by omega
  have hwhole : bs.length % 2 ^ 64 = bs.length := Nat.mod_eq_of_lt (by omega)
  have hchunk : mediaChunkSize = 65536 := rfl
  simp only [expectedPlain, cursorOf, hremaining, hwhole]
  omega

theorem expectedPlain_above {e : MediaEncryptor} {bs : Bytes}
    (hleft : e.written + bs.length = e.plaintextSize) (hsize : e.plaintextSize < 2 ^ 64)
    (hhigh : ¬ bs.length % 2 ^ 32 < mediaChunkSize) :
    expectedPlain 32 (cursorOf e) = expectedPlain 64 (cursorOf e) := by
  have hremaining : e.plaintextSize - e.written = bs.length := by omega
  have hwhole : bs.length % 2 ^ 64 = bs.length := Nat.mod_eq_of_lt (by omega)
  simp only [expectedPlain, cursorOf, hremaining, hwhole]
  omega

theorem mediaNext_mismatch {bits len : ℕ} {d : MediaCursor} (rest : Bytes)
    (hread : d.headerRead = true) (hmore : d.written < d.plaintextSize) (hlen : len < 2 ^ 32)
    (hne : len ≠ expectedPlain bits d + mediaTagSize) :
    mediaNext A bits d (beBytes 4 len ++ rest) =
      .fail 0 d (invalidData "invalid E2E media chunk length") := by
  have hfour : (beBytes 4 len).length = 4 := beBytes_length 4 len
  have hfield : ofBe ((beBytes 4 len ++ rest).take 4) = len := by
    rw [List.take_left' hfour, ofBe_beBytes_of_lt (by norm_num; omega)]
  have henough : ¬ (beBytes 4 len ++ rest).length < 4 := by
    rw [List.length_append, hfour]
    omega
  unfold mediaNext
  rw [if_neg (by rw [hread]; decide), if_neg (by omega), if_neg henough, hfield]
  exact if_pos hne

include hA in
theorem wide_refused (bs : Bytes) {e : MediaEncryptor}
    (hleft : e.written + bs.length = e.plaintextSize) (hsize : e.plaintextSize < 2 ^ 64)
    (hindex : e.index ≤ e.written) (hwide : 2 ^ 32 ≤ bs.length) {chunks : List Bytes}
    (hok : (trace (MediaEncryptor.sealChunk A) e (pieces bs)).map Prod.snd = chunks.map Except.ok) :
    (drainAll (mediaNext A 32) (cursorOf e) chunks.flatten).error =
        some (invalidData "invalid E2E media chunk length") ∧
      ∃ k, expectedPlain 32 (cursorOf (final (MediaEncryptor.sealChunk A) e ((pieces bs).take k))) ≠
        expectedPlain 64 (cursorOf (final (MediaEncryptor.sealChunk A) e ((pieces bs).take k))) := by
  induction bs using pieces_induction generalizing e chunks with
  | nil => simp at hwide
  | piece bs hbs ih =>
    have hnext := mediaNext_productive A 32
    have hchunk : mediaChunkSize = 65536 := rfl
    obtain ⟨hfits, hrest⟩ := fits_first hbs hleft hsize hindex
    obtain ⟨c, hc, hclen⟩ := hfits.encrypts hA
    obtain ⟨hdone, -⟩ := hfits.decrypts hclen (hA.decrypts _ _ _ _ _ hc)
    have hseal := hfits.sealChunk hc
    have hfirst : (bs.take mediaChunkSize).length = mediaChunkSize := List.length_take_of_le (by omega)
    rw [pieces_ne_nil hbs] at hok ⊢
    simp only [trace, List.map_cons, hseal] at hok
    cases chunks with
    | nil => simp at hok
    | cons chunk chunks =>
      obtain ⟨hhead, htail⟩ := List.cons.inj hok
      cases hhead
      rw [List.flatten_cons]
      by_cases hlow : bs.length % 2 ^ 32 < mediaChunkSize
      · obtain ⟨hnarrow, hfull⟩ := expectedPlain_wide hleft hsize hwide hlow
        have hmore : (cursorOf e).written < (cursorOf e).plaintextSize := by
          change e.written < e.plaintextSize
          omega
        have hcipher : c.length = mediaChunkSize + mediaTagSize :=
          hclen.trans (congrArg (· + tagLen) hfirst)
        have htag : mediaTagSize = 16 := rfl
        have hfail : mediaNext A 32 (cursorOf e) (beBytes 4 c.length ++ (c ++ chunks.flatten)) = _ :=
          mediaNext_mismatch (c ++ chunks.flatten) rfl hmore (by omega) (by omega)
        refine ⟨?_, 0, ?_⟩
        · rw [List.append_assoc, drainAll_fail hnext hfail]
        · rw [List.take_zero, final_nil, hfull]
          exact hnarrow.ne
      · have hsame := expectedPlain_above hleft hsize hlow
        have htake := (mediaNext_width A hsame _).trans (hdone chunks.flatten)
        obtain ⟨herror, k, hk⟩ := ih hrest hsize hfits.advance (by rw [List.length_drop]; omega) htail
        refine ⟨?_, k + 1, ?_⟩
        · rw [drainAll_take hnext htake, List.drop_left]
          exact herror
        · rw [List.take_succ_cons, final_cons, hseal]
          exact hk

end Wide

variable {A : Aead MediaKey}

/-- The same states and the same answers on both widths, however the stream is cut. -/
def SameDecryption (A : Aead MediaKey) (d : MediaDecryptor) (stream : Bytes) : Prop :=
  ∀ cuts : List Bytes, cuts.flatten = stream →
    trace (MediaDecryptor.push A 32) d cuts = trace (MediaDecryptor.push A 64) d cuts

theorem wide_push_fails {e : MediaEncryptor} {d : MediaDecryptor} {chunks : Bytes} {error : IoError}
    (hd : { d.toMediaCursor with
      plaintextSize := e.plaintextSize, noncePrefix := e.noncePrefix, headerRead := true } = cursorOf e)
    (hread : d.headerRead = false) (hpending : d.pending = []) (hsize : e.plaintextSize < 2 ^ 64)
    (h : (drainAll (mediaNext A 32) (cursorOf e) chunks).error = some error) :
    (d.push A 32 (e.header ++ chunks)).2 = .error error := by
  have hheader := (header_follows A 32 hd hread hsize).1 chunks
  rw [push_eq_drainAll, hpending, List.nil_append,
    drainAll_take (mediaNext_productive A 32) hheader, List.drop_left]
  simp only [fromDrained, h]

/-- The expected chunk lengths agree, and with them everything both decryptors do, exactly for
streams of less than 4 GiB. -/
theorem widths_agree_iff (hA : Correct A) (key aadPrefix P : Bytes) (hkey : key.length = 32)
    (hP : P.length < 2 ^ 64) (random : Block 16) :
    ∃ (e : MediaEncryptor) (d : MediaDecryptor) (chunks : List Bytes),
      MediaEncryptor.withKey (.ok random) key aadPrefix P.length = .ok e ∧
      MediaDecryptor.withKey key aadPrefix = .ok d ∧
      (trace (MediaEncryptor.sealChunk A) e (pieces P)).map Prod.snd = chunks.map Except.ok ∧
      (final (MediaEncryptor.sealChunk A) e (pieces P)).finish = .ok () ∧
      ((∀ k, expectedPlain 32 (cursorOf (final (MediaEncryptor.sealChunk A) e ((pieces P).take k))) =
        expectedPlain 64 (cursorOf (final (MediaEncryptor.sealChunk A) e ((pieces P).take k)))) ↔
        P.length < 2 ^ 32) ∧
      (SameDecryption A d (e.header ++ chunks.flatten) ↔ P.length < 2 ^ 32) := by
  let e := encryptor ⟨key, hkey⟩ aadPrefix random P.length
  have he : Sound e := ⟨le_rfl, Nat.zero_le _, hP⟩
  obtain ⟨chunks, hok, hfinish, -, hback⟩ := sealed_reads_back hA ⟨key, hkey⟩ aadPrefix random hP
  have hwide (hlong : ¬ P.length < 2 ^ 32) :=
    wide_refused hA P (e := e) (Nat.zero_add _) hP le_rfl (not_lt.mp hlong) hok
  refine ⟨e, decryptor ⟨key, hkey⟩ aadPrefix, chunks,
    encryptor_eq ⟨key, hkey⟩ aadPrefix random P.length, decryptor_eq ⟨key, hkey⟩ aadPrefix, hok,
    hfinish, ⟨?_, ?_⟩, ⟨?_, ?_⟩⟩
  · intro hsame
    by_contra hlong
    obtain ⟨-, k, hk⟩ := hwide hlong
    exact hk (hsame k)
  · intro hshort k
    refine expectedPlain_of_small ?_
    rw [(final_accepted A he _).2]
    exact hshort
  · intro hsame
    by_contra hlong
    have hfails := wide_push_fails (e := e) (d := decryptor ⟨key, hkey⟩ aadPrefix) rfl rfl rfl hP
      (hwide hlong).1
    obtain ⟨outputs, hpushed, -⟩ := hback _ List.flatten_singleton
    rw [← hsame _ List.flatten_singleton, trace, List.map_cons, hfails] at hpushed
    cases outputs with
    | nil => cases hpushed
    | cons first outputs => cases hpushed
  · intro hshort cuts hcuts
    refine trace_width A (e := e) hshort cuts (.inr ⟨rfl, chunks.flatten, ?_⟩)
    exact hcuts

theorem widths_agree_iff_sample :
    ∃ (e : MediaEncryptor) (d : MediaDecryptor) (chunks : List Bytes),
      MediaEncryptor.withKey (.ok sampleNoncePrefix) sampleMediaKey [1, 2] 3 = .ok e ∧
      MediaDecryptor.withKey sampleMediaKey [1, 2] = .ok d ∧
      SameDecryption sampleCipher d (e.header ++ chunks.flatten) := by
  obtain ⟨e, d, chunks, he, hd, -, -, -, hsame⟩ :=
    widths_agree_iff (checksumAead_correct List.Vector.toList)
    sampleMediaKey [1, 2] [4, 5, 6] rfl (by decide) sampleNoncePrefix
  exact ⟨e, d, chunks, he, hd, hsame.mpr (by decide)⟩

def wideEncryptor : MediaEncryptor :=
  ⟨⟨sampleMediaKey, sampleMediaKey_length⟩, [], sampleNoncePrefix, 2 ^ 32, 0, 0⟩

def wideDecryptor : MediaDecryptor :=
  ⟨⟨⟨sampleMediaKey, sampleMediaKey_length⟩, [], blockOf 16 [], 0, 0, 0, false⟩, []⟩

def wideStart : Bytes := wideEncryptor.header ++ beBytes 4 (mediaChunkSize + mediaTagSize)

theorem widths_differ_at_four_gib :
    expectedPlain 32 (cursorOf wideEncryptor) = 0 ∧ expectedPlain 64 (cursorOf wideEncryptor) =
      mediaChunkSize ∧
    (wideDecryptor.push sampleCipher 32 wideStart).2 =
      .error (invalidData "invalid E2E media chunk length") ∧
    (wideDecryptor.push sampleCipher 64 wideStart).2 = .ok [] := by
  refine ⟨by decide +kernel, by decide +kernel, by decide +kernel, by decide +kernel⟩

end Mst5Client.MediaWidths
