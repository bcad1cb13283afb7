import Mst5Client.MediaRoundTrip
import Mst5Client.MediaUploads

set_option autoImplicit false

/-!
# The chunk discipline of the media encryptor

Every piece but the last is full, so the number of sealed pieces says how much was written.
-/
namespace Mst5Client.MediaDiscipline
open ByteOrder AuthenticatedCipher IoResult MachineRuns MediaContainer MediaSteps MediaRoundTrip
  MediaUploads

structure InStep (e : MediaEncryptor) : Prop extends Sound e where
  written_eq : e.written = min (mediaChunkSize * e.index) e.plaintextSize
  index_le : e.index ≤ divCeil e.plaintextSize mediaChunkSize

theorem le_divCeil_iff {k n : ℕ} :
    k ≤ divCeil n mediaChunkSize ↔ mediaChunkSize * k < n + mediaChunkSize := by
  have hchunk : mediaChunkSize = 65536 := rfl
  rw [hchunk]
  unfold divCeil
  split_ifs <;> omega

section Step
variable {A : Aead MediaKey} {e : MediaEncryptor} {plaintext : Bytes}

theorem InStep.advance (he : InStep e) (h : Fits e plaintext) : InStep (advanceBy e plaintext) := by
  have hpos := List.length_pos_iff.mpr h.nonempty
  have hsmall := h.small
  have hwithin := h.within
  have hfull := h.full
  have hwritten : e.written = mediaChunkSize * e.index := by
    have := he.written_eq
    omega
  have hsucc : mediaChunkSize * (e.index + 1) = mediaChunkSize * e.index + mediaChunkSize :=
    Nat.mul_succ _ _
  refine ⟨h.sound, ?_, ?_⟩
  · simp only [advanceBy]
    by_cases hlast : e.written + plaintext.length = e.plaintextSize
    · omega
    · have := hfull hlast
      omega
  · rw [le_divCeil_iff]
    simp only [advanceBy]
    omega

theorem sealChunk_error (he : Sound e) {e' : MediaEncryptor} {error : IoError}
    (h : e.sealChunk A plaintext = (e', .error error)) :
    e' = e ∧ error ≠ invalidData "E2E media chunk index overflow" := by
  by_cases hfits : Fits e plaintext
  · rw [hfits.sealChunk_eq] at h
    cases hc : encrypted A e plaintext with
    | none =>
      rw [hc] at h
      cases h
      exact ⟨rfl, by decide⟩
    | some c =>
      rw [hc] at h
      cases h
  · obtain ⟨error', hreject, hne⟩ := sealChunk_rejects A he hfits
    rw [hreject] at h
    cases h
    exact ⟨rfl, hne⟩

theorem InStep.sealChunk (he : InStep e) (A : Aead MediaKey) (plaintext : Bytes) :
    InStep (e.sealChunk A plaintext).1 := by
  obtain ⟨error, hseal⟩ | ⟨hfits, c, -, hseal⟩ := sealChunk_cases A he.toSound plaintext
  · rw [hseal]
    exact he
  · rw [hseal]
    exact he.advance hfits

end Step

variable (A : Aead MediaKey) {e : MediaEncryptor}

theorem InStep.final (he : InStep e) (inputs : List Bytes) :
    InStep (final (MediaEncryptor.sealChunk A) e inputs) := by
  induction inputs generalizing e with
  | nil => exact he
  | cons plaintext inputs ih => exact ih (he.sealChunk A plaintext)

/-- What each successful call asks of the cipher, with the bytes it returns. -/
def sealedCalls : MediaEncryptor → List Bytes → List ((Query MediaKey → Prop) × Bytes)
  | _, [] => []
  | e, plaintext :: inputs =>
    match e.sealChunk A plaintext with
    | (e', .ok out) =>
      (Asks fun E => e.sealChunk (A.answering E) plaintext, out) :: sealedCalls e' inputs
    | (e', .error _) => sealedCalls e' inputs

def queryOf (e : MediaEncryptor) (plaintext : Bytes) : Query MediaKey :=
  ⟨e.key, mediaNonce e.noncePrefix e.index,
    mediaChunkAad e.aadPrefix e.header e.index plaintext.length, plaintext⟩

theorem sealChunk_asks {plaintext : Bytes} (h : Fits e plaintext) (q : Query MediaKey) :
    Asks (fun E => e.sealChunk (A.answering E) plaintext) q ↔ q = queryOf e plaintext := by
  refine asks_iff (r := none) (t := some []) (g := answered e plaintext) (fun E => h.sealChunk_eq) ?_
  intro hsame
  cases congrArg Prod.snd hsame

/-- The call asks `q` and nothing else, and returns the answer. -/
def Carries (call : (Query MediaKey → Prop) × Bytes) (q : Query MediaKey) : Prop :=
  (∀ p, call.1 p ↔ p = q) ∧
    ∃ c, A.encrypt q.key q.nonce q.aad q.message = some c ∧ call.2 = beBytes 4 c.length ++ c

theorem sealedCalls_carry (he : Sound e) (inputs : List Bytes) :
    ∃ queries, List.Forall₂ (Carries A) (sealedCalls A e inputs) queries ∧
      queries.map Query.nonce =
        (List.range' e.index (accepted A e inputs).length).map (mediaNonce e.noncePrefix) := by
  induction inputs generalizing e with
  | nil => exact ⟨[], .nil, rfl⟩
  | cons plaintext inputs ih =>
    obtain ⟨error, hseal⟩ | ⟨hfits, c, hc, hseal⟩ := sealChunk_cases A he plaintext
    · rw [sealedCalls, accepted, hseal]
      exact ih he
    · obtain ⟨queries, hcarry, hnonces⟩ := ih hfits.sound
      rw [sealedCalls, accepted, hseal, List.length_cons, List.range'_succ, List.map_cons]
      refine ⟨queryOf e plaintext :: queries, .cons ⟨sealChunk_asks A hfits, c, hc, rfl⟩ hcarry, ?_⟩
      exact congrArg (mediaNonce e.noncePrefix e.index :: ·) hnonces

theorem nonces_nodup (he : Sound e) (inputs : List Bytes) :
    ((List.range' e.index (accepted A e inputs).length).map (mediaNonce e.noncePrefix)).Nodup := by
  obtain ⟨hsound, hfinal⟩ := final_accepted A he inputs
  have hbound : e.index + (accepted A e inputs).length < 2 ^ 64 := by
    have hindex := hsound.index
    have hwithin := hsound.within
    have hsize := hsound.size
    rw [hfinal] at hindex hwithin hsize
    dsimp only at hindex hwithin hsize
    omega
  refine List.Nodup.map_on ?_ List.nodup_range'
  intro i hi j hj h
  rw [List.mem_range'_1] at hi hj
  exact (mediaNonce_injective (by omega) (by omega) h).2

theorem finish_iff (he : InStep e) :
    e.finish = .ok () ↔ e.index = divCeil e.plaintextSize mediaChunkSize := by
  have hwritten := he.written_eq
  have hle := he.index_le
  have hceil := le_divCeil_iff (k := e.index + 1) (n := e.plaintextSize)
  have hsucc : mediaChunkSize * (e.index + 1) = mediaChunkSize * e.index + mediaChunkSize :=
    Nat.mul_succ _ _
  unfold MediaEncryptor.finish
  split_ifs with hdone
  · refine iff_of_true rfl ?_
    omega
  · refine iff_of_false (by simp) ?_
    omega

theorem withKey_inStep {random : Except String (Block 16)} {key aadPrefix : Bytes} {n : ℕ}
    {e : MediaEncryptor} (hsize : n < 2 ^ 64)
    (h : MediaEncryptor.withKey random key aadPrefix n = .ok e) :
    InStep e ∧ e.plaintextSize = n ∧ e.index = 0 := by
  unfold MediaEncryptor.withKey at h
  split at h
  · cases h
  · split at h
    · cases h
    · cases h
      exact ⟨⟨⟨le_rfl, Nat.zero_le _, hsize⟩, (Nat.zero_min n).symm, Nat.zero_le _⟩, rfl, rfl⟩

/-- After any calls: the next call that fails changes nothing, and not because of the chunk counter;
the successful ones are counted, have written as many full chunks up to the declared size, and each
returns what the cipher answers to one query, no two of them with one nonce; and the encryptor is
finished exactly when there were enough of them. -/
theorem chunk_discipline (A : Aead MediaKey) {random : Except String (Block 16)}
    {key aadPrefix : Bytes} {n : ℕ} (hsize : n < 2 ^ 64) {e : MediaEncryptor}
    (h : MediaEncryptor.withKey random key aadPrefix n = .ok e) (inputs : List Bytes) :
    (∀ plaintext e' error,
      (final (MediaEncryptor.sealChunk A) e inputs).sealChunk A plaintext = (e', .error error) →
      e' = final (MediaEncryptor.sealChunk A) e inputs ∧
        error ≠ invalidData "E2E media chunk index overflow") ∧
    (final (MediaEncryptor.sealChunk A) e inputs).index = (accepted A e inputs).length ∧
    (final (MediaEncryptor.sealChunk A) e inputs).written =
      min (mediaChunkSize * (accepted A e inputs).length) n ∧
    (accepted A e inputs).length ≤ divCeil n mediaChunkSize ∧
    (∃ queries, List.Forall₂ (Carries A) (sealedCalls A e inputs) queries ∧
      queries.length = (accepted A e inputs).length ∧ (queries.map Query.nonce).Nodup) ∧
    ((final (MediaEncryptor.sealChunk A) e inputs).finish = .ok () ↔
      (accepted A e inputs).length = divCeil n mediaChunkSize) := by
  obtain ⟨he, rfl, hzero⟩ := withKey_inStep hsize h
  have hend := he.final A inputs
  obtain ⟨-, hfinal⟩ := final_accepted A he.toSound inputs
  have hindex : (final (MediaEncryptor.sealChunk A) e inputs).index = (accepted A e inputs).length := by
    rw [hfinal]
    exact (congrArg (· + (accepted A e inputs).length) hzero).trans (Nat.zero_add _)
  have hplaintext : (final (MediaEncryptor.sealChunk A) e inputs).plaintextSize = e.plaintextSize := by
    rw [hfinal]
  refine ⟨fun plaintext e' error => sealChunk_error hend.toSound, hindex, ?_, ?_, ?_, ?_⟩
  · rw [hend.written_eq, hindex, hplaintext]
  · rw [← hindex, ← hplaintext]
    exact hend.index_le
  · obtain ⟨queries, hcarry, hnonces⟩ := sealedCalls_carry A he.toSound inputs
    have hlength := congrArg List.length hnonces
    rw [List.length_map, List.length_map, List.length_range'] at hlength
    exact ⟨queries, hcarry, hlength, hnonces ▸ nonces_nodup A he.toSound inputs⟩
  · rw [finish_iff hend, hindex, hplaintext]

def sampleEncryptor : MediaEncryptor :=
  ⟨⟨sampleMediaKey, sampleMediaKey_length⟩, [1, 2], sampleNoncePrefix, 3, 0, 0⟩

def sampleChunks : List Bytes := [[], [4, 5, 6], [7]]

theorem chunk_discipline_sample :
    MediaEncryptor.withKey (.ok sampleNoncePrefix) sampleMediaKey [1, 2] 3 = .ok sampleEncryptor ∧
    (final (MediaEncryptor.sealChunk sampleCipher) sampleEncryptor sampleChunks).index = 1 ∧
    (final (MediaEncryptor.sealChunk sampleCipher) sampleEncryptor sampleChunks).finish = .ok () := by
  have hcount : (accepted sampleCipher sampleEncryptor sampleChunks).length = 1 := by decide +kernel
  obtain ⟨-, hindex, -, -, -, hfinish⟩ := chunk_discipline sampleCipher (show 3 < 2 ^ 64 by decide)
    (show MediaEncryptor.withKey (.ok sampleNoncePrefix) sampleMediaKey [1, 2] 3 =
      .ok sampleEncryptor from rfl)
    sampleChunks
  exact ⟨rfl, hindex.trans hcount, hfinish.mpr hcount⟩

end Mst5Client.MediaDiscipline
