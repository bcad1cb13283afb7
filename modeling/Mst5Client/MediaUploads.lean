import Mst5Client.MediaSteps

set_option autoImplicit false

/-!
# Media uploads and the chunks they seal

An upload is one encryptor together with everything it was given.
-/
namespace Mst5Client.MediaUploads
open ByteOrder AuthenticatedCipher MachineRuns MediaContainer MediaSteps

structure Upload where
  key : MediaKey
  aadPrefix : Bytes
  noncePrefix : Block 16
  plaintextSize : ℕ
  size_lt : plaintextSize < 2 ^ 64
  /-- The arguments of all calls of `seal_chunk`, also of those that failed. -/
  inputs : List Bytes

def Upload.start (u : Upload) : MediaEncryptor :=
  encryptor u.key u.aadPrefix u.noncePrefix u.plaintextSize

theorem Upload.start_sound (u : Upload) : Sound u.start := ⟨le_rfl, Nat.zero_le _, u.size_lt⟩

variable (A : Aead MediaKey)

def Upload.chunks (u : Upload) : List Bytes := accepted A u.start u.inputs

def Upload.plaintext (u : Upload) : Bytes := (u.chunks A).flatten

/-- The encryptor was given the whole plaintext. -/
def Upload.Completed (u : Upload) : Prop :=
  (final (MediaEncryptor.sealChunk A) u.start u.inputs).finish = .ok ()

def sealedEntries : MediaEncryptor → List Bytes → List (Entry MediaKey)
  | _, [] => []
  | e, plaintext :: inputs =>
    match e.sealChunk A plaintext with
    | (e', .ok out) =>
      ⟨e.key, mediaNonce e.noncePrefix e.index,
        mediaChunkAad e.aadPrefix e.header e.index plaintext.length, plaintext, out.drop 4⟩ ::
        sealedEntries e' inputs
    | (e', .error _) => sealedEntries e' inputs

def Upload.entries (u : Upload) : List (Entry MediaKey) := sealedEntries A u.start u.inputs

theorem Upload.written_le (u : Upload) : (u.plaintext A).length ≤ u.plaintextSize := by
  obtain ⟨hsound, hfinal⟩ := final_accepted A u.start_sound u.inputs
  have hwithin := hsound.within
  rw [hfinal] at hwithin
  change 0 + (u.plaintext A).length ≤ u.plaintextSize at hwithin
  omega

theorem Upload.chunks_length_lt (u : Upload) : (u.chunks A).length < 2 ^ 64 := by
  obtain ⟨hsound, hfinal⟩ := final_accepted A u.start_sound u.inputs
  have hindex := hsound.index
  have hwithin := hsound.within
  have hsize := hsound.size
  rw [hfinal] at hindex hwithin hsize
  change 0 + (u.chunks A).length ≤ 0 + (u.plaintext A).length at hindex
  change 0 + (u.plaintext A).length ≤ u.plaintextSize at hwithin
  change u.plaintextSize < 2 ^ 64 at hsize
  omega

theorem Upload.flatten_prefix {u : Upload} {released : List Bytes} (h : released <+: u.chunks A) :
    released.flatten <+: u.plaintext A := by
  obtain ⟨more, hmore⟩ := h
  exact ⟨more.flatten, by rw [Upload.plaintext, ← hmore, List.flatten_append]⟩

theorem Upload.completed_iff (u : Upload) :
    u.Completed A ↔ (u.plaintext A).length = u.plaintextSize := by
  obtain ⟨-, hfinal⟩ := final_accepted A u.start_sound u.inputs
  rw [Upload.Completed, hfinal]
  simp [MediaEncryptor.finish, Upload.start, encryptor, Upload.plaintext, Upload.chunks]

theorem sealedEntries_position {e : MediaEncryptor} (he : Sound e) {inputs : List Bytes}
    {entry : Entry MediaKey} (h : entry ∈ sealedEntries A e inputs) :
    ∃ i, (accepted A e inputs)[i]? = some entry.message ∧ e.index + i + 1 < 2 ^ 64 ∧
      entry.key = e.key ∧ entry.nonce = mediaNonce e.noncePrefix (e.index + i) ∧
      entry.aad = mediaChunkAad e.aadPrefix e.header (e.index + i) entry.message.length := by
  induction inputs generalizing e with
  | nil => cases h
  | cons plaintext inputs ih =>
    obtain ⟨error, hseal⟩ | ⟨hfits, c, -, hseal⟩ := sealChunk_cases A he plaintext
    · rw [sealedEntries, hseal] at h
      rw [accepted, hseal]
      exact ih he h
    · rw [sealedEntries, hseal, List.mem_cons] at h
      rw [accepted, hseal]
      rcases h with rfl | h
      · have hindex := hfits.advance
        have hwithin := hfits.within
        have hsize := hfits.size
        simp only [advanceBy] at hindex
        exact ⟨0, rfl, by omega, rfl, rfl, rfl⟩
      · obtain ⟨i, hmem, hlt, hkey, hnonce, haad⟩ := ih hfits.sound h
        have hshift : (advanceBy e plaintext).index + i = e.index + (i + 1) := by
          simp only [advanceBy]
          omega
        rw [hshift] at hlt hnonce haad
        exact ⟨i + 1, hmem, hlt, hkey, hnonce, haad⟩

theorem mediaNonce_injective {p q : Block 16} {i j : ℕ} (hi : i < 2 ^ 64) (hj : j < 2 ^ 64)
    (h : mediaNonce p i = mediaNonce q j) : p = q ∧ i = j := by
  obtain ⟨hp, hindex⟩ := List.append_inj h (by simp)
  exact ⟨List.Vector.toList_injective hp, beBytes_injective hi hj hindex⟩

theorem mediaHeader_injective {m n : ℕ} {p q : Block 16} (hm : m < 2 ^ 64) (hn : n < 2 ^ 64)
    (h : mediaHeader m p = mediaHeader n q) : m = n := by
  apply beBytes_injective (k := 8) hm hn
  rw [← mediaHeader_size m p, h, mediaHeader_size]

theorem mediaChunkAad_injective {a b g h : Bytes} {i j m n : ℕ} (hlen : g.length = h.length)
    (heq : mediaChunkAad a g i m = mediaChunkAad b h j n) : a = b ∧ g = h := by
  have hfour := List.append_inj_left' heq (by simp)
  have height := List.append_inj_left' hfour (by simp)
  exact List.append_inj' height hlen

end Mst5Client.MediaUploads
