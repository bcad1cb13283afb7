import Mst5Client.MediaUploads

set_option autoImplicit false

/-!
# What a media node can make the decryptor release

With an ideal cipher every chunk the decryptor accepts names its upload and its position there, and
no two uploads share a nonce prefix, so what has been accepted is always the beginning of one
upload.
-/
namespace Mst5Client.MediaAuthenticity
open ByteOrder AuthenticatedCipher IoResult StreamDecoder MachineRuns MediaContainer MediaSteps
  MediaUploads

section Run
variable {A : Aead MediaKey} {bits : ℕ} {uploads : List Upload} {key : MediaKey} {aadPrefix : Bytes}
variable {d : MediaDecryptor}

/-- Where a decryptor stands that was given `stream`, has not consumed `rest` of it and has
accepted the chunks `out`. -/
structure Progress (A : Aead MediaKey) (uploads : List Upload) (key : MediaKey) (aadPrefix : Bytes)
    (stream : Bytes) (d : MediaCursor) (rest : Bytes) (out : List Bytes) : Prop where
  key_eq : d.key = key
  aad_eq : d.aadPrefix = aadPrefix
  size : d.plaintextSize < 2 ^ 64
  fresh : d.headerRead = false → out = [] ∧ rest = stream
  opened : d.headerRead = true → out = [] → stream = d.header ++ rest
  written : d.written = out.flatten.length
  index : d.index = out.length
  source : out ≠ [] → ∃ u ∈ uploads, u.key = key ∧ u.aadPrefix = aadPrefix ∧
    u.noncePrefix = d.noncePrefix ∧ u.plaintextSize = d.plaintextSize ∧ out <+: u.chunks A

theorem Progress.fromKey (hd : MediaDecryptor.withKey key.toList aadPrefix = .ok d) :
    Progress A uploads key aadPrefix [] d.toMediaCursor d.pending [] := by
  rw [decryptor_eq] at hd
  cases hd
  refine ⟨rfl, rfl, by norm_num [decryptor], fun _ => ⟨rfl, rfl⟩, ?_, rfl, rfl, fun h => absurd rfl h⟩
  intro hread
  cases hread

theorem Progress.extend {stream rest : Bytes} {d : MediaCursor} {out : List Bytes}
    (h : Progress A uploads key aadPrefix stream d rest out) (bytes : Bytes) :
    Progress A uploads key aadPrefix (stream ++ bytes) d (rest ++ bytes) out := by
  refine ⟨h.key_eq, h.aad_eq, h.size, ?_, ?_, h.written, h.index, h.source⟩
  · intro hread
    obtain ⟨hout, hrest⟩ := h.fresh hread
    exact ⟨hout, by rw [hrest]⟩
  · intro hread hout
    rw [h.opened hread hout, List.append_assoc]

/-- What `n` pushes have accepted: the chunks returned and, once a push has failed, those it
accepted before. -/
def acceptedAfter (outputs : List (List Bytes)) (lost : List Bytes) (n : ℕ) : List Bytes :=
  (outputs.take n).flatten ++ if outputs.length < n then lost else []

theorem acceptedAfter_cons (items : List Bytes) (outputs : List (List Bytes)) (lost : List Bytes)
    (n : ℕ) :
    acceptedAfter (items :: outputs) lost (n + 1) = items ++ acceptedAfter outputs lost n := by
  simp [acceptedAfter]

theorem acceptedAfter_all {cuts : List Bytes} {outputs : List (List Bytes)} {errors : List IoError}
    {lost : List Bytes} (htrace : (trace (MediaDecryptor.push A bits) d cuts).map Prod.snd =
      outputs.map Except.ok ++ errors.map Except.error) (hlost : errors = [] → lost = []) :
    acceptedAfter outputs lost cuts.length = outputs.flatten ++ lost := by
  have hlength : cuts.length = outputs.length + errors.length := by
    simpa [length_trace] using congrArg List.length htrace
  rw [acceptedAfter, List.take_of_length_le (by omega)]
  cases errors with
  | nil => rw [hlost rfl, ite_self]
  | cons error errors => rw [if_pos (by simp [hlength])]

/-- No further bytes make the decryptor accept anything. -/
def Stuck (A : Aead MediaKey) (bits : ℕ) (d : MediaDecryptor) : Prop :=
  ∃ error, ∀ q, mediaNext A bits d.toMediaCursor (d.pending ++ q) = .fail 0 d.toMediaCursor error

theorem Stuck.run (h : Stuck A bits d) (cuts : List Bytes) : ∃ errors : List IoError,
      (trace (MediaDecryptor.push A bits) d cuts).map Prod.snd = errors.map Except.error ∧
      final (MediaDecryptor.push A bits) d cuts = ⟨d.toMediaCursor, d.pending ++ cuts.flatten⟩ := by
  obtain ⟨error, hfail⟩ := h
  induction cuts generalizing d with
  | nil => exact ⟨[], rfl, by simp⟩
  | cons bytes cuts ih =>
    have hpush : d.push A bits bytes = (⟨d.toMediaCursor, d.pending ++ bytes⟩, .error error) := by
      rw [push_eq_drainAll, drainAll_fail (mediaNext_productive A bits) (hfail bytes)]
      rfl
    obtain ⟨errors, htrace, hfinal⟩ := ih (d := ⟨d.toMediaCursor, d.pending ++ bytes⟩) (fun q => by
      rw [List.append_assoc]
      exact hfail (bytes ++ q))
    refine ⟨error :: errors, ?_, ?_⟩
    · simp only [trace, List.map_cons, hpush, htrace]
    · rw [final_cons, hpush, hfinal, List.flatten_cons, List.append_assoc]

theorem prefix_concat_of_getElem {α : Type} {xs ys : List α} {a : α} (h : xs <+: ys)
    (ha : ys[xs.length]? = some a) : xs ++ [a] <+: ys := by
  obtain ⟨zs, rfl⟩ := h
  rw [List.getElem?_append_right le_rfl, Nat.sub_self] at ha
  cases zs with
  | nil => cases ha
  | cons z zs =>
    obtain rfl : z = a := by simpa using ha
    exact ⟨zs, by simp⟩

theorem eq_mediaHeader {header : Bytes} (hlen : header.length = mediaHeaderSize)
    (h : headerSupported header = true) :
    header = mediaHeader (ofBe ((header.drop 8).take 8)) (blockOf 16 (header.drop 16)) := by
  simp only [headerSupported, decide_eq_true_eq] at h
  have hsize : ((header.drop 8).take 8).length = 8 := by simp [hlen, mediaHeaderSize]
  have hnonce : (header.drop 16).length = 16 := by simp [hlen, mediaHeaderSize]
  have hnumber : beBytes 8 (ofBe ((header.drop 8).take 8)) = (header.drop 8).take 8 := by
    have h := beBytes_ofBe ((header.drop 8).take 8)
    rwa [hsize] at h
  calc header = header.take 4 ++ (header.drop 4).take 4 ++ (header.drop 8).take 8 ++
    header.drop 16 := by
        rw [← List.take_add, ← List.take_add, List.take_append_drop]
    _ = mediaHeader (ofBe ((header.drop 8).take 8)) (blockOf 16 (header.drop 16)) := by
        rw [mediaHeader, toList_blockOf hnonce, hnumber, h.1, h.2]

theorem Progress.index_lt {stream rest : Bytes} {d : MediaCursor} {out : List Bytes}
    (h : Progress A uploads key aadPrefix stream d rest out) : d.index < 2 ^ 64 := by
  rw [h.index]
  by_cases hout : out = []
  · rw [hout]
    norm_num
  · obtain ⟨u, -, -, -, -, -, hchunks⟩ := h.source hout
    exact lt_of_le_of_lt hchunks.length_le (u.chunks_length_lt A)

theorem empty_accepted (A : Aead MediaKey) (bits : ℕ)
    (hd : MediaDecryptor.withKey key.toList aadPrefix = .ok d) {noncePrefix : Block 16}
    {cuts : List Bytes} (hcuts : cuts.flatten = mediaHeader 0 noncePrefix) :
    ∃ outputs : List (List Bytes),
      (trace (MediaDecryptor.push A bits) d cuts).map Prod.snd = outputs.map Except.ok ∧
      outputs.flatten = [] ∧ (final (MediaDecryptor.push A bits) d cuts).finish = .ok 0 := by
  rw [decryptor_eq] at hd
  cases hd
  let e := encryptor key aadPrefix noncePrefix 0
  have hfollow : Follows (mediaNext A bits) (decryptor key aadPrefix).toMediaCursor
    [⟨e.header, cursorOf e, none⟩] :=
    follows_header A bits key aadPrefix noncePrefix (by norm_num) trivial
  have hbytes : cuts.flatten = bytesOf [⟨e.header, cursorOf e, (none : Option Bytes)⟩] := by
    simp [bytesOf, hcuts, MediaEncryptor.header, e, encryptor]
  obtain ⟨outputs, htrace, hitems, hfinal⟩ :=
    push_fragments (d := decryptor key aadPrefix) rfl hfollow hbytes
  exact ⟨outputs, htrace, hitems, by rw [hfinal]; rfl⟩

theorem all_ok {ε α : Type} {outputs outputs' : List α} {errors : List ε}
    (h : outputs.map Except.ok ++ errors.map Except.error = outputs'.map Except.ok) :
    errors = [] ∧ outputs = outputs' := by
  have hnone : errors = [] := by
    rw [List.eq_nil_iff_forall_not_mem]
    intro e he
    have hmem : (.error e : Except ε α) ∈ outputs'.map Except.ok := by
      rw [← h]
      exact List.mem_append_right _ (List.mem_map_of_mem he)
    simp at hmem
  subst hnone
  rw [List.map_nil, List.append_nil] at h
  exact ⟨rfl, List.map_injective_iff.mpr (fun _ _ => Except.ok.inj) h⟩

theorem finish_eq_ok {n : ℕ} (h : d.finish = .ok n) :
    d.headerRead = true ∧ d.written = d.plaintextSize ∧ d.pending = [] := by
  unfold MediaDecryptor.finish at h
  split_ifs at h with hbad
  simpa only [not_or, Bool.not_eq_false, not_not] using hbad

section Ideal
variable (hideal : IdealAt key (uploads.flatMap (Upload.entries A)) A.decrypt)
variable {d : MediaCursor} {stream : Bytes} {out : List Bytes}
include hideal

theorem chunk_source (hkey : d.key = key) (hsize : d.plaintextSize < 2 ^ 64) (hindex : d.index < 2 ^ 64)
    {expected : ℕ} {c m : Bytes} (h : decrypted A d expected c = some m) :
    ∃ u ∈ uploads, u.key = key ∧ u.aadPrefix = d.aadPrefix ∧ u.noncePrefix = d.noncePrefix ∧
      u.plaintextSize = d.plaintextSize ∧ (u.chunks A)[d.index]? = some m ∧ d.index + 1 < 2 ^ 64 := by
  rw [decrypted, hkey] at h
  obtain ⟨u, hu, hentry⟩ := List.mem_flatMap.mp (hideal _ _ _ _ h)
  obtain ⟨i, hmem, hlt, hk, hnonce, haad⟩ := sealedEntries_position A u.start_sound hentry
  simp only [Upload.start, encryptor, Nat.zero_add] at hlt hk hnonce haad
  obtain ⟨hsession, rfl⟩ := mediaNonce_injective hindex (by omega) hnonce
  obtain ⟨ha, hheader⟩ := mediaChunkAad_injective
    (by simp [MediaCursor.header, MediaEncryptor.header]) haad
  exact ⟨u, hu, hk.symm, ha.symm, hsession.symm,
    (mediaHeader_injective hsize u.size_lt hheader).symm, hmem, hlt⟩

variable (hnonces : (uploads.map Upload.noncePrefix).Nodup)
include hnonces

theorem Progress.take {rest : Bytes} {d' : MediaCursor} {n : ℕ} {item : Option Bytes}
    (h : Progress A uploads key aadPrefix stream d rest out)
    (hnext : mediaNext A bits d rest = .take n d' item) :
    Progress A uploads key aadPrefix stream d' (rest.drop n) (out ++ item.toList) := by
  obtain ⟨hread, hlen, rfl, hsupported, rfl, rfl⟩ | ⟨expected, c, m, hread, hdec, rfl, rfl⟩ :=
    mediaNext_take hnext
  · obtain ⟨rfl, rfl⟩ := h.fresh hread
    have hheader : (rest.take mediaHeaderSize).length = mediaHeaderSize := List.length_take_of_le hlen
    refine ⟨h.key_eq, h.aad_eq, ?_, ?_, ?_, h.written, h.index, fun hne => absurd rfl hne⟩
    · have hfield := ofBe_lt (((rest.take mediaHeaderSize).drop 8).take 8)
      have hwidth := Nat.pow_le_pow_right (n := 256) (by norm_num)
        (List.length_take_le 8 ((rest.take mediaHeaderSize).drop 8))
      exact lt_of_lt_of_le hfield (hwidth.trans (by norm_num))
    · intro hfalse
      cases hfalse
    · intro _ _
      rw [MediaCursor.header, ← eq_mediaHeader hheader hsupported, List.take_append_drop]
  · obtain ⟨u, hu, hkey, haad, hsession, hsize, hchunk, -⟩ :=
      chunk_source hideal h.key_eq h.size h.index_lt hdec
    -- earlier chunks came from the same upload: the nonce prefix is the same
    have hbefore : out <+: u.chunks A := by
      by_cases hout : out = []
      · rw [hout]
        exact List.nil_prefix
      · obtain ⟨v, hv, -, -, hsame, -, hchunks⟩ := h.source hout
        obtain rfl : v = u := List.inj_on_of_nodup_map hnonces hv hu (hsame.trans hsession.symm)
        exact hchunks
    rw [h.index] at hchunk
    refine ⟨h.key_eq, h.aad_eq, h.size, ?_, ?_, ?_, ?_, ?_⟩
    · intro hfalse
      rw [hread] at hfalse
      cases hfalse
    · intro _ hnil
      simp at hnil
    · simp [h.written]
    · simp [h.index]
    · intro _
      exact ⟨u, hu, hkey, haad.trans h.aad_eq, hsession, hsize, prefix_concat_of_getElem hbefore hchunk⟩

omit hnonces in
theorem Progress.fail {rest : Bytes} {d' : MediaCursor} {n : ℕ} {error : IoError}
    (h : Progress A uploads key aadPrefix stream d rest out)
    (hnext : mediaNext A bits d rest = .fail n d' error) :
    n = 0 ∧ d' = d ∧ ∀ q, mediaNext A bits d (rest ++ q) = .fail 0 d error := by
  obtain hstuck | ⟨expected, c, m, hdec, hover⟩ := mediaNext_fail hnext
  · exact hstuck
  · obtain ⟨u, -, -, -, -, -, -, hlt⟩ := chunk_source hideal h.key_eq h.size h.index_lt hdec
    omega

theorem Progress.push {d : MediaDecryptor}
    (h : Progress A uploads key aadPrefix stream d.toMediaCursor d.pending out) (bits : ℕ)
    (bytes : Bytes) :
    ∃ d' lost, Progress A uploads key aadPrefix (stream ++ bytes) d'.toMediaCursor d'.pending
      (out ++ lost) ∧ (d.push A bits bytes = (d', .ok lost) ∨
        ∃ error, d.push A bits bytes = (d', .error error) ∧ Stuck A bits d') := by
  obtain ⟨herror, hprogress⟩ | ⟨error, s, p, n, herror, hfail, hrest, hprogress⟩ :=
    drainAll_outcome (mediaNext_productive A bits)
      (I := Progress A uploads key aadPrefix (stream ++ bytes))
      (fun _ _ _ _ _ _ h hnext => h.take hideal hnonces hnext) (h.extend bytes)
  · refine ⟨⟨_, _⟩, _, hprogress, .inl ?_⟩
    rw [push_eq_drainAll, fromDrained, herror]
    rfl
  · obtain ⟨rfl, hsame, hstuck⟩ := hprogress.fail hideal hfail
    rw [List.drop_zero] at hrest
    refine ⟨⟨s, p⟩, _, hprogress, .inr ⟨error, ?_, error, hstuck⟩⟩
    rw [push_eq_drainAll, fromDrained, herror, hsame, hrest]

theorem Progress.run {d : MediaDecryptor}
    (h : Progress A uploads key aadPrefix stream d.toMediaCursor d.pending out) (bits : ℕ)
    (cuts : List Bytes) :
    ∃ (outputs : List (List Bytes)) (errors : List IoError) (lost : List Bytes),
      (trace (MediaDecryptor.push A bits) d cuts).map Prod.snd =
        outputs.map Except.ok ++ errors.map Except.error ∧ (errors = [] → lost = []) ∧
      ∀ n, Progress A uploads key aadPrefix (stream ++ (cuts.take n).flatten)
        (final (MediaDecryptor.push A bits) d (cuts.take n)).toMediaCursor
        (final (MediaDecryptor.push A bits) d (cuts.take n)).pending
          (out ++ acceptedAfter outputs lost n) := by
  induction cuts generalizing stream d out with
  | nil => exact ⟨[], [], [], rfl, fun _ => rfl, fun n => by simpa [acceptedAfter] using h⟩
  | cons bytes cuts ih =>
    obtain ⟨d', items, hprogress, hpush | ⟨error, hpush, hstuck⟩⟩ := h.push hideal hnonces bits bytes
    · obtain ⟨outputs, errors, lost, htrace, hlost, hmoments⟩ := ih hprogress
      refine ⟨items :: outputs, errors, lost, ?_, hlost, fun n => ?_⟩
      · simp only [trace, List.map_cons, hpush, htrace, List.cons_append]
      · cases n with
        | zero => simpa [acceptedAfter] using h
        | succ n =>
          rw [List.take_succ_cons, final_cons, hpush, acceptedAfter_cons]
          simpa only [List.flatten_cons, List.append_assoc] using hmoments n
    · obtain ⟨errors, htrace, -⟩ := hstuck.run cuts
      refine ⟨[], error :: errors, items, ?_, by simp, fun n => ?_⟩
      · simp only [trace, List.map_cons, hpush, htrace, List.map_nil, List.nil_append]
      · cases n with
        | zero => simpa [acceptedAfter] using h
        | succ n =>
          obtain ⟨-, -, hfinal⟩ := hstuck.run (cuts.take n)
          rw [List.take_succ_cons, final_cons, hpush, hfinal, List.flatten_cons, ← List.append_assoc]
          simpa [acceptedAfter] using hprogress.extend (cuts.take n).flatten

theorem Progress.ended {d : MediaDecryptor}
    (h : Progress A uploads key aadPrefix stream d.toMediaCursor d.pending out) (bits : ℕ)
    (cuts : List Bytes) :
    ∃ (outputs : List (List Bytes)) (errors : List IoError) (lost : List Bytes),
      (trace (MediaDecryptor.push A bits) d cuts).map Prod.snd =
        outputs.map Except.ok ++ errors.map Except.error ∧ (errors = [] → lost = []) ∧
      Progress A uploads key aadPrefix (stream ++ cuts.flatten)
        (final (MediaDecryptor.push A bits) d cuts).toMediaCursor
        (final (MediaDecryptor.push A bits) d cuts).pending (out ++ (outputs.flatten ++ lost)) := by
  obtain ⟨outputs, errors, lost, htrace, hlost, hmoments⟩ := h.run hideal hnonces bits cuts
  refine ⟨outputs, errors, lost, htrace, hlost, ?_⟩
  have hend := hmoments cuts.length
  rwa [List.take_length, acceptedAfter_all htrace hlost] at hend

/-- At every moment the accepted chunks are the first ones of a single upload under the same
key and prefix. Those that were accepted and not returned belong to the push that failed. -/
theorem released_authentic {d : MediaDecryptor}
    (hd : MediaDecryptor.withKey key.toList aadPrefix = .ok d) (cuts : List Bytes) :
    ∃ (outputs : List (List Bytes)) (errors : List IoError) (lost : List Bytes),
      (trace (MediaDecryptor.push A bits) d cuts).map Prod.snd =
        outputs.map Except.ok ++ errors.map Except.error ∧ (errors = [] → lost = []) ∧
      (∀ n, (final (MediaDecryptor.push A bits) d (cuts.take n)).written =
          (acceptedAfter outputs lost n).flatten.length ∧
        (final (MediaDecryptor.push A bits) d (cuts.take n)).index =
          (acceptedAfter outputs lost n).length) ∧
      (final (MediaDecryptor.push A bits) d cuts).written = (outputs.flatten ++ lost).flatten.length ∧
      (final (MediaDecryptor.push A bits) d cuts).index = (outputs.flatten ++ lost).length ∧
      (outputs.flatten ++ lost ≠ [] → ∃ u ∈ uploads, u.key = key ∧ u.aadPrefix = aadPrefix ∧
        outputs.flatten ++ lost <+: u.chunks A ∧ outputs.flatten.flatten <+: u.plaintext A) := by
  obtain ⟨outputs, errors, lost, htrace, hlost, hmoments⟩ :=
    (Progress.fromKey hd).run hideal hnonces bits cuts
  have hend := hmoments cuts.length
  rw [List.take_length, acceptedAfter_all htrace hlost] at hend
  refine ⟨outputs, errors, lost, htrace, hlost, fun n => ⟨(hmoments n).written, (hmoments n).index⟩,
    hend.written, hend.index, ?_⟩
  intro hne
  obtain ⟨u, hu, hkey, haad, -, -, hchunks⟩ := hend.source hne
  rw [List.nil_append] at hchunks
  exact ⟨u, hu, hkey, haad, hchunks, Upload.flatten_prefix A ((List.prefix_append _ _).trans hchunks)⟩

/-- A completed upload is what comes out, unless the stream is nothing but the header of an
empty file: no cipher is involved in accepting that one. -/
theorem completed_authentic_iff {d : MediaDecryptor}
    (hd : MediaDecryptor.withKey key.toList aadPrefix = .ok d) (cuts : List Bytes) :
    (∀ (outputs : List (List Bytes)) (n : ℕ),
        (trace (MediaDecryptor.push A bits) d cuts).map Prod.snd = outputs.map Except.ok →
        (final (MediaDecryptor.push A bits) d cuts).finish = .ok n →
        ∃ u ∈ uploads, u.key = key ∧ u.aadPrefix = aadPrefix ∧ u.Completed A ∧
          outputs.flatten.flatten = u.plaintext A) ↔
      ((∃ noncePrefix, cuts.flatten = mediaHeader 0 noncePrefix) →
        ∃ u ∈ uploads, u.key = key ∧ u.aadPrefix = aadPrefix ∧ u.plaintextSize = 0) := by
  constructor
  · rintro hauthentic ⟨noncePrefix, hcuts⟩
    obtain ⟨outputs, htrace, hout, hfinish⟩ := empty_accepted A bits hd hcuts
    obtain ⟨u, hu, hkey, haad, hdone, hplain⟩ := hauthentic outputs 0 htrace hfinish
    rw [hout, List.flatten_nil] at hplain
    refine ⟨u, hu, hkey, haad, ?_⟩
    rw [← (u.completed_iff A).mp hdone, ← hplain, List.length_nil]
  · intro hempty outputs n htrace hfinish
    obtain ⟨outputs', errors, lost, hsplit, hlost, hend⟩ :=
      (Progress.fromKey hd).ended hideal hnonces bits cuts
    obtain ⟨rfl, rfl⟩ := all_ok (hsplit.symm.trans htrace)
    rw [hlost rfl, List.append_nil, List.nil_append, List.nil_append] at hend
    obtain ⟨hread, hwritten, hpending⟩ := finish_eq_ok hfinish
    rw [hend.written] at hwritten
    by_cases hout : outputs'.flatten = []
    -- no chunk was accepted, so nothing vouches for the header
    · have hstream := hend.opened hread hout
      rw [hpending, List.append_nil, MediaCursor.header, ← hwritten, hout] at hstream
      obtain ⟨u, hu, hkey, haad, hsize⟩ := hempty ⟨_, hstream⟩
      have hplain : u.plaintext A = [] := by
        apply List.eq_nil_of_length_eq_zero
        have hle := u.written_le A
        omega
      refine ⟨u, hu, hkey, haad, ?_, ?_⟩
      · rw [u.completed_iff, hplain, hsize, List.length_nil]
      · rw [hout, hplain, List.flatten_nil]
    -- the first chunks of an upload, as many bytes as it declares
    · obtain ⟨u, hu, hkey, haad, -, hsize, hchunks⟩ := hend.source hout
      have hle := u.written_le A
      have heq : outputs'.flatten.flatten = u.plaintext A := by
        apply (Upload.flatten_prefix A hchunks).eq_of_length_le
        omega
      refine ⟨u, hu, hkey, haad, ?_, heq⟩
      rw [u.completed_iff, ← heq]
      omega

end Ideal

end Run

def padEncrypt (_ : MediaKey) (_ _ m : Bytes) : Option Bytes := some (m ++ List.replicate tagLen 0)

def loggedCipher (log : List (Entry MediaKey)) : Aead MediaKey := ⟨padEncrypt, lookup log⟩

def sampleKey : MediaKey := ⟨List.replicate 32 7, rfl⟩

def sampleNonce : Block 16 := List.Vector.replicate 16 3

def sampleUpload : Upload := ⟨sampleKey, [1, 2], sampleNonce, 3, by norm_num, [[4, 5, 6]]⟩

def sampleLog : List (Entry MediaKey) := sampleUpload.entries (loggedCipher [])

def sampleCuts : List Bytes :=
  [(mediaHeader 3 sampleNonce).take 5, (mediaHeader 3 sampleNonce).drop 5 ++ [0, 0, 0, 19, 4],
    [5, 6] ++ List.replicate tagLen 0]

theorem sample_ideal : IdealAt sampleKey
    ([sampleUpload].flatMap (Upload.entries (loggedCipher sampleLog)))
    (loggedCipher sampleLog).decrypt := by
  intro n a m c h
  have hmem := lookup_ideal sampleLog sampleKey n a m c h
  rw [List.flatMap_singleton]
  exact hmem

theorem released_authentic_sample :
    ([sampleUpload].map Upload.noncePrefix).Nodup ∧ ∃ (d : MediaDecryptor),
      MediaDecryptor.withKey sampleKey.toList [1, 2] = .ok d ∧
      ∃ (outputs : List (List Bytes)) (errors : List IoError) (lost : List Bytes),
        (trace (MediaDecryptor.push (loggedCipher sampleLog) 64) d sampleCuts).map Prod.snd =
          outputs.map Except.ok ++ errors.map Except.error ∧ (errors = [] → lost = []) ∧
        (∀ n, (final (MediaDecryptor.push (loggedCipher sampleLog) 64) d (sampleCuts.take n)).written =
            (acceptedAfter outputs lost n).flatten.length ∧
          (final (MediaDecryptor.push (loggedCipher sampleLog) 64) d (sampleCuts.take n)).index =
            (acceptedAfter outputs lost n).length) ∧
        (final (MediaDecryptor.push (loggedCipher sampleLog) 64) d sampleCuts).written =
          (outputs.flatten ++ lost).flatten.length ∧
        (final (MediaDecryptor.push (loggedCipher sampleLog) 64) d sampleCuts).index =
          (outputs.flatten ++ lost).length ∧
        (outputs.flatten ++ lost ≠ [] → ∃ u ∈ [sampleUpload], u.key = sampleKey ∧ u.aadPrefix = [1, 2] ∧
          outputs.flatten ++ lost <+: u.chunks (loggedCipher sampleLog) ∧
          outputs.flatten.flatten <+: u.plaintext (loggedCipher sampleLog)) :=
  have hnonces : ([sampleUpload].map Upload.noncePrefix).Nodup := List.nodup_singleton _
  ⟨hnonces, _, decryptor_eq sampleKey [1, 2],
    released_authentic sample_ideal hnonces (decryptor_eq sampleKey [1, 2]) sampleCuts⟩

theorem completed_authentic_iff_sample :
    ([sampleUpload].map Upload.noncePrefix).Nodup ∧ ∃ (d : MediaDecryptor),
      MediaDecryptor.withKey sampleKey.toList [1, 2] = .ok d ∧
      ((∀ (outputs : List (List Bytes)) (n : ℕ),
          (trace (MediaDecryptor.push (loggedCipher sampleLog) 64) d sampleCuts).map Prod.snd =
            outputs.map Except.ok →
          (final (MediaDecryptor.push (loggedCipher sampleLog) 64) d sampleCuts).finish = .ok n →
          ∃ u ∈ [sampleUpload], u.key = sampleKey ∧ u.aadPrefix = [1, 2] ∧
            u.Completed (loggedCipher sampleLog) ∧
            outputs.flatten.flatten = u.plaintext (loggedCipher sampleLog)) ↔
        ((∃ noncePrefix, sampleCuts.flatten = mediaHeader 0 noncePrefix) →
          ∃ u ∈ [sampleUpload], u.key = sampleKey ∧ u.aadPrefix = [1, 2] ∧ u.plaintextSize = 0)) :=
  have hnonces : ([sampleUpload].map Upload.noncePrefix).Nodup := List.nodup_singleton _
  ⟨hnonces, _, decryptor_eq sampleKey [1, 2],
    completed_authentic_iff sample_ideal hnonces (decryptor_eq sampleKey [1, 2]) sampleCuts⟩

/-- The node replaces an attachment by an empty one. -/
theorem forged_empty_file : ∃ (d : MediaDecryptor) (outputs : List (List Bytes)),
    IdealAt sampleKey ([sampleUpload].flatMap (Upload.entries (loggedCipher sampleLog)))
      (loggedCipher sampleLog).decrypt ∧
    MediaDecryptor.withKey sampleKey.toList [1, 2] = .ok d ∧
    (trace (MediaDecryptor.push (loggedCipher sampleLog) 64) d [mediaHeader 0 sampleNonce]).map
      Prod.snd = outputs.map Except.ok ∧
    (final (MediaDecryptor.push (loggedCipher sampleLog) 64) d [mediaHeader 0 sampleNonce]).finish =
    .ok 0 ∧ ¬ ∃ u ∈ [sampleUpload], u.key = sampleKey ∧ u.aadPrefix = [1, 2] ∧
      u.Completed (loggedCipher sampleLog) ∧
      outputs.flatten.flatten = u.plaintext (loggedCipher sampleLog) := by
  have hd := decryptor_eq sampleKey [1, 2]
  obtain ⟨outputs, htrace, hout, hfinish⟩ :=
    empty_accepted (loggedCipher sampleLog) 64 hd
      (List.flatten_singleton : [mediaHeader 0 sampleNonce].flatten = mediaHeader 0 sampleNonce)
  refine ⟨_, outputs, sample_ideal, hd, htrace, hfinish, ?_⟩
  rintro ⟨u, hu, -, -, -, hplain⟩
  obtain rfl := List.mem_singleton.mp hu
  rw [hout] at hplain
  have hsome : sampleUpload.plaintext (loggedCipher sampleLog) = [4, 5, 6] := by decide +kernel
  rw [hsome] at hplain
  cases hplain

section Swallowed
variable {piece : Bytes} (hpiece : piece.length = mediaChunkSize)

def longUpload (piece : Bytes) : Upload :=
  ⟨sampleKey, [1, 2], sampleNonce, mediaChunkSize + 1, by norm_num [mediaChunkSize], [piece]⟩

def longEntry (piece : Bytes) : Entry MediaKey :=
  ⟨sampleKey, mediaNonce sampleNonce 0,
    mediaChunkAad [1, 2] (longUpload piece).start.header 0 piece.length, piece,
    piece ++ List.replicate tagLen 0⟩

def longStream (piece : Bytes) : Bytes :=
  (longUpload piece).start.header ++
    (beBytes 4 (piece.length + tagLen) ++ (piece ++ List.replicate tagLen 0) ++ [0, 0, 0, 0])

theorem zero_length_rejected (A : Aead MediaKey) (bits : ℕ) {d : MediaCursor}
    (hread : d.headerRead = true) (hmore : d.written < d.plaintextSize) :
    mediaNext A bits d [0, 0, 0, 0] = .fail 0 d (invalidData "invalid E2E media chunk length") := by
  rw [mediaNext, if_neg (by simp [hread]), if_neg (not_le.mpr hmore), if_neg (by decide)]
  exact if_pos (by simp [mediaTagSize, ofBe])

include hpiece

theorem long_fits : Fits (longUpload piece).start piece := by
  refine ⟨?_, hpiece.le, ?_, fun _ => hpiece, (longUpload piece).size_lt, le_rfl⟩
  · rw [← List.length_pos_iff, hpiece]
    decide
  · change 0 + piece.length ≤ mediaChunkSize + 1
    omega

theorem long_entries (log : List (Entry MediaKey)) :
    (longUpload piece).entries (loggedCipher log) = [longEntry piece] := by
  have hseal := (long_fits hpiece).sealChunk (A := loggedCipher log)
    (c := piece ++ List.replicate tagLen 0) rfl
  change sealedEntries _ _ [piece] = _
  rw [sealedEntries, hseal]
  simp only [sealedEntries, List.drop_left' (beBytes_length 4 _)]
  rfl

theorem swallowed_push {d : MediaDecryptor}
    (hd : MediaDecryptor.withKey sampleKey.toList [1, 2] = .ok d) :
    d.push (loggedCipher [longEntry piece]) 64 (longStream piece) =
      (⟨cursorOf (advanceBy (longUpload piece).start piece), [0, 0, 0, 0]⟩,
        .error (invalidData "invalid E2E media chunk length")) := by
  rw [decryptor_eq] at hd
  cases hd
  have hnext := mediaNext_productive (loggedCipher [longEntry piece]) 64
  have hfits := long_fits hpiece
  have hlen : (piece ++ List.replicate tagLen 0).length = piece.length + tagLen := by simp
  have hheader := (header_follows (loggedCipher [longEntry piece]) 64 (e := (longUpload piece).start)
    (d := ⟨sampleKey, [1, 2], blockOf 16 [], 0, 0, 0, false⟩) rfl rfl (longUpload piece).size_lt).1
  have hchunk := (hfits.decrypts (A := loggedCipher [longEntry piece]) hlen
    (by simp [decrypted, cursorOf, encryptor, MediaEncryptor.header, MediaCursor.header,
      loggedCipher, lookup, longEntry, longUpload, Upload.start])).1
  have hbad := zero_length_rejected (loggedCipher [longEntry piece]) 64
    (d := cursorOf (advanceBy (longUpload piece).start piece)) rfl
    (by change 0 + piece.length < mediaChunkSize + 1; omega)
  rw [hlen] at hchunk
  rw [push_eq_drainAll, decryptor, List.nil_append, longStream, drainAll_take hnext (hheader _),
    List.drop_left, drainAll_take hnext (hchunk _), List.drop_left, drainAll_fail hnext hbad]
  rfl

theorem swallowed_run {d : MediaDecryptor}
    (hd : MediaDecryptor.withKey sampleKey.toList [1, 2] = .ok d) :
    IdealAt sampleKey ([longUpload piece].flatMap (Upload.entries (loggedCipher [longEntry piece])))
      (loggedCipher [longEntry piece]).decrypt ∧
    (trace (MediaDecryptor.push (loggedCipher [longEntry piece]) 64) d [longStream piece]).map
      Prod.snd = [.error (invalidData "invalid E2E media chunk length")] ∧
    (final (MediaDecryptor.push (loggedCipher [longEntry piece]) 64) d [longStream piece]).written =
      mediaChunkSize ∧
    (final (MediaDecryptor.push (loggedCipher [longEntry piece]) 64) d [longStream piece]).index =
      1 := by
  have hpush := swallowed_push hpiece hd
  refine ⟨?_, ?_, ?_, ?_⟩
  · intro n a m c h
    rw [List.flatMap_singleton, long_entries hpiece]
    exact lookup_ideal [longEntry piece] sampleKey n a m c h
  · simp only [trace, List.map_cons, List.map_nil, hpush]
  · rw [final_cons, final_nil, hpush]
    change 0 + piece.length = mediaChunkSize
    rw [hpiece, Nat.zero_add]
  · rw [final_cons, final_nil, hpush]
    rfl

end Swallowed

theorem written_ahead_of_release :
    ∃ (A : Aead MediaKey) (u : Upload) (d : MediaDecryptor) (stream : Bytes),
    IdealAt u.key ([u].flatMap (Upload.entries A)) A.decrypt ∧
    MediaDecryptor.withKey u.key.toList u.aadPrefix = .ok d ∧
    (trace (MediaDecryptor.push A 64) d [stream]).map Prod.snd =
      [.error (invalidData "invalid E2E media chunk length")] ∧
    (final (MediaDecryptor.push A 64) d [stream]).written = mediaChunkSize ∧
    (final (MediaDecryptor.push A 64) d [stream]).index = 1 := by
  have hd := decryptor_eq sampleKey [1, 2]
  obtain ⟨hideal, htrace, hwritten, hindex⟩ :=
    swallowed_run (List.length_replicate : (List.replicate mediaChunkSize (0 : UInt8)).length = _) hd
  exact ⟨_, longUpload (List.replicate mediaChunkSize 0), _, _, hideal, hd, htrace, hwritten, hindex⟩

end Mst5Client.MediaAuthenticity
