import Mst5Client.CborRoundTrip
import Mst5Client.MediaAuthenticity
import Mst5Client.MediaDownloads
import Mst5Client.SealedUploads

set_option autoImplicit false

/-!
# Encrypted media downloads of the native client

`download_media_e2e_with_decryptor` of `src/lib.rs`.
-/
namespace Mst5Client.SealedDownloads
open ByteOrder AuthenticatedCipher IoResult ProgramEnvironments CborValues ConnectionState
open MachineRuns MediaSteps MediaRoundTrip MediaUploads MediaAuthenticity
open MediaStreams UploadSteps MediaDownloads SealedUploads
open MediaContainer (MediaKey MediaEncryptor MediaDecryptor)

section Downloads
variable (A : Aead MediaKey) (sha256 : Bytes → Block 32) (bits : ℕ) (client : MediaClient) (now : ℕ)
  (fileId : String)

def writeChunks : List Bytes → ℕ → Transfer ℕ
  | [], plaintext => return plaintext
  | chunk :: chunks, plaintext => do
    writeAll chunk
    writeChunks chunks ((plaintext + chunk.length) % 2 ^ 64) -- `+=` of a release build

/-- The loop, with the bytes counted and hashed so far and the bytes written. -/
def receiveSealed (id announced : ℕ) (failure : IoError) :
    List Frame → MediaDecryptor → ℕ → Bytes → ℕ → Transfer ℕ
  | [], _, _, _, _ => throw failure
  | frame :: frames, decryptor, received, hashed, plaintext =>
    if frame.id ≠ id then throw (invalidData "media stream id mismatch")
    else if frame.kind = kindStreamData then
      if frame.payload = [] ∨ mediaChunkSize < frame.payload.length then
        throw (invalidData "invalid media chunk")
      else match checkedAdd received frame.payload.length with
        | none => throw (invalidData "media size overflow")
        | some received =>
          if announced < received then throw (invalidData "media exceeds announced size")
          else match decryptor.push A bits frame.payload with
            | (_, .error error) => throw error
            | (decryptor, .ok chunks) => do
              let plaintext ← writeChunks chunks plaintext
              receiveSealed id announced failure frames decryptor received (hashed ++ frame.payload)
                plaintext
    else if frame.kind = kindStreamEnd then do
      let ending ← fromExcept (decodeCbor bits frame.payload)
      if received ≠ announced ∨ ¬ Announces sha256 ending received hashed then
        throw (invalidData "media download checksum mismatch")
      else do
        let finalSize ← fromExcept decryptor.finish
        if finalSize ≠ plaintext then throw (invalidData "E2E media plaintext size mismatch")
        else do
          flush
          return plaintext
    else if frame.kind = kindError then do
      let value ← fromExcept (decodeCbor bits frame.payload)
      throw (apiResponseError frame.code value)
    else throw (invalidData "unexpected media download frame")

def downloadMediaE2eWithDecryptor (expectedEncryptedSize : UInt64) (decryptor : MediaDecryptor)
    (frames : List Frame) (failure : IoError) : Transfer ℕ :=
  openDownload bits client now fileId expectedEncryptedSize frames failure fun id announced frames =>
    receiveSealed A sha256 bits id announced failure frames decryptor 0 [] 0

end Downloads

section Releases
variable {A : Aead MediaKey} {bits : ℕ} {d d' : MediaDecryptor} {payload written : Bytes}
  {chunks : List Bytes} {x : Except IoError ℕ} {log : List StreamEvent}

/-- What is written is a beginning of what the decryptor releases, and all of it when the download
succeeds. -/
def Releases (A : Aead MediaKey) (bits : ℕ) (d : MediaDecryptor) (written : Bytes)
    (x : Except IoError ℕ) : Prop :=
  ∃ (cuts : List Bytes) (outputs : List (List Bytes)),
    (trace (MediaDecryptor.push A bits) d cuts).map Prod.snd = outputs.map Except.ok ∧
    written <+: outputs.flatten.flatten ∧
    ∀ n, x = .ok n → written = outputs.flatten.flatten ∧
      (final (MediaDecryptor.push A bits) d cuts).finish = .ok n

theorem pushed_cons {cuts : List Bytes} {outputs : List (List Bytes)}
    (h : (trace (MediaDecryptor.push A bits) d (payload :: cuts)).map Prod.snd =
      outputs.map Except.ok) :
    ∃ chunks rest d', outputs = chunks :: rest ∧ d.push A bits payload = (d', .ok chunks) ∧
      (trace (MediaDecryptor.push A bits) d' cuts).map Prod.snd = rest.map Except.ok := by
  cases outputs with
  | nil => cases h
  | cons chunks rest =>
    obtain ⟨hpush, hrest⟩ := List.cons.inj h
    exact ⟨chunks, rest, _, rfl, Prod.ext rfl hpush, hrest⟩

theorem releases_error (error : IoError) : Releases A bits d [] (.error error) :=
  ⟨[], [], rfl, List.nil_prefix, nofun⟩

theorem releases_finish {n : ℕ} (h : d.finish = .ok n) : Releases A bits d [] (.ok n) :=
  ⟨[], [], rfl, List.nil_prefix, fun _ hn => ⟨rfl, Except.ok.inj hn ▸ h⟩⟩

theorem finish_written {n : ℕ} (h : d.finish = .ok n) : d.written = n := by
  unfold MediaDecryptor.finish at h
  split_ifs at h
  exact Except.ok.inj h

theorem releases_part (h : d.push A bits payload = (d', .ok chunks))
    (hwritten : written <+: chunks.flatten) (error : IoError) :
    Releases A bits d written (.error error) := by
  refine ⟨[payload], [chunks], ?_, ?_, nofun⟩
  · rw [trace, h]
    rfl
  · rw [List.flatten_singleton]
    exact hwritten

theorem Releases.push (h : Releases A bits d' written x)
    (hpush : d.push A bits payload = (d', .ok chunks)) :
    Releases A bits d (chunks.flatten ++ written) x := by
  obtain ⟨cuts, outputs, htrace, hstart, hdone⟩ := h
  refine ⟨payload :: cuts, chunks :: outputs, ?_, ?_, ?_⟩
  · rw [trace, hpush, List.map_cons, htrace]
    rfl
  · rw [List.flatten_cons, List.flatten_append]
    exact (List.prefix_append_right_inj _).mpr hstart
  · intro n hn
    rw [List.flatten_cons, List.flatten_append, final_cons, hpush]
    exact ⟨congrArg _ (hdone n hn).1, (hdone n hn).2⟩

theorem writeChunks_spec (chunks : List Bytes) (plaintext : ℕ) :
    Ensures log (fun log' x => ∃ written, writtenOf log' = writtenOf log ++ written ∧
      written <+: chunks.flatten ∧
      ∀ n, x = .ok n → written = chunks.flatten) (writeChunks chunks plaintext).run := by
  induction chunks generalizing plaintext log with
  | nil => exact ⟨[], (List.append_nil _).symm, List.nil_prefix, fun _ _ => rfl⟩
  | cons chunk chunks ih =>
    refine (writeAll_spec chunk).tryBind ?_ ?_
    · rintro _ _ (⟨-, rfl⟩ | ⟨_, _, h, -⟩)
      · refine (ih _).mono ?_
        rintro log' x ⟨written, hlog, hstart, hdone⟩
        refine ⟨chunk ++ written, ?_, (List.prefix_append_right_inj _).mpr hstart, fun n hn => ?_⟩
        · rw [hlog, writtenOf_append, List.append_assoc]
          exact congrArg (writtenOf log ++ ·) (congrArg (· ++ written) (List.append_nil chunk))
        · rw [hdone n hn]
          rfl
      · cases h
    · rintro _ _ (⟨h, -⟩ | ⟨count, error, h, rfl⟩)
      · cases h
      · refine ⟨chunk.take count, ?_, (List.take_prefix _ _).trans (List.prefix_append _ _), nofun⟩
        rw [writtenOf_append]
        exact congrArg (writtenOf log ++ ·) (List.append_nil _)

variable {sha256 : Bytes → Block 32} {id announced : ℕ} {failure : IoError}

theorem receiveSealed_spec (frames : List Frame) (d : MediaDecryptor) (received : ℕ)
    (hashed : Bytes) (plaintext : ℕ) :
    Ensures log (fun log' x => ∃ written, writtenOf log' = writtenOf log ++ written ∧
      Releases A bits d written x)
      (receiveSealed A sha256 bits id announced failure frames d received hashed plaintext).run := by
  have hstop : ∀ {d : MediaDecryptor} {log : List StreamEvent} (error : IoError), ∃ written,
      writtenOf log = writtenOf log ++ written ∧ Releases A bits d written (.error error) :=
    fun error => ⟨[], (List.append_nil _).symm, releases_error error⟩
  induction frames generalizing d received hashed plaintext log with
  | nil => exact hstop failure
  | cons frame frames ih =>
    rw [receiveSealed]
    split_ifs with hid hdata hchunk hend herror
    · exact hstop _
    · exact hstop _
    · split
      · exact hstop _
      · split_ifs
        · exact hstop _
        · split
          · exact hstop _
          · rename_i d' chunks hpush
            refine (writeChunks_spec chunks plaintext).tryBind ?_ ?_
            · rintro log' count ⟨_, hlog, -, hall⟩
              obtain rfl := hall count rfl
              refine (ih d' _ _ count).mono ?_
              rintro _ _ ⟨written, hlog', hreleases⟩
              exact ⟨_, by rw [hlog', hlog, List.append_assoc], hreleases.push hpush⟩
            · rintro _ error ⟨written, hlog, hstart, -⟩
              exact ⟨written, hlog, releases_part hpush hstart error⟩
    · refine Ensures.tryBind (Q := fun log' _ => log' = log) rfl ?_
        (by rintro _ error rfl; exact hstop error)
      rintro log ending rfl
      split_ifs
      · exact hstop _
      · refine Ensures.tryBind (Q := fun log' y => log' = log ∧ y = d.finish) ⟨rfl, rfl⟩ ?_
          (by rintro _ error ⟨rfl, -⟩; exact hstop error)
        rintro log finalSize ⟨rfl, hfinish⟩
        split_ifs with hsize
        · exact hstop _
        · refine Ensures.tryBind (Ensures.perform (Q := fun log' y => log' = log ++ [⟨.flush, y⟩])
            fun _ => rfl) ?_ ?_
          · rintro _ _ rfl
            refine ⟨[], ?_, releases_finish (not_not.mp hsize ▸ hfinish.symm)⟩
            rw [writtenOf_append]
            rfl
          · rintro _ error rfl
            refine ⟨[], ?_, releases_error error⟩
            rw [writtenOf_append]
            rfl
    · refine Ensures.tryBind (Q := fun log' _ => log' = log) rfl ?_
        (by rintro _ error rfl; exact hstop error)
      rintro _ value rfl
      exact hstop _
    · exact hstop _

variable {client : MediaClient} {now : ℕ} {fileId : String} {expectedEncryptedSize : UInt64}
  {frames : List Frame}

theorem downloadSealed_spec :
    Ensures [] (fun log x => Releases A bits d (writtenOf log) x)
      (downloadMediaE2eWithDecryptor A sha256 bits client now fileId expectedEncryptedSize d frames
        failure).run := by
  refine openDownload_spec (fun _ hlog error => hlog ▸ releases_error error) ?_
  intro accepted rest opening _ _ hopening
  refine (receiveSealed_spec rest d 0 [] 0).mono ?_
  rintro log' x ⟨written, hwritten, hreleases⟩
  rw [hwritten, hopening]
  exact hreleases

end Releases

/-- What is written is a beginning of the plaintext of one upload under the same key and prefix. A
download that succeeds has written all of it, unless it has written nothing. -/
def Authentic (A : Aead MediaKey) (uploads : List Upload) (key : MediaKey) (aadPrefix : Bytes)
    (log : List StreamEvent) (x : Except IoError ℕ) : Prop :=
  (writtenOf log ≠ [] → ∃ u ∈ uploads, u.key = key ∧ u.aadPrefix = aadPrefix ∧
    writtenOf log <+: u.plaintext A) ∧
  ∀ n, x = .ok n → n = (writtenOf log).length ∧
    (n ≠ 0 → ∃ u ∈ uploads, u.key = key ∧ u.aadPrefix = aadPrefix ∧
    u.Completed A ∧ writtenOf log = u.plaintext A)

/-- Whatever the node sends and however the target behaves, with an ideal cipher only uploads are
written. -/
theorem sealed_download_authentic {A : Aead MediaKey} {uploads : List Upload} {key : MediaKey}
    (hideal : IdealAt key (uploads.flatMap (Upload.entries A)) A.decrypt)
    (hnonces : (uploads.map Upload.noncePrefix).Nodup) {aadPrefix : Bytes} {d : MediaDecryptor}
    (hd : MediaDecryptor.withKey key.toList aadPrefix = .ok d) (sha256 : Bytes → Block 32)
    (bits : ℕ) (client : MediaClient) (now : ℕ) (fileId : String) (expectedEncryptedSize : UInt64)
    (frames : List Frame) (failure : IoError) :
    Ensures [] (Authentic A uploads key aadPrefix)
      (downloadMediaE2eWithDecryptor A sha256 bits client now fileId expectedEncryptedSize d frames
        failure).run := by
  refine downloadSealed_spec.mono ?_
  rintro log x ⟨cuts, outputs, htrace, hstart, hdone⟩
  obtain ⟨outputs', errors, lost, hsplit, hlost, hend⟩ :=
    (Progress.fromKey hd).ended hideal hnonces bits cuts
  obtain ⟨rfl, rfl⟩ := all_ok (hsplit.symm.trans htrace)
  rw [hlost rfl, List.append_nil, List.nil_append, List.nil_append] at hend
  refine ⟨fun hwritten => ?_, fun n hn => ?_⟩
  · have hout : outputs'.flatten ≠ [] := by
      rintro hnone
      rw [hnone] at hstart
      exact hwritten (List.prefix_nil.mp hstart)
    obtain ⟨u, hu, hkey, haad, -, -, hchunks⟩ := hend.source hout
    exact ⟨u, hu, hkey, haad, hstart.trans (Upload.flatten_prefix A hchunks)⟩
  · obtain ⟨hwritten, hfinish⟩ := hdone n hn
    obtain ⟨-, hsize, -⟩ := finish_eq_ok hfinish
    have hlen : n = (writtenOf log).length := by rw [hwritten, ← hend.written, finish_written hfinish]
    refine ⟨hlen, fun hne => ?_⟩
    have hout : outputs'.flatten ≠ [] := by
      intro hnone
      rw [hwritten, hnone] at hlen
      exact hne hlen
    obtain ⟨u, hu, hkey, haad, -, hplain, hchunks⟩ := hend.source hout
    have hle := u.written_le A
    have heq : outputs'.flatten.flatten = u.plaintext A := by
      apply (Upload.flatten_prefix A hchunks).eq_of_length_le
      rw [← hend.written]
      omega
    refine ⟨u, hu, hkey, haad, ?_, hwritten.trans heq⟩
    rw [u.completed_iff, ← heq, ← hend.written]
    omega

def sampleServed : List Frame :=
  sampleAccepted 55 :: (sampleCuts.map (⟨kindStreamData, 0, 0, 7, zeroNonce, 0, ·⟩) ++
    [⟨kindStreamEnd, 0, 200, 7, zeroNonce, 0,
      encodeCbor (digestEnding sampleDigest 55 sampleCuts.flatten)⟩])

def sampleSealedDownload : StreamProg (Except IoError ℕ) :=
  (downloadMediaE2eWithDecryptor (loggedCipher MediaAuthenticity.sampleLog) sampleDigest 64
    sampleClient 5 "f" 55
    ⟨⟨sampleKey, [1, 2], blockOf 16 [], 0, 0, 0, false⟩, []⟩ sampleServed (invalidData "closed")).run

/-- The node serves the container of an upload, and its three bytes are written. -/
theorem sealed_download_authentic_sample :
    ∃ log, interact (obliging 7 (sampleAccepted 55) (sampleAccepted 55)) sampleSealedDownload [] =
      (log, .ok 3) ∧ writtenOf log = [4, 5, 6] ∧
      Authentic (loggedCipher MediaAuthenticity.sampleLog) [sampleUpload] sampleKey [1, 2] log
        (.ok 3) := by
  have hensures : Ensures []
      (Authentic (loggedCipher MediaAuthenticity.sampleLog) [sampleUpload] sampleKey [1, 2])
      sampleSealedDownload :=
    sealed_download_authentic sample_ideal (List.nodup_singleton _) (decryptor_eq sampleKey [1, 2])
      sampleDigest 64 sampleClient 5 "f" 55 _ _
  have hran := hensures.interacts (obliging 7 (sampleAccepted 55) (sampleAccepted 55))
  have hresult : (interact (obliging 7 (sampleAccepted 55) (sampleAccepted 55))
      sampleSealedDownload []).2 = .ok 3 := by
    decide +kernel
  have hwritten : writtenOf (interact (obliging 7 (sampleAccepted 55) (sampleAccepted 55))
      sampleSealedDownload []).1 = [4, 5, 6] := by
    decide +kernel
  rw [hresult] at hran
  refine ⟨_, ?_, hwritten, hran⟩
  rw [← hresult]

variable {A : Aead MediaKey} (sha256 : Bytes → Block 32) {bits id announced received count : ℕ}
  (failure : IoError) {d : MediaDecryptor} (ack last : Frame) {data : List Frame}
  (rest : List Frame) {outputs : List (List Bytes)}

/-- The node announces the bytes, sends them in any pieces and ends the stream with their length and
digest. -/
structure Serves (sha256 : Bytes → Block 32) (bits : ℕ) (bytes : Bytes) (accepted : Frame)
    (data : List Frame) (last : Frame) : Prop where
  agrees : Agrees bits (UInt64.ofNat bytes.length) accepted
  pieces : ∀ frame ∈ data, acceptable accepted.id frame = true
  whole : data.flatMap Frame.payload = bytes
  id : last.id = accepted.id
  kind : last.kind = kindStreamEnd
  announces : ∃ ending, decodeCbor bits last.payload = .ok ending ∧
    Announces sha256 ending bytes.length bytes

theorem interact_writeChunks (id : ℕ) (log : List StreamEvent) {chunks : List Bytes}
    (h : count + chunks.flatten.length < 2 ^ 64) :
    ∃ new, writtenOf new = chunks.flatten ∧ interact (obliging id ack last)
      (writeChunks chunks count).run log = (log ++ new, .ok (count + chunks.flatten.length)) := by
  induction chunks generalizing count log with
  | nil => exact ⟨[], rfl, by rw [List.append_nil]; rfl⟩
  | cons chunk chunks ih =>
    rw [List.flatten_cons, List.length_append] at h ⊢
    have hcount : (count + chunk.length) % 2 ^ 64 = count + chunk.length := Nat.mod_eq_of_lt (by omega)
    rw [← Nat.add_assoc] at h ⊢
    obtain ⟨new, hnew, hrun⟩ := ih (log ++ [⟨.writeAll chunk, .all⟩]) h
    refine ⟨⟨.writeAll chunk, .all⟩ :: new, congrArg (chunk ++ ·) hnew, ?_⟩
    rw [writeChunks, hcount]
    refine (interact_tryThen rfl _).trans (hrun.trans ?_)
    rw [List.append_assoc]
    rfl

theorem interact_receiveSealed
    (hpushed : (trace (MediaDecryptor.push A bits) d (data.map Frame.payload)).map Prod.snd =
      outputs.map Except.ok)
    (hdata : ∀ frame ∈ data, acceptable id frame = true)
    (hroom : received + (data.flatMap Frame.payload).length ≤ announced)
    (hannounced : announced < 2 ^ 64) (hcount : count + outputs.flatten.flatten.length < 2 ^ 64)
    (hashed : Bytes) (log : List StreamEvent) : ∃ new, writtenOf new = outputs.flatten.flatten ∧
      interact (obliging id ack last)
          (receiveSealed A sha256 bits id announced failure (data ++ rest) d received hashed
        count).run log = interact (obliging id ack last)
          (receiveSealed A sha256 bits id announced failure rest
            (final (MediaDecryptor.push A bits) d (data.map Frame.payload))
            (received + (data.flatMap Frame.payload).length) (hashed ++ data.flatMap Frame.payload)
            (count + outputs.flatten.flatten.length)).run (log ++ new) := by
  induction data generalizing d received hashed count outputs log with
  | nil =>
    obtain rfl : outputs = [] := List.map_eq_nil_iff.mp hpushed.symm
    refine ⟨[], rfl, ?_⟩
    rw [List.flatMap_nil, List.append_nil, List.append_nil]
    rfl
  | cons frame data ih =>
    obtain ⟨chunks, outputs, d', rfl, hpush, hrest⟩ := pushed_cons hpushed
    obtain ⟨hframe, hdata⟩ := List.forall_mem_cons.mp hdata
    simp only [acceptable, Bool.and_eq_true, decide_eq_true_eq, Bool.not_eq_true',
      List.isEmpty_eq_false_iff] at hframe
    obtain ⟨⟨⟨hid, hkind⟩, hne⟩, hle⟩ := hframe
    rw [List.flatMap_cons, List.length_append, ← Nat.add_assoc] at hroom
    rw [List.flatten_cons, List.flatten_append, List.length_append, ← Nat.add_assoc] at hcount
    have hadd : checkedAdd received frame.payload.length = some (received + frame.payload.length) :=
      checkedAdd_of_lt (by omega)
    obtain ⟨first, hfirst, hwrite⟩ :=
      interact_writeChunks ack last id log (Nat.lt_of_le_of_lt (Nat.le_add_right _ _) hcount)
    obtain ⟨new, hnew, hloop⟩ := ih hrest hdata hroom hcount (hashed ++ frame.payload) (log ++ first)
    refine ⟨first ++ new, ?_, ?_⟩
    · rw [writtenOf_append, hfirst, hnew, List.flatten_cons, List.flatten_append]
    · rw [List.cons_append, receiveSealed, if_neg (not_not.mpr hid), if_pos hkind,
        if_neg (by simp [hne, hle]), hadd]
      dsimp only
      rw [if_neg (by omega), hpush]
      dsimp only
      rw [interact_tryThen hwrite, hloop, List.map_cons, final_cons, hpush, List.flatMap_cons,
        List.flatten_cons, List.flatten_append, List.length_append, List.length_append,
        List.append_assoc, List.append_assoc,
        Nat.add_assoc, Nat.add_assoc]

theorem interact_end {ending : Value} {hashed : Bytes} (hid : last.id = id)
    (hkind : last.kind = kindStreamEnd) (hdecode : decodeCbor bits last.payload = .ok ending)
    (hannounces : Announces sha256 ending announced hashed) (hfinish : d.finish = .ok count)
    (log : List StreamEvent) : interact (obliging id ack ack)
        (receiveSealed A sha256 bits id announced failure (last :: rest) d announced hashed
      count).run log = (log ++ [⟨.flush, .ok ()⟩], .ok count) := by
  rw [receiveSealed, if_neg (not_not.mpr hid), if_neg (by rw [hkind]; decide), if_pos hkind, hdecode,
    interact_tryThen rfl, if_neg (by simp [hannounces]), hfinish, interact_tryThen rfl,
    if_neg (not_not.mpr rfl)]
  rfl

/-- What one client has uploaded under a key, another one with the key downloads, however the node
cuts it. -/
theorem sealed_media_transferred {A : Aead MediaKey} (hA : Correct A) {sha256 : Bytes → Block 32}
    {random : Block 16} {key : MediaKey} {aadPrefix P : Bytes} {e : MediaEncryptor}
    {d : MediaDecryptor}
    (he : MediaEncryptor.withKey (.ok random) key.toList aadPrefix P.length = .ok e)
    (hd : MediaDecryptor.withKey key.toList aadPrefix = .ok d) {uploaded : List StreamEvent}
    (hsent : SendsContainer A e P uploaded) {accepted last : Frame} {data : List Frame}
    (hserves : Serves sha256 64 (dataOf uploaded).flatten accepted data last) {client : MediaClient}
    (hready : client.mayStream = true) (now : ℕ) (fileId : String) (rest : List Frame)
    (failure : IoError) :
    ∃ log, writtenOf log = P ∧
      interact (obliging accepted.id accepted accepted)
        (downloadMediaE2eWithDecryptor A sha256 64 client now fileId
          (UInt64.ofNat (dataOf uploaded).flatten.length) d
          (accepted :: (data ++ last :: rest)) failure).run [] = (log, .ok P.length) := by
  obtain ⟨chunks, hsealed, hbytes, hsize⟩ := hsent
  obtain ⟨htotal, hbound⟩ := encryptedMediaSize_eq_ok hsize
  have hP : P.length < 2 ^ 64 := by omega
  have hcuts : (data.map Frame.payload).flatten = e.header ++ chunks.flatten :=
    (List.flatMap_def.symm.trans hserves.whole).trans hbytes
  obtain rfl : encryptor key aadPrefix random P.length = e :=
    Except.ok.inj ((encryptor_eq key aadPrefix _ _).symm.trans he)
  obtain rfl : decryptor key aadPrefix = d :=
    Except.ok.inj ((decryptor_eq key aadPrefix).symm.trans hd)
  obtain ⟨sealedChunks, hok, -, -, hback⟩ := sealed_reads_back hA key aadPrefix random hP
  obtain rfl : sealedChunks = chunks :=
    List.map_injective_iff.mpr (fun _ _ => Except.ok.inj) (hok.symm.trans hsealed)
  obtain ⟨outputs, hpushed, hout, hfinish⟩ := hback _ hcuts
  obtain ⟨ending, hdecode, hannounces⟩ := hserves.announces
  obtain ⟨opening, hopening, hstart⟩ := interact_openDownload (fun id announced frames =>
      receiveSealed A sha256 64 id announced failure frames (decryptor key aadPrefix) 0 [] 0)
    now fileId (data ++ last :: rest) failure accepted hready hserves.agrees
  have hcount : 0 + outputs.flatten.flatten.length < 2 ^ 64 := by rwa [hout, Nat.zero_add]
  obtain ⟨new, hnew, hloop⟩ :=
    interact_receiveSealed sha256 failure accepted accepted (last :: rest) hpushed
    hserves.pieces (by rw [hserves.whole, Nat.zero_add]) hbound hcount [] opening
  rw [hserves.whole, hout, Nat.zero_add, Nat.zero_add, List.nil_append,
    interact_end sha256 failure accepted last rest hserves.id hserves.kind hdecode hannounces
      hfinish] at hloop
  refine ⟨_, ?_, hstart.trans (Eq.trans ?_ hloop)⟩
  · rw [writtenOf_append, writtenOf_append, hopening, hnew, hout]
    exact List.append_nil P
  · rw [UInt64.toNat_ofNat_of_lt' hbound]

def sampleContainer : Bytes := (dataOf (sampleSealedRun oneRead).1).flatten

def sampleFrames : List Frame :=
  [sampleContainer.take 40, sampleContainer.drop 40].map fun piece =>
    ⟨kindStreamData, 0, 0, 7, zeroNonce, 0, piece⟩

def sampleLast : Frame :=
  ⟨kindStreamEnd, 0, 200, 7, zeroNonce, 0, encodeCbor (digestEnding sampleDigest 54 sampleContainer)⟩

theorem sampleContainer_served :
    Serves sampleDigest 64 sampleContainer (sampleAccepted 54) sampleFrames sampleLast where
  agrees := ⟨rfl, rfl, by decide +kernel⟩
  pieces := by decide +kernel
  whole := by decide +kernel
  id := rfl
  kind := rfl
  announces := by
    refine ⟨_, CborRoundTrip.decode_encode le_rfl ?_ (by decide +kernel), by decide +kernel⟩
    simp [digestEnding, CborRoundTrip.Within, CborRoundTrip.EntriesWithin, CborValues.maxPlainPayload]

theorem sealed_media_transferred_two : ∃ log, writtenOf log = [1, 2] ∧
    interact (obliging 7 (sampleAccepted 54) (sampleAccepted 54))
      (downloadMediaE2eWithDecryptor sampleCipher sampleDigest 64 sampleClient 5 "f"
        (UInt64.ofNat sampleContainer.length) ⟨⟨⟨sampleMediaKey, rfl⟩, [], blockOf 16 [], 0, 0, 0,
          false⟩, []⟩
        (sampleAccepted 54 :: (sampleFrames ++ sampleLast :: [])) (invalidData "closed")).run [] =
          (log, .ok 2) := by
  have hpieces : pieces [1, 2] = [[1, 2]] := by
    rw [pieces_ne_nil (by decide)]
    simp [pieces, MediaContainer.mediaChunkSize]
  have hsent : SendsContainer sampleCipher sampleEncryptorTwo [1, 2] (sampleSealedRun oneRead).1 := by
    refine ⟨[sampleContainer.drop 32], ?_, by decide +kernel, by decide +kernel⟩
    rw [hpieces]
    decide +kernel
  have hready : sampleClient.mayStream = true := by decide
  exact sealed_media_transferred (checksumAead_correct _)
    (encryptor_eq ⟨sampleMediaKey, rfl⟩ [] sampleNoncePrefix 2) (decryptor_eq _ [])
    hsent sampleContainer_served hready 5 "f" [] _

end Mst5Client.SealedDownloads
