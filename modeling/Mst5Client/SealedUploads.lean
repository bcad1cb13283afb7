import Mst5Client.UploadConfirmation

set_option autoImplicit false

/-!
# The encrypted upload and how its source is read

Every read is sealed as a chunk of its own, and the container has room for a short chunk only at its
end.
-/
namespace Mst5Client.SealedUploads
open ByteOrder IoResult AuthenticatedCipher MachineRuns ProgramEnvironments CborValues
open ConnectionState MediaSteps MediaRoundTrip MediaStreams UploadSteps UploadConfirmation
open MediaContainer (MediaKey MediaEncryptor encryptedMediaSize mediaHeaderSize mediaTagSize checkedMul)

variable {A : Aead MediaKey} {e : MediaEncryptor} {reads chunks : List Bytes}

theorem fits_take {bytes rest : Bytes} (h : Fits e bytes)
    (hleft : e.written + (bytes ++ rest).length = e.plaintextSize) :
    (bytes ++ rest).take MediaContainer.mediaChunkSize = bytes ∧
      (bytes ++ rest).drop MediaContainer.mediaChunkSize = rest := by
  by_cases hlast : e.written + bytes.length = e.plaintextSize
  · have hrest : rest = [] := by
      rw [← List.length_eq_zero_iff]
      rw [List.length_append] at hleft
      omega
    rw [hrest, List.append_nil]
    exact ⟨List.take_of_length_le h.small, List.drop_of_length_le h.small⟩
  · have hfull := h.full hlast
    exact ⟨List.take_left' hfull, List.drop_left' hfull⟩

theorem sealed_cons {bytes : Bytes}
    (hseal : (trace (MediaEncryptor.sealChunk A) e (bytes :: reads)).map Prod.snd = chunks.map .ok) :
    ∃ chunk rest next, chunks = chunk :: rest ∧ e.sealChunk A bytes = (next, .ok chunk) ∧
      (trace (MediaEncryptor.sealChunk A) next reads).map Prod.snd = rest.map .ok := by
  cases chunks with
  | nil => cases hseal
  | cons chunk chunks =>
    rw [trace, List.map_cons, List.map_cons] at hseal
    obtain ⟨hfirst, hrest⟩ := List.cons.inj hseal
    exact ⟨chunk, chunks, _, rfl, Prod.ext rfl hfirst, hrest⟩

theorem reads_eq_pieces (he : Sound e) (hleft : e.written + reads.flatten.length = e.plaintextSize)
    (hseal : (trace (MediaEncryptor.sealChunk A) e reads).map Prod.snd = chunks.map .ok) :
    reads = pieces reads.flatten := by
  induction reads generalizing e chunks with
  | nil => rw [List.flatten_nil, pieces]
  | cons bytes reads ih =>
    obtain ⟨chunk, rest, next, rfl, hnext, hrest⟩ := sealed_cons hseal
    obtain ⟨error, herror⟩ | ⟨hfits, c, -, hsealed⟩ := sealChunk_cases A he bytes
    · rw [hnext] at herror
      cases herror
    · rw [List.flatten_cons] at hleft ⊢
      obtain ⟨htake, hdrop⟩ := fits_take hfits hleft
      rw [hnext] at hsealed
      cases hsealed
      have hnonempty : bytes ++ reads.flatten ≠ [] := List.append_ne_nil_of_left_ne_nil hfits.nonempty _
      rw [pieces_ne_nil hnonempty, htake, hdrop]
      congr 1
      refine ih hfits.sound ?_ hrest
      rw [List.length_append] at hleft
      simp only [advanceBy]
      omega

variable {sent : ℕ} {hashed : Bytes} {id : ℕ} {ack last : Frame} {log : List StreamEvent}

def dataEvent (payload : Bytes) : StreamEvent := ⟨.send kindStreamData 0 payload, .ok ()⟩

theorem dataOf_dataEvents (payloads : List Bytes) : dataOf (payloads.map dataEvent) = payloads := by
  induction payloads with
  | nil => rfl
  | cons payload payloads ih => exact congrArg (payload :: ·) ih

theorem interact_sendData (payload : Bytes) :
    interact (obliging id ack last)
    (sendData payload).run log = (log ++ [dataEvent payload], .ok ()) := rfl

theorem interact_count {len : ℕ} (h : sent + len < 2 ^ 64) :
    interact (obliging id ack last) (count sent len).run log = (log, .ok (sent + len)) := by
  rw [count, checkedAdd_of_lt h]
  rfl

theorem interact_transmitSealed
    (hseal : (trace (MediaEncryptor.sealChunk A) e reads).map Prod.snd = chunks.map .ok)
    (hroom : sent + chunks.flatten.length < 2 ^ 64) :
    interact (obliging id ack last) (transmitSealed A none reads e sent hashed).run log =
      (log ++ chunks.map dataEvent,
        .ok (final (MediaEncryptor.sealChunk A) e reads, sent + chunks.flatten.length,
          hashed ++ chunks.flatten)) := by
  induction reads generalizing e chunks sent hashed log with
  | nil =>
    obtain rfl : chunks = [] := List.map_eq_nil_iff.mp hseal.symm
    rw [List.map_nil, List.append_nil, List.flatten_nil, List.append_nil]
    rfl
  | cons bytes reads ih =>
    obtain ⟨chunk, rest, next, rfl, hnext, hrest⟩ := sealed_cons hseal
    rw [List.flatten_cons, List.length_append] at hroom
    rw [transmitSealed, hnext]
    refine (interact_tryThen (interact_count (by omega)) _).trans ?_
    refine (interact_tryThen (interact_sendData _) _).trans ?_
    rw [ih hrest (by omega), final_cons, hnext, List.flatten_cons, List.length_append,
      List.append_assoc, List.append_assoc, Nat.add_assoc]
    rfl

theorem transmitSealed_sealed (A : Aead MediaKey) (e : MediaEncryptor) (failure : Option IoError)
    (reads : List Bytes) (sent : ℕ) (hashed : Bytes) (log : List StreamEvent) :
    Ensures log (fun _ x => ∀ y, x = .ok y → ∃ chunks : List Bytes,
      (trace (MediaEncryptor.sealChunk A) e reads).map Prod.snd = chunks.map .ok)
      (transmitSealed A failure reads e sent hashed).run := by
  have hfail : ∀ {P : Prop} (error : IoError) (y : MediaEncryptor × ℕ × Bytes),
      (.error error : Except IoError _) = .ok y → P := by
    intro P error y h
    cases h
  induction reads generalizing e sent hashed log with
  | nil =>
    cases failure with
    | none => exact fun _ _ => ⟨[], rfl⟩
    | some error => exact (refuse_spec 500 error).mono fun _ _ _ _ _ => ⟨[], rfl⟩
  | cons bytes reads ih =>
    rw [transmitSealed]
    cases hseal : e.sealChunk A bytes with
    | mk next x =>
      cases x with
      | error error => exact hfail error
      | ok chunk =>
        refine (Ensures.of_uses (holds_fromExcept _)).tryBind ?_ (fun _ error _ => hfail error)
        intro log sent _
        refine (Ensures.of_uses (holds_sendData _)).tryBind ?_ (fun _ error _ => hfail error)
        intro log _ _
        refine (ih next _ _ log).mono ?_
        intro log x hx y hy
        obtain ⟨chunks, hchunks⟩ := hx y hy
        refine ⟨chunk :: chunks, ?_⟩
        rw [trace, List.map_cons, List.map_cons, hseal, hchunks]

variable {sha256 : Bytes → Block 32} {bits : ℕ} {client : MediaClient} {now : ℕ} {fileId : String}
variable {source : Source MediaContainer.mediaChunkSize} {size total : ℕ}

theorem withKey_fresh {random : Except String (Block 16)} {key aadPrefix : Bytes}
    (h : MediaEncryptor.withKey random key aadPrefix size = .ok e) :
    e.written = 0 ∧ e.index = 0 ∧ e.plaintextSize = size := by
  unfold MediaEncryptor.withKey at h
  split at h
  · cases h
  · split at h
    · cases h
    · cases h
      exact ⟨rfl, rfl, rfl⟩

theorem encryptedMediaSize_eq_ok (h : encryptedMediaSize size = .ok total) :
    total = size + (divCeil size MediaContainer.mediaChunkSize * (4 + mediaTagSize) + mediaHeaderSize) ∧
      total < 2 ^ 64 := by
  unfold encryptedMediaSize at h
  dsimp only at h
  split at h
  · cases h
  · rename_i overhead hoverhead
    split at h
    · cases h
    · rename_i sum hsum
      cases h
      obtain ⟨product, hproduct, hadd⟩ := Option.bind_eq_some_iff.mp hoverhead
      unfold checkedMul at hproduct
      split_ifs at hproduct
      cases hproduct
      refine ⟨?_, ?_⟩
      · rw [← checkedAdd_eq_some hsum, ← checkedAdd_eq_some hadd]
      · unfold checkedAdd at hsum
        split_ifs at hsum with hlt
        cases hsum
        exact hlt

def conclude (sha256 : Bytes → Block 32) (bits total : ℕ) (y : MediaEncryptor × ℕ × Bytes) :
    Transfer Unit := do
  orAbort 400 (fromExcept y.1.finish)
  ensure (y.2.1 = total) (refuse 500 (invalidData "E2E media ciphertext size mismatch"))
  finishUpload bits (digestEnding sha256 y.2.1 y.2.2)

theorem interact_start (sha256 : Bytes → Block 32) (bits now : ℕ) (fileId : String)
    (A : Aead MediaKey) (e : MediaEncryptor) (source : Source MediaContainer.mediaChunkSize)
    (last : Frame) (hready : client.mayStream = true) (hid : ack.id = id)
    (hkind : ack.kind = kindAck) (hcode : ack.code = 100)
    (hsize : encryptedMediaSize size = .ok total) :
    ∃ opening, Idle opening ∧
      interact (obliging id ack last)
          (uploadMediaE2eWithEncryptor sha256 bits client now fileId A size source e).run [] =
        interact (obliging id ack last)
          (transmitSealed A source.failure source.reads e mediaHeaderSize e.header >>=
          conclude sha256 bits total).run (opening ++ [dataEvent e.header]) := by
  have hheader : e.header.length = mediaHeaderSize := MediaContainer.mediaHeader_length _ _
  have hcount : ∀ log,
      interact (obliging id ack last) (count 0 e.header.length).run log =
        (log, .ok mediaHeaderSize) := by
    intro log
    rw [interact_count (by rw [hheader]; decide), Nat.zero_add, hheader]
  obtain ⟨opening, hidle, hopening⟩ : ∃ opening, Idle opening ∧ interact (obliging id ack last)
      (openUpload client now [("file_id", .text fileId),
        ("size", .unsigned (UInt64.ofNat total))]).run [] =
        (opening, .ok ack) := interact_opened hid hkind hcode _
  refine ⟨opening, hidle, ?_⟩
  rw [uploadMediaE2eWithEncryptor, hsize, interact_tryThen rfl,
    interact_tryThen (interact_checkMedia hready _ _), interact_tryThen hopening,
    interact_tryThen (hcount _), interact_tryThen (interact_sendData _)]
  rfl

theorem interact_finishUpload {ending : Value} {log : List StreamEvent} (hlast : Confirms last) :
    interact (obliging id ack last) (finishUpload bits ending).run log =
      (log ++ [⟨.send kindStreamEnd 200 (encodeCbor ending), .ok ()⟩, ⟨.recv, .ok last⟩], .ok ()) := by
  have hany : ((log ++ [⟨.send kindStreamEnd 200 (encodeCbor ending), .ok ()⟩] : List StreamEvent).any
      fun e => isEnd e.op) = true := by
    rw [List.any_append]
    exact Bool.or_true _
  have hrecv : interact (obliging id ack last) recv.run
      (log ++ [⟨.send kindStreamEnd 200 (encodeCbor ending), .ok ()⟩]) =
        (log ++ [⟨.send kindStreamEnd 200 (encodeCbor ending), .ok ()⟩] ++ [⟨.recv, .ok last⟩],
          .ok last) :=
    interact_perform (congrArg Except.ok (if_pos hany))
  have hsettle : settle bits (.fromFrame last) = .ok () := settle_ok_iff.mpr (.inl hlast)
  refine (interact_tryThen rfl _).trans ((interact_tryThen hrecv _).trans ?_)
  rw [hsettle, List.append_assoc]
  rfl

theorem interact_conclude {log : List StreamEvent} {sealer : MediaEncryptor} {hashed : Bytes}
    (hlast : Confirms last) (hfinish : sealer.finish = .ok ()) :
    interact (obliging id ack last) (conclude sha256 bits total (sealer, total, hashed)).run log =
      (log ++ [⟨.send kindStreamEnd 200 (encodeCbor (digestEnding sha256 total hashed)), .ok ()⟩,
        ⟨.recv, .ok last⟩], .ok ()) := by
  have hcheck : interact (obliging id ack last) (orAbort 400 (fromExcept sealer.finish)).run log =
      (log, .ok ()) := by
    rw [hfinish]
    rfl
  have hsize : ∀ stop, ensure (total = total) stop = pure () := fun stop => if_pos (decide_eq_true rfl)
  rw [conclude, interact_tryThen hcheck, hsize, interact_tryThen rfl]
  exact interact_finishUpload hlast

theorem dataOf_upload {opening : List StreamEvent} (hopening : Idle opening) (header : Bytes)
    (chunks : List Bytes) (ending : Bytes) :
    dataOf (opening ++ [dataEvent header] ++ chunks.map dataEvent ++
      [⟨.send kindStreamEnd 200 ending, .ok ()⟩, ⟨.recv, .ok last⟩]) = header :: chunks := by
  rw [dataOf_append, dataOf_append, dataOf_append, hopening.data, dataOf_dataEvents]
  exact List.append_nil _

/-- The payloads make up the container of the plaintext. -/
def SendsContainer (A : Aead MediaKey) (e : MediaEncryptor) (P : Bytes) (log : List StreamEvent) :
    Prop :=
  ∃ chunks : List Bytes, (trace (MediaEncryptor.sealChunk A) e (pieces P)).map Prod.snd =
    chunks.map .ok ∧
    (dataOf log).flatten = e.header ++ chunks.flatten ∧
      encryptedMediaSize P.length = .ok (dataOf log).flatten.length

/-- With a node that takes everything, the upload succeeds and sends the container of what was read
if and only if each read but the last filled the buffer. -/
theorem sealed_upload_iff {A : Aead MediaKey} (hA : Correct A) (sha256 : Bytes → Block 32)
    (bits now : ℕ) {client : MediaClient} (fileId : String) {random : Except String (Block 16)}
    {key aadPrefix P : Bytes} {e : MediaEncryptor}
    (he : MediaEncryptor.withKey random key aadPrefix P.length = .ok e) (hP : P.length < 2 ^ 64)
    {source : Source MediaContainer.mediaChunkSize} (hbytes : source.bytes = P)
    (hfailure : source.failure = none) (hready : client.mayStream = true) {id : ℕ}
    {ack last : Frame} (hid : ack.id = id) (hkind : ack.kind = kindAck) (hcode : ack.code = 100)
    (hlast : Confirms last) {log : List StreamEvent} {x : Except IoError Unit}
    (hrun : interact (obliging id ack last)
      (uploadMediaE2eWithEncryptor sha256 bits client now fileId A P.length source e).run [] =
      (log, x)) :
    x = .ok () ∧ SendsContainer A e P log ↔
      source.reads = pieces P ∧ ∃ total, encryptedMediaSize P.length = .ok total := by
  obtain ⟨hwritten, hindex, hplain⟩ := withKey_fresh he
  have hsound : Sound e := ⟨by omega, by omega, by omega⟩
  have hleft : e.written + source.reads.flatten.length = e.plaintextSize := by
    change e.written + source.bytes.length = e.plaintextSize
    rw [hbytes, hwritten, hplain, Nat.zero_add]
  cases hsize : encryptedMediaSize P.length with
  | error error => simp [SendsContainer, hsize]
  | ok total =>
    obtain ⟨htotal, hbound⟩ := encryptedMediaSize_eq_ok hsize
    obtain ⟨opening, hopening, hstart⟩ :=
      interact_start sha256 bits now fileId A e source last hready hid hkind hcode hsize
    rw [hstart, hfailure] at hrun
    constructor
    · rintro ⟨rfl, -⟩
      refine ⟨?_, total, rfl⟩
      have hsealed := (transmitSealed_sealed A e none source.reads mediaHeaderSize e.header
        (opening ++ [dataEvent e.header])).interacts (obliging id ack last)
      cases hsent : interact (obliging id ack last)
          (transmitSealed A none source.reads e mediaHeaderSize e.header).run
            (opening ++ [dataEvent e.header]) with
      | mk sentLog y =>
        cases y with
        | error error =>
          rw [interact_tryStop hsent] at hrun
          cases hrun
        | ok y =>
          rw [hsent] at hsealed
          obtain ⟨chunks, hchunks⟩ := hsealed y rfl
          rw [reads_eq_pieces hsound hleft hchunks]
          change pieces source.bytes = pieces P
          rw [hbytes]
    · rintro ⟨hreads, -⟩
      obtain ⟨chunks, parts, hok, hfinish, hlen, -⟩ :=
        chunks_follow hA P (e := e) (by omega) hsound.size hsound.index
      have hcount : mediaHeaderSize + chunks.flatten.length = total := by
        rw [hlen, pieces_length, htotal]
        ring
      rw [hreads, interact_tryThen (interact_transmitSealed hok (by omega)), hcount,
        interact_conclude hlast hfinish] at hrun
      cases hrun
      refine ⟨rfl, chunks, hok, ?_, ?_⟩
      · rw [dataOf_upload hopening]
        rfl
      · rw [dataOf_upload hopening, List.flatten_cons, List.length_append, MediaEncryptor.header,
          MediaContainer.mediaHeader_length, hcount, hsize]

def sampleEncryptorTwo : MediaEncryptor := ⟨⟨sampleMediaKey, rfl⟩, [], sampleNoncePrefix, 2, 0, 0⟩

theorem oneRead_fits :
    ∀ bytes ∈ ([[1, 2]] : List Bytes), bytes ≠ [] ∧
      bytes.length ≤ MediaContainer.mediaChunkSize := by decide

theorem twoReads_fit :
    ∀ bytes ∈ ([[1], [2]] : List Bytes), bytes ≠ [] ∧
      bytes.length ≤ MediaContainer.mediaChunkSize := by decide

def oneRead : Source MediaContainer.mediaChunkSize := ⟨[[1, 2]], none, oneRead_fits⟩

def twoReads : Source MediaContainer.mediaChunkSize := ⟨[[1], [2]], none, twoReads_fit⟩

def sampleSealedRun (source : Source MediaContainer.mediaChunkSize) :
    List StreamEvent × Except IoError Unit :=
  interact (obliging 7 sampleAck sampleResult)
    (uploadMediaE2eWithEncryptor sampleDigest 64 sampleClient 5 "f" sampleCipher 2 source
      sampleEncryptorTwo).run []

theorem sealed_upload_iff_one_read : (sampleSealedRun oneRead).2 = .ok () ∧
    SendsContainer sampleCipher sampleEncryptorTwo [1, 2] (sampleSealedRun oneRead).1 := by
  have hpieces : oneRead.reads = pieces [1, 2] := by
    rw [pieces_ne_nil (by decide)]
    simp [pieces, oneRead, MediaContainer.mediaChunkSize]
  have hkey : MediaEncryptor.withKey (.ok sampleNoncePrefix) sampleMediaKey [] [1, 2].length =
    .ok sampleEncryptorTwo :=
    rfl
  have hready : sampleClient.mayStream = true := by decide
  have hrun : interact (obliging 7 sampleAck sampleResult)
      (uploadMediaE2eWithEncryptor sampleDigest 64 sampleClient 5 "f" sampleCipher [1, 2].length oneRead
        sampleEncryptorTwo).run [] = ((sampleSealedRun oneRead).1, (sampleSealedRun oneRead).2) := rfl
  have hcipher : Correct sampleCipher := checksumAead_correct _
  have hbytes : oneRead.bytes = [1, 2] := rfl
  have hid : sampleAck.id = 7 := rfl
  have hlast : Confirms sampleResult := ⟨rfl, rfl⟩
  exact (sealed_upload_iff hcipher sampleDigest 64 5 "f" hkey (by decide) hbytes rfl hready hid rfl
    rfl hlast hrun).mpr
    ⟨hpieces, 54, by decide⟩

/-- The same two bytes go through when they are read together and fail when they are read one by one. -/
theorem short_reads_fail : oneRead.bytes = twoReads.bytes ∧ (sampleSealedRun oneRead).2 = .ok () ∧
    (sampleSealedRun twoReads).2 =
      .error (invalidData "E2E media chunks do not match declared size") := by
  decide +kernel

end Mst5Client.SealedUploads
