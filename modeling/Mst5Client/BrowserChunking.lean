import Mst5Client.BrowserUploads
import Mst5Client.BrowserWrites
import Mst5Client.SealedUploads

set_option autoImplicit false

/-!
# The encrypted upload of the browser and how it is written

Two buffers lie between the pieces JavaScript writes and the frames that are sent: the plaintext is
gathered into the chunks of the container, and the container is cut into frames.
-/
namespace Mst5Client.BrowserChunking
open ByteOrder AuthenticatedCipher MachineRuns ProgramEnvironments
open BrowserRecords FrameDecoding BrowserRequests JsonValues BrowserUploads MediaRoundTrip
open ConnectionState (kindAck kindResult kindStreamOpen kindStreamData kindStreamEnd)
open MediaContainer (MediaKey MediaEncryptor encryptedMediaSize mediaChunkSize mediaHeaderSize)
open MediaStreams (mediaHex mediaOpUpload)

def isEnd : WebOp → Bool
  | .writeFrame kind _ _ _ => kind = kindStreamEnd
  | _ => false

def carrying (id : ℕ) (ack last : BrowserFrame) : Environment WebOp WebAns
  | _, .establish => .ok ()
  | _, .takeRequestId => .ok id
  | _, .writeFrame _ _ _ _ => .ok ()
  | log, .readMatchingFrame _ => .ok (if log.any fun e => isEnd e.op then last else ack)

def dataEvent (id : ℕ) (payload : Bytes) : WebEvent :=
  ⟨.writeFrame kindStreamData 0 id payload, .ok ()⟩

def opening (id : ℕ) (payload : Bytes) (ack : BrowserFrame) : List WebEvent :=
  [⟨.establish, .ok ()⟩, ⟨.takeRequestId, .ok id⟩,
    ⟨.writeFrame kindStreamOpen mediaOpUpload id payload, .ok ()⟩, ⟨.readMatchingFrame id, .ok ack⟩]

def closing (id : ℕ) (payload : Bytes) (last : BrowserFrame) : List WebEvent :=
  [⟨.writeFrame kindStreamEnd 200 id payload, .ok ()⟩, ⟨.readMatchingFrame id, .ok last⟩]

section Frames
variable {bits id : ℕ} {ack last : BrowserFrame} {log : List WebEvent} {u : BrowserMediaUpload bits}

def advanced (u : BrowserMediaUpload bits) (data : Bytes) : BrowserMediaUpload bits :=
  { u with sent := u.sent + data.length, hashed := u.hashed ++ data }

@[simp] theorem advanced_nil (u : BrowserMediaUpload bits) : advanced u [] = u := by simp [advanced]

@[simp] theorem advanced_advanced (u : BrowserMediaUpload bits) (first second : Bytes) :
    advanced (advanced u first) second = advanced u (first ++ second) := by
  simp [advanced, Nat.add_assoc]

/-- No payload is empty or larger than a chunk. -/
def Sized (limit : ℕ) (payloads : List Bytes) : Prop :=
  ∀ payload ∈ payloads, payload ≠ [] ∧ payload.length ≤ limit

theorem Sized.append {limit : ℕ} {first second : List Bytes} (h : Sized limit first)
    (h' : Sized limit second) : Sized limit (first ++ second) := by
  intro payload hpayload
  obtain hfirst | hsecond := List.mem_append.mp hpayload
  · exact h payload hfirst
  · exact h' payload hsecond

theorem sendChunks_call (payloads : List Bytes) :
    call (carrying id ack last) (BrowserMediaUpload.sendChunks payloads) u log =
      (log ++ payloads.map (dataEvent u.id), .ok (), advanced u payloads.flatten) := by
  induction payloads generalizing u log with
  | nil =>
    rw [List.map_nil, List.append_nil, List.flatten_nil, advanced_nil]
    rfl
  | cons payload payloads ih =>
    have hfirst : call (carrying id ack last) (BrowserMediaUpload.sendChunks (payload :: payloads))
      u log =
        call (carrying id ack last) (BrowserMediaUpload.sendChunks payloads) (advanced u payload)
          (log ++ [dataEvent u.id payload]) := rfl
    rw [hfirst, ih, advanced_advanced, List.append_assoc, List.flatten_cons]
    rfl

theorem write_call {data : Bytes} (hroom : u.sent + data.length ≤ u.expectedSize) :
    ∃ payloads, call (carrying id ack last) (BrowserMediaUpload.write data) u log =
        (log ++ payloads.map (dataEvent u.id), .ok (), advanced u data) ∧
      payloads.flatten = data ∧ Sized u.chunkSize payloads := by
  refine ⟨chunks u.chunkSize data, ?_, chunks_flatten u.chunk_pos data,
    fun _ => mem_chunksFrom u.chunk_pos⟩
  have hfits : ¬ u.expectedSize < min (u.sent + data.length) (2 ^ bits - 1) := by omega
  have hsend : call (carrying id ack last) (BrowserMediaUpload.sendChunks (chunks u.chunkSize data))
    u log =
      (log ++ (chunks u.chunkSize data).map (dataEvent u.id), .ok (),
        advanced u (chunks u.chunkSize data).flatten) :=
    sendChunks_call _
  rw [chunks_flatten u.chunk_pos] at hsend
  rw [BrowserMediaUpload.write, call_then rfl, if_neg hfits]
  exact hsend

end Frames

section Chunks
variable {A : Aead MediaKey} {bits id : ℕ} {ack last : BrowserFrame} {log : List WebEvent}
  {u : BrowserE2eMediaUpload bits} {unread : Bytes} {due : List Bytes}

/-- What an upload that has yet to be given `unread` has yet to send: the chunks `due`. -/
structure Due (A : Aead MediaKey) (u : BrowserE2eMediaUpload bits) (unread : Bytes)
    (due : List Bytes) : Prop where
  seals : (trace (MediaEncryptor.sealChunk A) u.encryptor (pieces (u.pending ++ unread))).map
    Prod.snd = due.map .ok
  finishes : (final (MediaEncryptor.sealChunk A) u.encryptor
    (pieces (u.pending ++ unread))).finish = .ok ()
  room : u.upload.sent + due.flatten.length = u.upload.expectedSize

/-- From `u` to `u'` the payloads were sent, which leaves `due'` of what was due. -/
structure Sends (u u' : BrowserE2eMediaUpload bits) (due due' payloads : List Bytes) : Prop where
  upload : u'.upload = advanced u.upload payloads.flatten
  sized : Sized u.upload.chunkSize payloads
  due : due.flatten = payloads.flatten ++ due'.flatten

theorem Sends.refl (u : BrowserE2eMediaUpload bits) (due : List Bytes) : Sends u u due due [] :=
  ⟨(advanced_nil u.upload).symm, fun _ h => absurd h List.not_mem_nil, rfl⟩

theorem Sends.trans {v w : BrowserE2eMediaUpload bits} {due' due'' first second : List Bytes}
    (h : Sends u v due due' first) (h' : Sends v w due' due'' second) :
    Sends u w due due'' (first ++ second) where
  upload := by rw [h'.upload, h.upload, advanced_advanced, List.flatten_append]
  sized := by
    have hsized := h'.sized
    rw [h.upload] at hsized
    exact h.sized.append hsized
  due := by rw [h.due, h'.due, List.flatten_append, List.append_assoc]

theorem Sends.same_id {u' : BrowserE2eMediaUpload bits} {due' payloads : List Bytes}
    (h : Sends u u' due due' payloads) : u'.upload.id = u.upload.id := by
  rw [h.upload]
  rfl

theorem writeSealed_call {piece pending : Bytes} (hdue : Due A u unread due)
    (hpieces : pieces (u.pending ++ unread) = piece :: pieces (pending ++ unread)) :
    ∃ u' payloads due', call (carrying id ack last) (BrowserE2eMediaUpload.writeSealed A piece)
        { u with pending } log = (log ++ payloads.map (dataEvent u.upload.id), .ok (), u') ∧
      Sends u u' due due' payloads ∧ Due A u' unread due' ∧ u'.pending = pending := by
  obtain ⟨hseals, hfinishes, hroom⟩ := hdue
  rw [hpieces] at hseals hfinishes
  cases due with
  | nil => cases hseals
  | cons chunk due =>
    rw [trace, List.map_cons, List.map_cons] at hseals
    obtain ⟨hfirst, hothers⟩ := List.cons.inj hseals
    obtain ⟨next, hnext⟩ : ∃ next, u.encryptor.sealChunk A piece = (next, .ok chunk) :=
      ⟨_, Prod.ext rfl hfirst⟩
    rw [final_cons, hnext] at hfinishes
    rw [hnext] at hothers
    rw [List.flatten_cons, List.length_append] at hroom
    have hfits : u.upload.sent + chunk.length ≤ u.upload.expectedSize := by omega
    obtain ⟨payloads, hwrite, hflatten, hsized⟩ := write_call hfits
    refine ⟨⟨advanced u.upload chunk, next, pending⟩, payloads, due, ?_, ⟨?_, hsized, ?_⟩,
      ⟨hothers, hfinishes, ?_⟩, rfl⟩
    · rw [BrowserE2eMediaUpload.writeSealed, call_then rfl]
      dsimp only
      rw [hnext, call_then rfl]
      exact call_onPart hwrite
    · rw [hflatten]
    · rw [hflatten, List.flatten_cons]
    · simp only [advanced]
      omega

theorem sealPending_call {rounds : ℕ} (hrounds : u.pending.length ≤ rounds)
    (hdue : Due A u unread due) :
    ∃ u' payloads due', call (carrying id ack last) (BrowserE2eMediaUpload.sealPending A rounds) u log =
        (log ++ payloads.map (dataEvent u.upload.id), .ok (), u') ∧
      Sends u u' due due' payloads ∧ Due A u' unread due' ∧ u'.pending.length < mediaChunkSize := by
  have hchunk : 0 < mediaChunkSize := by decide
  induction rounds generalizing u log due with
  | zero =>
    refine ⟨u, [], due, ?_, Sends.refl u due, hdue, by omega⟩
    rw [List.map_nil, List.append_nil]
    rfl
  | succ rounds ih =>
    by_cases hfull : mediaChunkSize ≤ u.pending.length
    · have hnonempty : u.pending ++ unread ≠ [] := by
        intro hnil
        rw [(List.append_eq_nil_iff.mp hnil).1] at hfull
        exact absurd hfull (by decide)
      have hpieces : pieces (u.pending ++ unread) =
          u.pending.take mediaChunkSize :: pieces (u.pending.drop mediaChunkSize ++ unread) := by
        rw [pieces_ne_nil hnonempty, List.take_append_of_le_length hfull,
          List.drop_append_of_le_length hfull]
      obtain ⟨v, first, due', hfirst, hsends, hdue', hpending⟩ := writeSealed_call hdue hpieces
      have hrest : v.pending.length ≤ rounds := by
        rw [hpending, List.length_drop]
        omega
      obtain ⟨w, second, due'', hsecond, hsends', hdue'', hshort⟩ := ih hrest hdue'
      refine ⟨w, first ++ second, due'', ?_, hsends.trans hsends', hdue'', hshort⟩
      rw [BrowserE2eMediaUpload.sealPending, call_then rfl, if_pos hfull, call_then rfl,
        call_then hfirst, hsecond, hsends.same_id, List.map_append, List.append_assoc]
    · refine ⟨u, [], due, ?_, Sends.refl u due, hdue, Nat.lt_of_not_le hfull⟩
      rw [BrowserE2eMediaUpload.sealPending, call_then rfl, if_neg hfull, List.map_nil, List.append_nil]
      rfl

theorem object_write_call {data : Bytes} (hshort : u.pending.length < mediaChunkSize)
    (hdue : Due A u (data ++ unread) due) :
    ∃ u' payloads due', call (carrying id ack last) (Mst5E2eMediaUpload.write A data) (some u) log =
        (log ++ payloads.map (dataEvent u.upload.id), .ok (), some u') ∧
      Sends u u' due due' payloads ∧ Due A u' unread due' ∧ u'.pending.length < mediaChunkSize := by
  by_cases hdata : data = []
  · refine ⟨u, [], due, ?_, Sends.refl u due, ?_, hshort⟩
    · rw [Mst5E2eMediaUpload.write, if_pos hdata, List.map_nil, List.append_nil]
      rfl
    · rw [hdata, List.nil_append] at hdue
      exact hdue
  · have hgiven : Due A { u with pending := u.pending ++ data } unread due := by
      refine ⟨?_, ?_, hdue.room⟩
      · rw [List.append_assoc]
        exact hdue.seals
      · rw [List.append_assoc]
        exact hdue.finishes
    obtain ⟨u', payloads, due', hcall, hsends, hdue', hshort'⟩ := sealPending_call le_rfl hgiven
    refine ⟨u', payloads, due', ?_, ⟨hsends.upload, hsends.sized, hsends.due⟩, hdue', hshort'⟩
    rw [Mst5E2eMediaUpload.write, if_neg hdata, Mst5E2eMediaUpload.onOpen, call_then rfl]
    refine call_onPart ?_
    rw [BrowserE2eMediaUpload.write, call_then rfl, call_then rfl]
    exact hcall

theorem writeAll_call {cuts : List Bytes} (hshort : u.pending.length < mediaChunkSize)
    (hdue : Due A u (cuts.flatten ++ unread) due) :
    ∃ u' payloads due', call (carrying id ack last) (Mst5E2eMediaUpload.writeAll A cuts) (some u) log =
        (log ++ payloads.map (dataEvent u.upload.id), .ok (), some u') ∧
      Sends u u' due due' payloads ∧ Due A u' unread due' ∧ u'.pending.length < mediaChunkSize := by
  induction cuts generalizing u log due with
  | nil =>
    refine ⟨u, [], due, ?_, Sends.refl u due, hdue, hshort⟩
    rw [List.map_nil, List.append_nil]
    rfl
  | cons data cuts ih =>
    rw [List.flatten_cons, List.append_assoc] at hdue
    obtain ⟨v, first, due', hfirst, hsends, hdue', hshort'⟩ := object_write_call hshort hdue
    obtain ⟨w, second, due'', hsecond, hsends', hdue'', hshort''⟩ := ih hshort' hdue'
    refine ⟨w, first ++ second, due'', ?_, hsends.trans hsends', hdue'', hshort''⟩
    rw [Mst5E2eMediaUpload.writeAll, call_then hfirst, hsecond, hsends.same_id, List.map_append,
      List.append_assoc]

variable {J : Type} {serde : Serde J} {sha256 : Bytes → Block 32}
variable {payload : Bytes}

/-- The answer to the end of a stream that `finish` accepts. -/
def Accepts (frame : BrowserFrame) : Prop :=
  frame.kind = kindResult ∧ 200 ≤ frame.code ∧ frame.code < 300

theorem upload_finish_call {upload : BrowserMediaUpload bits} (hlast : Accepts last)
    (hsent : upload.sent = upload.expectedSize) (hfresh : upload.resumeChecksum = none)
    (hpayload : serde.toCbor (streamEnd upload.sent (mediaHex (sha256 upload.hashed).toList)) =
      some payload) :
    call (carrying id ack last) (BrowserMediaUpload.finish serde sha256) upload log =
      (log ++ closing upload.id payload last, .ok (), upload) := by
  have hended : ((log ++ [⟨.writeFrame kindStreamEnd 200 upload.id payload, .ok ()⟩] :
      List WebEvent).any fun e => isEnd e.op) = true := by
    rw [List.any_append]
    exact Bool.or_true _
  have hread : interact (carrying id ack last) (readMatchingFrame upload.id).run
      (log ++ [⟨.writeFrame kindStreamEnd 200 upload.id payload, .ok ()⟩]) =
        (log ++ [⟨.writeFrame kindStreamEnd 200 upload.id payload, .ok ()⟩] ++
          [⟨.readMatchingFrame upload.id, .ok last⟩], .ok last) :=
    interact_perform (congrArg Except.ok (if_pos hended))
  have haccepts : ¬ (last.kind ≠ kindResult ∨ ¬ (200 ≤ last.code ∧ last.code < 300)) := by
    rw [not_or, not_not, not_not]
    exact hlast
  rw [BrowserMediaUpload.finish, call_then rfl, if_neg (not_not.mpr hsent), hfresh]
  refine call_ofProgram ?_
  dsimp only [Option.getD_none]
  rw [hpayload, interact_tryThen rfl, interact_tryThen rfl]
  refine (interact_tryThen hread _).trans ?_
  rw [if_neg haccepts, List.append_assoc]
  rfl

theorem sealRest_call (hshort : u.pending.length < mediaChunkSize) (hdue : Due A u [] due) :
    ∃ u' payloads, call (carrying id ack last) (BrowserE2eMediaUpload.sealRest A) u log =
        (log ++ payloads.map (dataEvent u.upload.id), .ok (), u') ∧
      Sends u u' due [] payloads ∧ Due A u' [] [] ∧ u'.pending = [] := by
  have hnone : ∀ {v : BrowserE2eMediaUpload bits} {due : List Bytes}, Due A v [] due →
      v.pending = [] → due = [] := by
    intro v due hdue hpending
    have hseals := hdue.seals
    rw [hpending, List.append_nil, pieces] at hseals
    exact List.map_eq_nil_iff.mp hseals.symm
  by_cases hpending : u.pending = []
  · obtain rfl := hnone hdue hpending
    refine ⟨u, [], ?_, Sends.refl u [], hdue, hpending⟩
    rw [BrowserE2eMediaUpload.sealRest, call_then rfl, if_neg (not_not.mpr hpending), List.map_nil,
      List.append_nil]
    rfl
  · have hpieces : pieces (u.pending ++ []) = u.pending :: pieces ([] ++ []) := by
      rw [List.append_nil, pieces_ne_nil hpending, List.take_of_length_le hshort.le,
        List.drop_of_length_le hshort.le]
      rfl
    obtain ⟨u', payloads, due', hcall, hsends, hdue', hempty⟩ := writeSealed_call hdue hpieces
    obtain rfl := hnone hdue' hempty
    refine ⟨u', payloads, ?_, hsends, hdue', hempty⟩
    rw [BrowserE2eMediaUpload.sealRest, call_then rfl, if_pos hpending, call_then rfl]
    exact hcall

theorem object_finish_call (hlast : Accepts last) (hfresh : u.upload.resumeChecksum = none)
    (hshort : u.pending.length < mediaChunkSize) (hdue : Due A u [] due)
    (hpayload : serde.toCbor (streamEnd u.upload.expectedSize
      (mediaHex (sha256 (u.upload.hashed ++ due.flatten)).toList)) = some payload) :
    ∃ payloads, call (carrying id ack last) (Mst5E2eMediaUpload.finish serde sha256 A) (some u) log =
        (log ++ payloads.map (dataEvent u.upload.id) ++ closing u.upload.id payload last, .ok (),
      none) ∧ payloads.flatten = due.flatten ∧ Sized u.upload.chunkSize payloads := by
  obtain ⟨v, payloads, hrest, hsends, hdone, hempty⟩ := sealRest_call hshort hdue
  have hall : due.flatten = payloads.flatten := by
    rw [hsends.due, List.flatten_nil, List.append_nil]
  have hsent : v.upload.sent = v.upload.expectedSize := by
    have hroom := hdone.room
    rw [List.flatten_nil, List.length_nil, Nat.add_zero] at hroom
    exact hroom
  have hfinish : v.encryptor.finish = .ok () := by
    have hfinishes := hdone.finishes
    rw [hempty, List.append_nil, pieces] at hfinishes
    exact hfinishes
  have hsize : v.upload.expectedSize = u.upload.expectedSize := by
    rw [hsends.upload]
    rfl
  have hhashed : v.upload.hashed = u.upload.hashed ++ payloads.flatten := by
    rw [hsends.upload]
    rfl
  have hchecksum : v.upload.resumeChecksum = none := by
    rw [hsends.upload]
    exact hfresh
  rw [← hsize, ← hsent, hall, ← hhashed] at hpayload
  have hclose : call (carrying id ack last) (BrowserMediaUpload.finish serde sha256) v.upload
      (log ++ payloads.map (dataEvent u.upload.id)) =
        (log ++ payloads.map (dataEvent u.upload.id) ++ closing u.upload.id payload last, .ok (),
          v.upload) := by
    rw [← hsends.same_id]
    exact upload_finish_call hlast hsent hchecksum hpayload
  have hinner : call (carrying id ack last) (BrowserE2eMediaUpload.finish serde sha256 A) u log =
      (log ++ payloads.map (dataEvent u.upload.id) ++ closing u.upload.id payload last, .ok (), v) := by
    rw [BrowserE2eMediaUpload.finish, call_then hrest, call_then rfl, hfinish]
    exact call_onPart hclose
  have houter : call (carrying id ack last)
    (Mst5E2eMediaUpload.onOpen (BrowserE2eMediaUpload.finish serde sha256 A))
      (some u) log =
        (log ++ payloads.map (dataEvent u.upload.id) ++ closing u.upload.id payload last, .ok (),
          some v) := by
    rw [Mst5E2eMediaUpload.onOpen, call_then rfl]
    exact call_onPart hinner
  refine ⟨payloads, ?_, hall.symm, hsends.sized⟩
  rw [Mst5E2eMediaUpload.finish, call_then houter]
  rfl

theorem written_call {cuts : List Bytes} (hlast : Accepts last)
    (hfresh : u.upload.resumeChecksum = none) (hshort : u.pending.length < mediaChunkSize)
    (hdue : Due A u cuts.flatten due) (hpayload : serde.toCbor (streamEnd u.upload.expectedSize
      (mediaHex (sha256 (u.upload.hashed ++ due.flatten)).toList)) = some payload) :
    ∃ payloads, call (carrying id ack last)
        (Mst5E2eMediaUpload.writeAll A cuts >>= fun _ => Mst5E2eMediaUpload.finish serde sha256 A)
          (some u) log =
          (log ++ payloads.map (dataEvent u.upload.id) ++ closing u.upload.id payload last, .ok (),
      none) ∧ payloads.flatten = due.flatten ∧ Sized u.upload.chunkSize payloads := by
  rw [← List.append_nil cuts.flatten] at hdue
  obtain ⟨v, first, due', hfirst, hsends, hdue', hshort'⟩ := writeAll_call hshort hdue
  have hupload := hsends.upload
  have hchecksum : v.upload.resumeChecksum = none := by
    rw [hupload]
    exact hfresh
  have hpayload' : serde.toCbor (streamEnd v.upload.expectedSize
      (mediaHex (sha256 (v.upload.hashed ++ due'.flatten)).toList)) = some payload := by
    rw [hsends.due, ← List.append_assoc] at hpayload
    rw [hupload]
    exact hpayload
  obtain ⟨second, hsecond, hflatten, hsized⟩ :=
    object_finish_call hlast hchecksum hshort' hdue' hpayload'
  refine ⟨first ++ second, ?_, ?_, ?_⟩
  · rw [call_then hfirst, hsecond, hsends.same_id, List.map_append, List.append_assoc log]
  · rw [List.flatten_append, hflatten, hsends.due]
  · rw [hupload] at hsized
    exact hsends.sized.append hsized

variable {total : ℕ} {fileId : String}
variable {server : { size : ℕ // 0 < size }}

theorem openNew_interact {payload : Bytes} (size_lt : total < 2 ^ bits)
    (hpayload : serde.toCbor (streamOpen fileId total 0 none) = some payload)
    (hack : serverChunk serde bits 0 ack = .ok server) :
    interact (carrying id ack last) (BrowserMediaUpload.openNew serde fileId total size_lt).run
        [⟨.establish, .ok ()⟩] = (opening id payload ack,
          .ok (.opened id total 0 none size_lt server)) := by
  rw [BrowserMediaUpload.openNew, BrowserMediaUpload.openWithOffset, if_neg (Nat.not_lt_zero total),
    hpayload, interact_tryThen rfl, interact_tryThen rfl, interact_tryThen rfl, interact_tryThen rfl]
  change interact _ (fromExcept (serverChunk serde bits 0 ack) >>= _).run _ = _
  rw [hack]
  rfl

theorem begin_interact (id : ℕ) (last : BrowserFrame) (e : MediaEncryptor) {ticket : String}
    {plaintextSize : ℕ} {payload : Bytes} (hticket : ticket ≠ "") (hfile : fileId ≠ "")
    (hplain : plaintextSize ≠ 0) (hsize : encryptedMediaSize plaintextSize = .ok total)
    (size_lt : total < 2 ^ bits) (hheader : e.header.length ≤ total)
    (hpayload : serde.toCbor (streamOpen fileId total 0 none) = some payload)
    (hack : serverChunk serde bits 0 ack = .ok server) : ∃ payloads, interact (carrying id ack last)
        (beginE2eMediaUpload serde bits ticket fileId plaintextSize (.ok e)).run [] =
          (opening id payload ack ++ payloads.map (dataEvent id),
            .ok (some ⟨advanced (.opened id total 0 none size_lt server) e.header, e, []⟩)) ∧
      payloads.flatten = e.header ∧ Sized (min browserMediaChunk server.1) payloads := by
  let upload : BrowserMediaUpload bits := .opened id total 0 none size_lt server
  have hroom : upload.sent + e.header.length ≤ upload.expectedSize := (Nat.zero_add _).trans_le hheader
  obtain ⟨payloads, hwrite, hflatten, hsized⟩ := write_call hroom
  refine ⟨payloads, ?_, hflatten, hsized⟩
  have hgiven : ¬ (ticket = "" ∨ fileId = "" ∨ plaintextSize = 0) := by
    rintro (h | h | h)
    · exact hticket h
    · exact hfile h
    · exact hplain h
  have hopen : interact (carrying id ack last) (BrowserMediaUpload.openNew serde fileId total
    size_lt).run
      [⟨.establish, .ok ()⟩] = (opening id payload ack, .ok (.opened id total 0 none size_lt server)) :=
    openNew_interact size_lt hpayload hack
  rw [beginE2eMediaUpload, if_neg hgiven, hsize, interact_tryThen rfl]
  dsimp only
  rw [dif_pos size_lt, interact_tryThen rfl, interact_tryThen rfl]
  refine (interact_tryThen hopen _).trans ((interact_tryThen (interact_lift hwrite) _).trans ?_)
  rfl

end Chunks

variable {A : Aead RecordLayer.Key} (id : ℕ) (random : Option (Block 16)) (body : Bytes)

def frameCall (id : ℕ) (random : Option (Block 16)) (body payload : Bytes) :
    BrowserTunnel.WriteCall :=
  ⟨kindStreamData, 0, id, payload, random, .ok body⟩

theorem frameCall_goes {payload : Bytes} (h : payload.length ≤ browserMediaChunk) :
    ∃ frame, (frameCall id random body payload).frame = .ok frame ∧
      BrowserWrites.Goes (frameCall id random body payload) := by
  have hsmall : ¬ maxRecordBytes < payload.length := by
    have : browserMediaChunk < maxRecordBytes := by decide
    omega
  obtain ⟨frame, hframe⟩ : ∃ frame, (frameCall id random body payload).frame = .ok frame := by
    change ∃ frame, frameEncode random kindStreamData 0 id payload = .ok frame
    unfold frameEncode
    rw [if_neg hsmall]
    exact ⟨_, rfl⟩
  refine ⟨frame, hframe, ?_⟩
  intro other hother
  obtain rfl : frame = other := Except.ok.inj (hframe.symm.trans hother)
  have hlength : frame.length = 40 + payload.length := (frameEncode_length hframe).1
  have hpadded : RecordInterop.frameSize frame < 5 + frame.length + 256 :=
    (RecordPlaintext.paddedLen_bounds frame.length).2
  have hlimit : 4 + (8 + (5 + (40 + browserMediaChunk) + 256) + tagLen) ≤
    BrowserTunnel.maxGetRecordBytes := by decide
  rw [hlength] at hpadded
  refine ⟨le_trans ?_ hlimit, body, rfl⟩
  gcongr
  exact hpadded.le.trans (by gcongr)

/-- A session whose records the router takes writes every such payload. -/
theorem payloads_written (hA : Correct A) {s : BrowserTunnel.BrowserSession} {payloads : List Bytes}
    (hsized : Sized browserMediaChunk payloads) (hseq : s.upstreamSeq + payloads.length < 2 ^ 64)
    (hnonce : s.sealState.nonce < 2 ^ 64) :
    ∀ answer ∈ trace (BrowserTunnel.BrowserSession.writeFrame A) s
      (payloads.map (frameCall id random body)), answer.2.result = .ok () := by
  induction payloads generalizing s with
  | nil => exact fun _ h => absurd h List.not_mem_nil
  | cons payload payloads ih =>
    rw [List.length_cons] at hseq
    obtain ⟨frame, hframe, hgoes⟩ := frameCall_goes id random body (hsized payload List.mem_cons_self).2
    obtain ⟨wire, hwrite, -⟩ := BrowserWrites.writeFrame_sent hA hframe hgoes (s := s) (by omega) hnonce
    rw [List.map_cons, trace, hwrite]
    intro answer hanswer
    obtain rfl | htail := List.mem_cons.mp hanswer
    · rfl
    · have hrest : Sized browserMediaChunk payloads := fun other h =>
        hsized other (List.mem_cons_of_mem _ h)
      refine ih hrest ?_ (Nat.mod_lt _ (Nat.two_pow_pos 64)) answer htail
      simp only
      omega

theorem payloads_written_sample : Sized browserMediaChunk [[7, 8], [9]] ∧
    ∀ answer ∈ trace (BrowserTunnel.BrowserSession.writeFrame RecordSteps.checksumCrypto.aead)
        BrowserWrites.sampleSession ([[7, 8], [9]].map (frameCall 4 none [])),
      answer.2.result = .ok () := by
  have hsized : Sized browserMediaChunk [[7, 8], [9]] := by
    unfold Sized
    decide
  exact ⟨hsized, payloads_written 4 none [] (checksumAead_correct _) hsized (by decide) (by decide)⟩

/-- What is on the wire after an upload: the stream is opened, the container of the plaintext
follows in frames of at most `limit` bytes, and the end carries its length and digest. -/
def Uploaded {J : Type} (A : Aead MediaKey) (serde : Serde J) (sha256 : Bytes → Block 32)
    (e : MediaEncryptor) (P : Bytes) (id limit : ℕ) (ack last : BrowserFrame)
    (log : List WebEvent) : Prop :=
  ∃ (start finish : Bytes) (payloads chunks : List Bytes),
    log = opening id start ack ++ payloads.map (dataEvent id) ++ closing id finish last ∧
    (trace (MediaEncryptor.sealChunk A) e (pieces P)).map Prod.snd = chunks.map .ok ∧
    payloads.flatten = e.header ++ chunks.flatten ∧
    encryptedMediaSize P.length = .ok payloads.flatten.length ∧
    Sized limit payloads ∧
    serde.toCbor (streamEnd payloads.flatten.length (mediaHex (sha256 payloads.flatten).toList)) =
      some finish

def sampleDetails : Json := .object [("chunk_size", number 20)]

def sampleSerde : Serde Unit where
  toCbor := fun _ => some [0xa0]
  fromCbor := fun _ => some sampleDetails
  toJs := fun _ => some ()
  operation := fun _ _ => .ok 5

def sampleAck : BrowserFrame := ⟨kindAck, 100, 7, []⟩

def sampleResult : BrowserFrame := ⟨kindResult, 204, 7, []⟩

end Mst5Client.BrowserChunking
