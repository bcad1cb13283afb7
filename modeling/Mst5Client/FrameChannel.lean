import Mst5Client.FrameCodec
import Mst5Client.RecordPaths

set_option autoImplicit false

/-!
# Frames from the writer to the reader

The two loops of `src/connection.rs` at the ends of a direction.
-/
namespace Mst5Client.FrameChannel
open ByteOrder AuthenticatedCipher IoResult RecordLayer RecordPlaintext Ratchet RecordSteps
  RecordLockstep RecordNonces FrameDecoding FrameCodec RecordPaths
open ConnectionState (Frame WriterCommand maxPlainPayload)
open HttpResponses (Incoming)

section Writing
variable (C : WriterCrypto)

/-- How the socket takes a record: one of the two `write_all` may fail, behind so many bytes of what
they are given. -/
structure Socket where
  writes : Option (ℕ × IoError)
  flush : Except IoError Unit

def framed (record : Bytes) : Bytes := beBytes 4 record.length ++ record

/-- The bytes that go out, and the result. -/
def Socket.write (socket : Socket) (record : Bytes) : Bytes × Except IoError Unit :=
  match socket.writes with
  | some (count, e) => ((framed record).take count, .error e)
  | none => (framed record, socket.flush)

structure Writer where
  state : WriterState
  encoded : Bytes

def writeFrameLocked (w : Writer) (frame : Frame) (socket : Socket) :
    Writer × Bytes × Except IoError Unit :=
  match encodeInto frame w.encoded with
  | .error e => (w, [], .error e)
  | .ok encoded =>
    match sealRecordInto C w.state 0 encoded with
    | (state, .error e) => (⟨state, encoded⟩, [], .error e)
    | (state, .ok ()) => (⟨state, encoded⟩, socket.write state.record)

/-- The answer of `shutdown` is dropped; a socket may answer anything after it. -/
def writeCloseLocked (w : Writer) (socket : Socket) : Writer × Bytes × Except IoError Unit :=
  match sealRecordInto C w.state 1 [] with
  | (state, .error e) => ({ w with state }, [], .error e)
  | (state, .ok ()) => ({ w with state }, socket.write state.record)

def writeCommand (w : Writer) : WriterCommand → Socket → Writer × Bytes × Except IoError Unit
  | .frame frame _ _ => writeFrameLocked C w frame
  | .close _ => writeCloseLocked C w

/-- `writer_loop` with the commands it takes: what goes out, and how many commands succeed. -/
def writerLoop : Writer → List (WriterCommand × Socket) → Bytes × ℕ
  | _, [] => ([], 0)
  | w, (command, socket) :: commands =>
    match writeCommand C w command socket with
    | (_, bytes, .error _) => (bytes, 0)
    | (w, bytes, .ok ()) => (bytes ++ (writerLoop w commands).1, (writerLoop w commands).2 + 1)

theorem Socket.write_isPrefix (socket : Socket) (record : Bytes) :
    (socket.write record).1 <+: framed record ∧
    ((socket.write record).2 = .ok () → (socket.write record).1 = framed record) := by
  obtain ⟨_ | ⟨count, e⟩, flush⟩ := socket
  · exact ⟨List.prefix_rfl, fun _ => rfl⟩
  · exact ⟨List.take_prefix _ _, nofun⟩

theorem writerLoop_cons {w w' : Writer} {command : WriterCommand} {socket : Socket} {record : Bytes}
    (h : writeCommand C w command socket = (w', socket.write record))
    (commands : List (WriterCommand × Socket)) :
    ∃ out n, writerLoop C w ((command, socket) :: commands) = (out, n) ∧
      out <+: framed record ++ (writerLoop C w' commands).1 ∧
      (n = 0 ∨ out = framed record ++ (writerLoop C w' commands).1 ∧
        n = (writerLoop C w' commands).2 + 1) := by
  obtain ⟨hpart, hdone⟩ := socket.write_isPrefix record
  rw [writerLoop, h]
  rcases hout : socket.write record with ⟨bytes, e | ⟨⟩⟩
  · rw [hout] at hpart
    exact ⟨_, _, rfl, hpart.trans (List.prefix_append _ _), .inl rfl⟩
  · rw [hout] at hdone
    obtain rfl : bytes = framed record := hdone rfl
    exact ⟨_, _, rfl, List.prefix_rfl, .inr ⟨rfl, rfl⟩⟩

theorem sealRecordInto_hash (w : WriterState) (contentType : UInt8) (payload : Bytes) :
    (sealRecordInto C w contentType payload).1.handshakeHash = w.handshakeHash := by
  unfold sealRecordInto
  repeat' first
    | rfl
    | split
    | dsimp only

end Writing

section Reading
variable (C : RecordCrypto) (bits : ℕ) (D : Decompressors)

/-- So many rounds of `reader_loop`, with a `dispatch` that takes every frame. -/
def readerLoop : ℕ → ReaderState → Incoming → List Frame
  | 0, _, _ => []
  | rounds + 1, r, stream =>
    match ReaderState.readFrame C bits D r stream with
    | (r, .ok (some frame, rest)) => frame :: readerLoop rounds r rest
    | _ => []

/-- The bytes are read as one frame, or as the close, whatever follows them, and no proper beginning
of them is. -/
structure Reads (Next : ReaderState → Prop) (r : ReaderState) (bytes : Bytes)
    (frame : Option Frame) : Prop where
  whole : ∀ rest failure, ∃ r', Next r' ∧
    ReaderState.readFrame C bits D r ⟨bytes ++ rest, failure⟩ = (r', .ok (frame, ⟨rest, failure⟩))
  part : ∀ seen failure, seen <+: bytes → seen ≠ bytes →
    ∃ e, (ReaderState.readFrame C bits D r ⟨seen, failure⟩).2 = .error e

theorem readFrame_keeps (r : ReaderState) (stream : Incoming) :
    (ReaderState.readFrame C bits D r stream).1.handshakeHash = r.handshakeHash ∧
      (ReaderState.readFrame C bits D r stream).1.zstd = r.zstd := by
  unfold ReaderState.readFrame
  repeat' first
    | exact ⟨rfl, rfl⟩
    | split
    | dsimp only

def precede : Option Frame → List Frame → List Frame
  | some frame, frames => frame :: frames
  | none, _ => []

theorem precede_mono (frame : Option Frame) {frames frames' : List Frame} (h : frames <+: frames') :
    precede frame frames <+: precede frame frames' := by
  cases frame with
  | none => exact List.prefix_rfl
  | some frame => exact (List.prefix_cons_inj frame).mpr h

variable {C bits D} {Next : ReaderState → Prop} {r : ReaderState} {bytes : Bytes} {frame : Option Frame}

theorem Reads.loop (h : Reads C bits D Next r bytes frame) (rounds : ℕ) (rest : Bytes)
    (failure : Option IoError) :
    ∃ r', Next r' ∧ readerLoop C bits D (rounds + 1) r ⟨bytes ++ rest, failure⟩ =
      precede frame (readerLoop C bits D rounds r' ⟨rest, failure⟩) := by
  obtain ⟨r', hnext, hread⟩ := h.whole rest failure
  refine ⟨r', hnext, ?_⟩
  rw [readerLoop, hread]
  cases frame <;> rfl

theorem Reads.waits (h : Reads C bits D Next r bytes frame) (rounds : ℕ) {seen : Bytes}
    (failure : Option IoError) (hseen : seen <+: bytes) (hpart : seen ≠ bytes) :
    readerLoop C bits D (rounds + 1) r ⟨seen, failure⟩ = [] := by
  obtain ⟨e, he⟩ := h.part seen failure hseen hpart
  rw [readerLoop, ← Prod.mk.eta (p := ReaderState.readFrame C bits D r ⟨seen, failure⟩), he]

variable {s t : Session} {record : Bytes} {decoded : Record}

theorem openRecord_bounds (h : s.openRecord C record = (t, .ok decoded)) :
    ¬ (record.length < 8 + tagLen ∨ maxRecordLen < record.length) ∧ record.length < 2 ^ 32 := by
  have hlen : ¬ (record.length < 8 + tagLen ∨ maxRecordLen < record.length) := by
    intro hlen
    rw [Session.openRecord, if_pos hlen] at h
    cases h
  refine ⟨hlen, ?_⟩
  rw [maxRecordLen_eq] at hlen
  omega

def payloadOf : Record → Option Bytes
  | .application payload => some payload
  | .close => none

theorem readFrame_framed (h : s.openRecord C record = (t, .ok decoded)) (rest : Bytes)
    (failure : Option IoError) :
    Session.readFrame C s ⟨framed record ++ rest, failure⟩ =
      (t, .ok (payloadOf decoded, ⟨rest, failure⟩)) := by
  obtain ⟨hlen, hlt⟩ := openRecord_bounds h
  have hsize : Incoming.readExact ⟨framed record ++ rest, failure⟩ 4 =
      .ok (beBytes 4 record.length, ⟨record ++ rest, failure⟩) := by
    rw [Incoming.readExact, framed, List.append_assoc, if_neg (by simp),
      List.take_left' (beBytes_length 4 _), List.drop_left' (beBytes_length 4 _)]
  have hrecord : Incoming.readExact ⟨record ++ rest, failure⟩ record.length =
      .ok (record, ⟨rest, failure⟩) := by
    rw [Incoming.readExact, if_neg (by simp), List.take_left, List.drop_left]
  rw [Session.readFrame, hsize]
  dsimp only
  rw [ofBe_beBytes_of_lt hlt, if_neg hlen, hrecord]
  dsimp only
  rw [h]
  cases decoded <;> rfl

theorem readFrame_part (hlt : record.length < 2 ^ 32) {seen : Bytes}
    (hseen : seen <+: framed record) (hpart : seen ≠ framed record) (failure : Option IoError) :
    ∃ e, (Session.readFrame C s ⟨seen, failure⟩).2 = .error e := by
  have hshort := lt_of_le_of_ne hseen.length_le (mt hseen.eq_of_length hpart)
  rw [framed, List.length_append, beBytes_length] at hshort
  unfold Session.readFrame
  by_cases hfour : seen.length < 4
  · rw [Incoming.readExact, if_pos hfour]
    exact ⟨_, rfl⟩
  · have hhead : seen.take 4 = beBytes 4 record.length := by
      rw [List.prefix_iff_eq_take.mp hseen, List.take_take, Nat.min_eq_left (Nat.not_lt.mp hfour),
        framed, List.take_left' (beBytes_length 4 _)]
    rw [Incoming.readExact, if_neg hfour]
    dsimp only
    rw [hhead, ofBe_beBytes_of_lt hlt]
    split_ifs
    · exact ⟨_, rfl⟩
    · rw [Incoming.readExact, if_pos (by rw [List.length_drop]; omega)]
      exact ⟨_, rfl⟩

end Reading

variable {C : WriterCrypto} {bits : ℕ} {D : Decompressors} {key : Key} {p : Position} {w : Writer}
  {r : ReaderState}

/-- The two ends of the direction expect the same record. -/
structure InStep (C : WriterCrypto) (D : Decompressors) (key : Key) (p : Position) (w : Writer)
    (r : ReaderState) : Prop where
  within : p.Within limits
  hash : r.handshakeHash = w.state.handshakeHash
  writer : w.state.cipher = stateAt C.hkdf r.handshakeHash key p
  reader : r.cipher = stateAt C.hkdf r.handshakeHash key p
  zstd : r.zstd = D.zstdDecompress

/-- `Frame::new` and `Frame::request` make such frames, from numbers that fit their fields. -/
structure Sendable (frame : Frame) : Prop extends Admitted frame where
  code : frame.code < 2 ^ 16
  id : frame.id < 2 ^ 64
  deadline : frame.deadlineMs < 2 ^ 64

theorem Sendable.encodes {frame : Frame} (h : Sendable frame) (bits : ℕ) (D : Decompressors)
    (out : Bytes) :
    ∃ encoded, encodeInto frame out = .ok encoded ∧ Admissible 0 encoded ∧
      decode bits D encoded true = .ok frame := by
  refine ⟨_, encodeInto_eq h.flags h.payload out, ⟨.inl rfl, ?_⟩, ?_⟩
  · have hpayload := h.payload
    rw [frameBytes_length (block_length _)]
    unfold maxPlainPayload at hpayload
    unfold headerLen maxTransportPayload
    omega
  · rw [decode_frameBytes h.kind h.code h.id h.deadline _ h.payload, ← h.flags]

theorem InStep.start (C : WriterCrypto) (D : Decompressors) (key : Key) (hash : Block 32) :
    InStep C D key .start ⟨.start (Session.new key hash), []⟩ ⟨.new key, hash, D.zstdDecompress, []⟩ :=
  ⟨⟨limits_records_pos, limits_bytes_pos⟩, rfl, rfl, rfl, rfl⟩

def carried : WriterCommand → Option Frame
  | .frame frame _ _ => some frame
  | .close _ => none

def framesOf : List (WriterCommand × Socket) → List Frame
  | [] => []
  | (command, _) :: commands => precede (carried command) (framesOf commands)

section Steps
variable (hC : Detached C) (hA : Correct C.aead) (h : InStep C D key p w r)
  (hg : p.generation < maxGeneration)
include hC hA h hg

/-- One record, and the ends expect the next one. -/
theorem InStep.seal (bits : ℕ) (i : Item) (encoded : Bytes) (frame : Option Frame)
    (hframe : ∀ rest, decodeRead bits D (payloadOf i.record, rest) = .ok (frame, rest)) :
    ∃ state p', p'.generation ≤ p.generation + 1 ∧
      sealRecordInto C w.state i.contentType i.payload = (state, .ok ()) ∧
      Reads C.toRecordCrypto bits D (InStep C D key p' ⟨state, encoded⟩) r
        (framed state.record) frame := by
  let s : Session := ⟨r.cipher, r.cipher, r.handshakeHash⟩
  obtain ⟨record, hseal, hopen⟩ :=
    exchange_step C.toRecordCrypto hA key s s i h.reader h.reader rfl h.within hg
  have hstate : (⟨s.sealState, s.handshakeHash, w.state.plaintext, w.state.record⟩ : WriterState) =
      w.state := by
    change (⟨r.cipher, r.handshakeHash, _, _⟩ : WriterState) = _
    rw [h.reader.trans h.writer.symm, h.hash]
  obtain ⟨hcipher, hrecord⟩ :=
    sealRecordInto_eq hC s i.contentType i.payload w.state.plaintext w.state.record
  have hhash := sealRecordInto_hash C w.state i.contentType i.payload
  rw [sealStep] at hseal
  rw [hseal, hstate] at hcipher hrecord
  obtain ⟨_, hok, rfl⟩ := map_eq_ok hrecord
  have hread := @readFrame_eq C.toRecordCrypto bits D s r.zstd
    (fun input limit => congrFun (congrFun h.zstd input) limit) r.record
  refine ⟨_, advance limits p i.size, (advance_generation limits p i.size).2, Prod.ext rfl hok, ?_, ?_⟩
  · intro rest failure
    obtain ⟨hnext, hresult⟩ := hread ⟨_ ++ rest, failure⟩
    rw [readFrame_framed hopen rest failure] at hnext hresult
    obtain ⟨hkept, hzstd⟩ := readFrame_keeps C.toRecordCrypto bits D r ⟨_ ++ rest, failure⟩
    refine ⟨_, ⟨?_, ?_, ?_, ?_, hzstd.trans h.zstd⟩, Prod.ext rfl (hresult.trans (hframe _))⟩
    · exact advance_within limits_records_pos limits_bytes_pos p i.size
    · exact (hkept.trans h.hash).trans hhash.symm
    · rw [hkept]
      exact hcipher
    · rw [hkept]
      exact hnext
  · intro seen failure hseen hpart
    obtain ⟨e, he⟩ := readFrame_part (s := s) (openRecord_bounds hopen).2 hseen hpart failure
    have hresult := (hread ⟨seen, failure⟩).2
    rw [he] at hresult
    exact ⟨e, hresult⟩

theorem InStep.command (bits : ℕ) {command : WriterCommand}
    (hcommand : ∀ frame ∈ carried command, Sendable frame) (socket : Socket) :
    ∃ w' p' record, p'.generation ≤ p.generation + 1 ∧
      writeCommand C w command socket = (w', socket.write record) ∧
      Reads C.toRecordCrypto bits D (InStep C D key p' w') r (framed record) (carried command) := by
  cases command with
  | frame frame complete budget =>
    obtain ⟨encoded, hencoded, hadmissible, hdecode⟩ := (hcommand frame rfl).encodes bits D w.encoded
    obtain ⟨state, p', hp', hseal, hreads⟩ := h.seal hC hA hg bits ⟨0, encoded, hadmissible⟩ encoded
      (some frame) fun rest => congrArg (Except.map fun frame => (some frame, rest)) hdecode
    refine ⟨⟨state, encoded⟩, p', state.record, hp', ?_, hreads⟩
    rw [writeCommand, writeFrameLocked, hencoded]
    dsimp only
    rw [hseal]
  | close complete =>
    obtain ⟨state, p', hp', hseal, hreads⟩ := h.seal hC hA hg bits ⟨1, [], by decide⟩ w.encoded none
      fun rest => rfl
    refine ⟨⟨state, w.encoded⟩, p', state.record, hp', ?_, hreads⟩
    rw [writeCommand, writeCloseLocked, hseal]

end Steps

/-- However the writes fail, wherever the stream is cut and however far the reader is, it has been
given frames of the writer in their order, whole and once each; at the end of a stream that is not
cut, every frame whose write succeeded. -/
theorem frames_arrive (hC : Detached C) (hA : Correct C.aead) (h : InStep C D key p w r)
    {commands : List (WriterCommand × Socket)}
    (hcommands : ∀ c ∈ commands, ∀ frame ∈ carried c.1, Sendable frame)
    (hrekeys : p.generation + commands.length < 2 ^ 64 - 1) (bits rounds : ℕ) {seen : Bytes}
    (failure : Option IoError) (hseen : seen <+: (writerLoop C w commands).1) :
    readerLoop C.toRecordCrypto bits D rounds r ⟨seen, failure⟩ <+: framesOf commands ∧
      (seen = (writerLoop C w commands).1 → commands.length ≤ rounds →
        framesOf (commands.take (writerLoop C w commands).2) <+:
          readerLoop C.toRecordCrypto bits D rounds r ⟨seen, failure⟩) := by
  induction commands generalizing w r p seen rounds with
  | nil =>
    obtain rfl := List.prefix_nil.mp hseen
    cases rounds with
    | zero => exact ⟨List.nil_prefix, fun _ _ => List.nil_prefix⟩
    | succ rounds => exact ⟨List.nil_prefix, fun _ _ => List.nil_prefix⟩
  | cons c commands ih =>
    obtain ⟨command, socket⟩ := c
    obtain ⟨hfirst, hcommands⟩ := List.forall_mem_cons.mp hcommands
    rw [List.length_cons] at hrekeys ⊢
    have hg : p.generation < maxGeneration := by
      unfold maxGeneration
      omega
    obtain ⟨w', p', record, hp', hwrite, hreads⟩ := h.command hC hA hg bits hfirst socket
    obtain ⟨out, n, hloop, hout, hdone⟩ := writerLoop_cons C hwrite commands
    rw [hloop] at hseen ⊢
    have hseen := hseen.trans hout
    cases rounds with
    | zero => exact ⟨List.nil_prefix, fun _ hrounds => absurd hrounds (Nat.not_succ_le_zero _)⟩
    | succ rounds =>
      by_cases hwhole : framed record <+: seen
      · obtain ⟨rest, rfl⟩ := hwhole
        obtain ⟨r', hnext, hread⟩ := hreads.loop rounds rest failure
        obtain ⟨hsafe, hall⟩ := ih hnext hcommands (by omega) rounds
          ((List.prefix_append_right_inj _).mp hseen)
        rw [hread]
        refine ⟨precede_mono _ hsafe, fun hend hrounds => ?_⟩
        rcases hdone with hzero | ⟨hbytes, hcount⟩
        · rw [hzero]
          exact List.nil_prefix
        · rw [hcount]
          exact precede_mono _ (hall (List.append_cancel_left (hend.trans hbytes)) (by omega))
      · -- the record is not there in full, and the reader stops in it
        have hpart : seen <+: framed record :=
          (List.prefix_or_prefix_of_prefix hseen (List.prefix_append _ _)).resolve_right hwhole
        rw [hreads.waits rounds failure hpart fun hseen => hwhole (hseen ▸ List.prefix_rfl)]
        refine ⟨List.nil_prefix, fun hend _ => ?_⟩
        rcases hdone with hzero | ⟨hbytes, -⟩
        · rw [hzero]
          exact List.nil_prefix
        · exact absurd (hend.trans hbytes ▸ List.prefix_append _ _) hwhole

/-- The close is cut in its length. -/
def sampleCommands : List (WriterCommand × Socket) :=
  [(.frame sampleCommand 0 0, ⟨none, .ok ()⟩),
    (.close 0, ⟨some (1, ⟨.timedOut, "MST5 close timed out"⟩), .ok ()⟩)]

theorem sampleCommands_sendable : ∀ c ∈ sampleCommands, ∀ frame ∈ carried c.1, Sendable frame := by
  intro c hc frame hframe
  rcases List.mem_pair.mp hc with rfl | rfl
  · obtain rfl : sampleCommand = frame := Option.some.inj hframe
    exact ⟨⟨by decide, rfl, by decide⟩, by decide, by decide, by decide⟩
  · cases hframe

theorem frames_arrive_cut : let w : Writer := ⟨.start (Session.new sampleKey sampleHash), []⟩
    let r : ReaderState := ⟨.new sampleKey, sampleHash, sampleDecompressors.zstdDecompress, []⟩
    readerLoop checksumWriter.toRecordCrypto 64 sampleDecompressors 2 r
      ⟨(writerLoop checksumWriter w sampleCommands).1, none⟩ <+: [sampleCommand] :=
  (frames_arrive checksumWriter_detached (checksumAead_correct _) (InStep.start _ _ _ _)
    sampleCommands_sendable (by decide) 64 2 none List.prefix_rfl).1

end Mst5Client.FrameChannel
