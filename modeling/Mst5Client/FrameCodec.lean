import Mst5Client.FrameDecoding

set_option autoImplicit false

/-!
# Frames on the wire

`Frame::encode_into` of `src/lib.rs` beside the two decoders and the browser's `frame_encode`.
-/
namespace Mst5Client.FrameCodec
open ByteOrder IoResult ConnectionState BrowserRecords FrameDecoding

/-- `out` is the caller's buffer; an error leaves it alone. -/
def encodeInto (frame : Frame) (out : Bytes) : Except IoError Bytes :=
  if frame.flags ≠ 0 then .error (invalidInput "client MST5 frames must not use compression")
  else if maxWirePayload < frame.payload.length then
    .error (invalidInput "MST5 wire payload is too large")
  else
    let out := clear out
    let out := out ++ [frame.kind]
    let out := out ++ [frame.flags]
    let out := out ++ beBytes 2 frame.code
    let out := out ++ beBytes 8 frame.id
    let out := out ++ frame.requestNonce.toList
    let out := out ++ beBytes 8 frame.deadlineMs
    let out := out ++ beBytes 4 frame.payload.length
    .ok (out ++ frame.payload)

def encode (frame : Frame) : Except IoError Bytes := encodeInto frame []

section Layout
variable (kind flags : UInt8) (code id : ℕ) (nonce : Bytes) (deadlineMs : ℕ) (payload : Bytes)

def frameBytes : Bytes :=
  kind :: flags :: (beBytes 2 code ++ beBytes 8 id ++ nonce ++ beBytes 8 deadlineMs ++
    beBytes 4 payload.length ++ payload)

theorem slice_middle (before field after : Bytes) {n k : ℕ} (hbefore : before.length = n)
    (hfield : field.length = k) : ((before ++ (field ++ after)).drop n).take k = field := by
  rw [List.drop_left' hbefore, List.take_left' hfield]

variable {kind flags code id nonce deadlineMs payload}

theorem codeOf_frameBytes (h : code < 2 ^ 16) :
    codeOf (frameBytes kind flags code id nonce deadlineMs payload) = code := by
  have hslice := slice_middle [kind, flags] (beBytes 2 code)
    (beBytes 8 id ++ nonce ++ beBytes 8 deadlineMs ++ beBytes 4 payload.length ++ payload) (n := 2) rfl
    (beBytes_length 2 _)
  simp only [frameBytes, codeOf, List.append_assoc, List.cons_append, List.nil_append] at hslice ⊢
  rw [hslice, ofBe_beBytes_of_lt h]

theorem idOf_frameBytes (h : id < 2 ^ 64) :
    idOf (frameBytes kind flags code id nonce deadlineMs payload) = id := by
  have hslice := slice_middle (kind :: flags :: beBytes 2 code) (beBytes 8 id)
    (nonce ++ beBytes 8 deadlineMs ++ beBytes 4 payload.length ++ payload) (n := 4) (by simp)
      (beBytes_length 8 _)
  simp only [frameBytes, idOf, List.append_assoc, List.cons_append] at hslice ⊢
  rw [hslice, ofBe_beBytes_of_lt h]

section Nonce
variable (hnonce : nonce.length = 16)
include hnonce

theorem requestNonceOf_frameBytes :
    requestNonceOf (frameBytes kind flags code id nonce deadlineMs payload) = ⟨nonce, hnonce⟩ := by
  have hslice := slice_middle (kind :: flags :: (beBytes 2 code ++ beBytes 8 id)) nonce
    (beBytes 8 deadlineMs ++ beBytes 4 payload.length ++ payload) (n := 12) (by simp) hnonce
  simp only [frameBytes, requestNonceOf, List.append_assoc, List.cons_append] at hslice ⊢
  rw [hslice]
  exact blockOf_toList ⟨nonce, hnonce⟩

theorem deadlineOf_frameBytes (h : deadlineMs < 2 ^ 64) :
    deadlineOf (frameBytes kind flags code id nonce deadlineMs payload) = deadlineMs := by
  have hslice := slice_middle (kind :: flags :: (beBytes 2 code ++ beBytes 8 id ++ nonce))
    (beBytes 8 deadlineMs)
    (beBytes 4 payload.length ++ payload) (n := 28) (by simp [hnonce]) (beBytes_length 8 _)
  simp only [frameBytes, deadlineOf, List.append_assoc, List.cons_append] at hslice ⊢
  rw [hslice, ofBe_beBytes_of_lt h]

theorem payloadLenOf_frameBytes (h : payload.length < 2 ^ 32) :
    payloadLenOf (frameBytes kind flags code id nonce deadlineMs payload) = payload.length := by
  have hslice := slice_middle
    (kind :: flags :: (beBytes 2 code ++ beBytes 8 id ++ nonce ++ beBytes 8 deadlineMs))
    (beBytes 4 payload.length) payload (n := 36) (by simp [hnonce]) (beBytes_length 4 _)
  simp only [frameBytes, payloadLenOf, List.append_assoc, List.cons_append] at hslice ⊢
  rw [hslice, ofBe_beBytes_of_lt h]

theorem wirePayload_frameBytes :
    wirePayload (frameBytes kind flags code id nonce deadlineMs payload) = payload := by
  rw [frameBytes, wirePayload, ← List.cons_append, ← List.cons_append]
  exact List.drop_left' (by simp [hnonce, headerLen])

theorem frameBytes_length :
    (frameBytes kind flags code id nonce deadlineMs payload).length = headerLen + payload.length := by
  simp only [frameBytes, List.length_cons, List.length_append, beBytes_length, hnonce, headerLen]
  omega

end Nonce

theorem frameBytes_fields {input : Bytes} (hheader : headerLen ≤ input.length)
    (hsize : input.length = headerLen + payloadLenOf input) :
    frameBytes (kindOf input) (flagsOf input) (codeOf input) (idOf input) (requestNonceOf input).toList
      (deadlineOf input) (wirePayload input) = input := by
  have hlen : 40 ≤ input.length := hheader
  have hfield : ∀ n k, n + k ≤ 40 → ((input.drop n).take k).length = k := by
    intro n k hk
    rw [List.length_take, List.length_drop]
    omega
  have hbytes : ∀ n k, n + k ≤ 40 →
      beBytes k (ofBe ((input.drop n).take k)) = (input.drop n).take k := by
    intro n k hk
    have h := beBytes_ofBe ((input.drop n).take k)
    rwa [hfield n k hk] at h
  have hpayload : (wirePayload input).length = payloadLenOf input := by
    rw [wirePayload, List.length_drop, hsize, Nat.add_sub_cancel_left]
  have hjoin : ∀ n k, (input.drop n).take k ++ input.drop (n + k) = input.drop n := by
    intro n k
    rw [← List.drop_drop, List.take_append_drop]
  rw [frameBytes, hpayload, codeOf, idOf, requestNonceOf, deadlineOf, payloadLenOf,
    hbytes 2 2 (by norm_num), hbytes 4 8 (by norm_num), hbytes 28 8 (by norm_num),
    hbytes 36 4 (by norm_num),
    toList_blockOf (hfield 12 16 (by norm_num)), wirePayload, headerLen]
  simp only [List.append_assoc]
  rw [hjoin 36 4, hjoin 28 8, hjoin 12 16, hjoin 4 8, hjoin 2 2]
  cases input with
  | nil => cases hlen
  | cons first rest =>
    cases rest with
    | nil => exact absurd hlen (by simp)
    | cons second rest => rfl

end Layout

variable {bits : ℕ} {D : Decompressors} {input : Bytes}

structure Plain (input : Bytes) : Prop where
  header : headerLen ≤ input.length
  flags : flagsOf input = 0
  size : input.length = headerLen + payloadLenOf input
  short : payloadLenOf input ≤ maxWirePayload

theorem decode_plain (hflags : flagsOf input = 0) (frame : Frame) :
    decode bits D input true = .ok frame ↔ Plain input ∧ validKind (kindOf input) = true ∧
      frame = ⟨kindOf input, 0, codeOf input, idOf input, requestNonceOf input, deadlineOf input,
        wirePayload input⟩ := by
  have hpayload : inflate bits D input = .ok (wirePayload input) := by
    rw [inflate, hflags, if_neg (by decide), if_neg (by decide)]
  simp only [decode, decodeWithZstd, ↓reduceIte, ite_error_eq_ok, bind_eq_ok_iff, hpayload, hflags]
  constructor
  · rintro ⟨hheader, hvalid, -, hsize, payload, hwire, -, -, hframe⟩
    cases hwire
    push Not at hvalid hsize
    exact ⟨⟨Nat.not_lt.mp hheader, hflags, hsize.2, hsize.1⟩, by simpa using hvalid.1,
      (Except.ok.inj hframe).symm⟩
  · rintro ⟨hplain, hvalid, rfl⟩
    have hlen : (wirePayload input).length = payloadLenOf input := by
      rw [wirePayload, List.length_drop, hplain.size, Nat.add_sub_cancel_left]
    refine ⟨Nat.not_lt.mpr hplain.header, ?_, by simp, ?_, _, rfl, ?_, by simp, rfl⟩
    · rw [hvalid]
      decide
    · push Not
      exact ⟨hplain.short, hplain.size⟩
    · rw [hlen]
      exact Nat.not_lt.mpr hplain.short

theorem frameDecode_plain (hplain : Plain input) :
    frameDecode D input = .ok ⟨kindOf input, codeOf input, idOf input, wirePayload input⟩ := by
  have hheader := hplain.header
  have hsize := hplain.size
  have hshort := hplain.short
  unfold headerLen maxWirePayload at *
  rw [frameDecode, if_neg (by omega), if_neg (by rw [hplain.flags]; decide), if_neg (by omega),
    browserPayload, hplain.flags, if_neg (by decide)]
  rfl

theorem plain_frameBytes {kind : UInt8} {code id : ℕ} {nonce : Bytes} (hnonce : nonce.length = 16)
    {deadlineMs : ℕ} {payload : Bytes} (hpayload : payload.length ≤ maxWirePayload) :
    Plain (frameBytes kind 0 code id nonce deadlineMs payload) := by
  have hlen : payloadLenOf (frameBytes kind 0 code id nonce deadlineMs payload) = payload.length := by
    unfold maxWirePayload at hpayload
    exact payloadLenOf_frameBytes hnonce (by omega)
  refine ⟨?_, rfl, ?_, ?_⟩
  · rw [frameBytes_length hnonce]
    exact Nat.le_add_right _ _
  · rw [frameBytes_length hnonce, hlen]
  · rwa [hlen]

theorem decode_frameBytes {kind : UInt8} (hkind : validKind kind = true) {code id deadlineMs : ℕ}
    (hcode : code < 2 ^ 16) (hid : id < 2 ^ 64) (hdeadline : deadlineMs < 2 ^ 64) (nonce : Block 16)
    {payload : Bytes} (hpayload : payload.length ≤ maxWirePayload) :
    decode bits D (frameBytes kind 0 code id nonce.toList deadlineMs payload) true =
      .ok ⟨kind, 0, code, id, nonce, deadlineMs, payload⟩ := by
  have hnonce : nonce.toList.length = 16 := block_length nonce
  rw [decode_plain rfl]
  refine ⟨plain_frameBytes hnonce hpayload, hkind, ?_⟩
  rw [codeOf_frameBytes hcode, idOf_frameBytes hid, requestNonceOf_frameBytes hnonce,
    deadlineOf_frameBytes hnonce hdeadline, wirePayload_frameBytes hnonce]
  rfl

variable {kind : UInt8} {code id : ℕ} {payload : Bytes} {frame : Frame}

/-- A frame that the client can build. -/
structure Admitted (frame : Frame) : Prop where
  kind : validKind frame.kind = true
  flags : frame.flags = 0
  payload : frame.payload.length ≤ maxPlainPayload

theorem new_eq_ok (h : Frame.new kind code id payload = .ok frame) :
    Admitted frame ∧ frame = ⟨kind, 0, code, id, zeroNonce, 0, payload⟩ := by
  simp only [Frame.new, ite_error_eq_ok, Bool.not_eq_false, Nat.not_lt, Except.ok.injEq] at h
  obtain ⟨hkind, hpayload, rfl⟩ := h
  exact ⟨⟨hkind, rfl, hpayload⟩, rfl⟩

theorem request_eq_ok {nonce : Block 16} {deadlineMs : ℕ}
    (h : Frame.request kind code id nonce deadlineMs payload = .ok frame) :
    Admitted frame ∧ frame = ⟨kind, 0, code, id, nonce, deadlineMs, payload⟩ := by
  obtain ⟨plain, hplain, hframe⟩ := bind_eq_ok h
  obtain ⟨hadmitted, rfl⟩ := new_eq_ok hplain
  cases hframe
  exact ⟨⟨hadmitted.kind, hadmitted.flags, hadmitted.payload⟩, rfl⟩

theorem encodeInto_eq (hflags : frame.flags = 0) (hpayload : frame.payload.length ≤ maxWirePayload)
    (out : Bytes) :
    encodeInto frame out = .ok (frameBytes frame.kind 0 frame.code frame.id frame.requestNonce.toList
      frame.deadlineMs frame.payload) := by
  rw [encodeInto, if_neg (not_not.mpr hflags), if_neg (Nat.not_lt.mpr hpayload), hflags]
  simp only [clear, frameBytes, List.nil_append, List.append_assoc, List.cons_append]

theorem frameEncode_eq_ok {random : Option (Block 16)} {bytes : Bytes}
    (h : frameEncode random kind code id payload = .ok bytes) :
    payload.length ≤ maxRecordBytes ∧ ∃ nonce :
    Block 16, bytes = frameBytes kind 0 code id nonce.toList 0 payload := by
  unfold frameEncode at h
  rw [ite_error_eq_ok, Nat.not_lt] at h
  obtain ⟨hpayload, h⟩ := h
  refine ⟨hpayload, ?_⟩
  split_ifs at h with hkind
  · cases random with
    | none => cases h
    | some nonce => exact ⟨nonce, (Except.ok.inj h).symm⟩
  · exact ⟨zeroNonce, (Except.ok.inj h).symm⟩

/-- Frames built by the client survive both decoders, what the native decoder reads uncompressed is
written back byte for byte, and what the browser writes is read natively. -/
theorem frame_codec_round_trips (bits : ℕ) (D : Decompressors) :
    (∀ (kind : UInt8) (code id : ℕ) (nonce : Block 16) (deadlineMs : ℕ) (payload : Bytes)
      (frame : Frame), code < 2 ^ 16 → id < 2 ^ 64 → deadlineMs < 2 ^ 64 →
      Frame.new kind code id payload = .ok frame ∨
        Frame.request kind code id nonce deadlineMs payload = .ok frame →
      ∃ bytes, encode frame = .ok bytes ∧ decode bits D bytes true = .ok frame ∧ frame.flags = 0 ∧
        frameDecode D bytes = .ok ⟨frame.kind, frame.code, frame.id, frame.payload⟩) ∧
    (∀ (input : Bytes) (frame : Frame), flagsOf input = 0 → decode bits D input true = .ok frame →
      encode frame = .ok input) ∧
    ∀ (random : Option (Block 16)) (kind : UInt8) (code id : ℕ) (payload bytes : Bytes), code < 2 ^ 16 →
      id < 2 ^ 64 → validKind kind = true → frameEncode random kind code id payload = .ok bytes →
      ∃ frame, decode bits D bytes true = .ok frame ∧ frame.kind = kind ∧ frame.code = code ∧
        frame.id = id ∧ frame.payload = payload ∧ frame.deadlineMs = 0 := by
  refine ⟨?_, ?_, ?_⟩
  · intro kind code id nonce deadlineMs payload frame hcode hid hdeadline h
    have hframe : Admitted frame ∧ frame.code < 2 ^ 16 ∧ frame.id < 2 ^ 64 ∧
        frame.deadlineMs < 2 ^ 64 := by
      obtain h | h := h
      · obtain ⟨hadmitted, rfl⟩ := new_eq_ok h
        exact ⟨hadmitted, hcode, hid, by norm_num⟩
      · obtain ⟨hadmitted, rfl⟩ := request_eq_ok h
        exact ⟨hadmitted, hcode, hid, hdeadline⟩
    obtain ⟨hadmitted, hcode, hid, hdeadline⟩ := hframe
    have hnonce : frame.requestNonce.toList.length = 16 := block_length _
    have hflags := hadmitted.flags
    refine ⟨_, encodeInto_eq hflags hadmitted.payload [], ?_, hflags, ?_⟩
    · rw [decode_frameBytes hadmitted.kind hcode hid hdeadline _ hadmitted.payload, ← hflags]
    · rw [frameDecode_plain (plain_frameBytes hnonce hadmitted.payload), codeOf_frameBytes hcode,
        idOf_frameBytes hid, wirePayload_frameBytes hnonce]
      rfl
  · intro input frame hflags h
    obtain ⟨hplain, -, rfl⟩ := (decode_plain hflags frame).mp h
    have hpayload : (wirePayload input).length ≤ maxWirePayload := by
      have hshort := hplain.short
      have hsize := hplain.size
      rw [wirePayload, List.length_drop]
      omega
    rw [encode, encodeInto_eq rfl hpayload]
    dsimp only
    rw [← hflags, frameBytes_fields hplain.header hplain.size]
  · intro random kind code id payload bytes hcode hid hkind h
    obtain ⟨hpayload, nonce, rfl⟩ := frameEncode_eq_ok h
    exact ⟨_, decode_frameBytes hkind hcode hid (by norm_num) nonce hpayload, rfl, rfl, rfl, rfl, rfl⟩

def sampleCommand : Frame := ⟨2, 0, 7, 9, blockOf 16 [1, 2], 11, [3, 4, 5]⟩

theorem frame_codec_round_trips_command :
    (∃ bytes, encode sampleCommand = .ok bytes ∧ decode 64 sampleDecompressors bytes true =
      .ok sampleCommand ∧
      sampleCommand.flags = 0 ∧ frameDecode sampleDecompressors bytes = .ok ⟨2, 7, 9, [3, 4, 5]⟩) ∧
    encode ⟨kindAck, 0, 0, 0, zeroNonce, 0, []⟩ = .ok (sampleFrame kindAck false) ∧
    ∃ frame, decode 64 sampleDecompressors (frameBytes 3 0 7 9 zeroNonce.toList 0 [6]) true =
      .ok frame ∧
      frame.kind = 3 ∧ frame.code = 7 ∧ frame.id = 9 ∧ frame.payload = [6] ∧ frame.deadlineMs = 0 := by
  obtain ⟨built, accepted, browser⟩ := frame_codec_round_trips 64 sampleDecompressors
  refine ⟨?_, ?_, ?_⟩
  · exact built 2 7 9 (blockOf 16 [1, 2]) 11 [3, 4, 5] sampleCommand (by decide) (by decide)
      (by decide) (.inr rfl)
  · exact accepted (sampleFrame kindAck false) _ rfl (by decide +kernel)
  · exact browser none 3 7 9 [6] _ (by decide) (by decide) rfl rfl

end Mst5Client.FrameCodec
