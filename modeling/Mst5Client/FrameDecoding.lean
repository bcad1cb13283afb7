import Mathlib.Data.FinEnum
import Mst5Client.BrowserRecords
import Mst5Client.ConnectionState
import Mst5Client.IdentityMessages

set_option autoImplicit false

/-!
# Decoding a frame, natively and in the browser

`Frame::decode` of `src/lib.rs` and `frame_decode` of `wasm/src/lib.rs`. The decompression libraries
are parameters; `bits` is the width of the native `usize`.
-/
namespace Mst5Client.FrameDecoding
open ByteOrder IoResult ConnectionState BrowserRecords
open IdentityMessages (saturatingMul)

structure Decompressors where
  decompressToVecWithLimit : Bytes → ℕ → Option Bytes
  zstdDecompress : Bytes → ℕ → Option Bytes
  /-- What the browser reads from a `DeflateDecoder` that it stops after so many bytes. -/
  readToEnd : Bytes → ℕ → Option Bytes

def headerLen : ℕ := 40
def flagDeflate : UInt8 := 1
def flagZstd : UInt8 := 2
def maxWirePayload : ℕ := 4 * 1024 * 1024
def maxCompressionRatio : ℕ := 64

section Header
variable (input : Bytes)

def kindOf : UInt8 := input.getD 0 0

def flagsOf : UInt8 := input.getD 1 0

def codeOf : ℕ := ofBe ((input.drop 2).take 2)

def idOf : ℕ := ofBe ((input.drop 4).take 8)

def requestNonceOf : Block 16 := blockOf 16 ((input.drop 12).take 16)

def deadlineOf : ℕ := ofBe ((input.drop 28).take 8)

def payloadLenOf : ℕ := ofBe ((input.drop 36).take 4)

def wirePayload : Bytes := input.drop headerLen

end Header

section Native
variable (bits : ℕ) (D : Decompressors) (input : Bytes)

def zstdDecompressBounded (limit : ℕ) : Except IoError Bytes :=
  if input = [] then .error (invalidData "empty MST5 zstd payload")
  else
    match D.zstdDecompress input limit with
    | none => .error (invalidData "invalid or oversized MST5 zstd payload")
    | some output =>
      if limit < output.length then .error (invalidData "inflated MST5 payload is too large")
      else if saturatingMul bits input.length maxCompressionRatio < output.length then
        .error (invalidData "MST5 compression ratio exceeds limit")
      else .ok output

def inflate : Except IoError Bytes :=
  if flagsOf input &&& flagDeflate ≠ 0 then
    match D.decompressToVecWithLimit (wirePayload input) maxPlainPayload with
    | none => .error (invalidData "invalid or oversized MST5 deflate payload")
    | some payload => .ok payload
  else if flagsOf input &&& flagZstd ≠ 0 then zstdDecompressBounded bits D (wirePayload input)
    maxPlainPayload
  else .ok (wirePayload input)

def decodeWithZstd : Except IoError Frame :=
  if input.length < headerLen then .error ⟨.unexpectedEof, "short MST5 frame"⟩
  else
    let kind := kindOf input
    let flags := flagsOf input
    let compressed := flags &&& (flagDeflate ||| flagZstd)
    if validKind kind = false ∨ flags &&& ~~~(flagDeflate ||| flagZstd) ≠ 0 ∨
        compressed = flagDeflate ||| flagZstd then
      .error (invalidData "invalid MST5 frame header")
    else if compressed ≠ 0 ∧ kind ≠ kindResult ∧ kind ≠ kindEventBatch then
      .error (invalidData "compressed MST5 control frame")
    else if maxWirePayload < payloadLenOf input ∨ input.length ≠ headerLen + payloadLenOf input then
      .error (invalidData "invalid MST5 payload length")
    else do
      let payload ← inflate bits D input
      if maxPlainPayload < payload.length then .error (invalidData "inflated MST5 payload is too large")
      else if compressed ≠ 0 ∧ wirePayload input ≠ [] ∧
          saturatingMul bits (wirePayload input).length maxCompressionRatio < payload.length then
        .error (invalidData "MST5 compression ratio exceeds limit")
      else .ok ⟨kind, flags, codeOf input, idOf input, requestNonceOf input, deadlineOf input, payload⟩

/-- `ready` is whether the decompressor could be created. -/
def decode (ready : Bool) : Except IoError Frame :=
  if ready then decodeWithZstd bits D input
  else .error (invalidData "cannot initialize MST5 zstd decompressor")

end Native

structure BrowserFrame where
  kind : UInt8
  code : ℕ
  id : ℕ
  payload : Bytes
deriving DecidableEq

def browserPayload (D : Decompressors) (input : Bytes) : Except JsError Bytes :=
  if flagsOf input = flagDeflate then
    match D.readToEnd (wirePayload input) (maxRecordBytes + 1) with
    | none => .error ⟨"invalid MST5 deflate payload"⟩
    | some output =>
      if maxRecordBytes < output.length then .error ⟨"MST5 deflate payload exceeds the frame limit"⟩
      else .ok output
  else .ok (wirePayload input)

def frameDecode (D : Decompressors) (input : Bytes) : Except JsError BrowserFrame :=
  if input.length < 40 then .error ⟨"invalid MST5 frame"⟩
  else if flagsOf input &&& ~~~flagDeflate ≠ 0 then .error ⟨"unsupported MST5 frame compression"⟩
  -- `usize` has 32 bits here
  else if input.length ≠ (40 + payloadLenOf input) % 2 ^ 32 then .error ⟨"invalid MST5 frame size"⟩
  else do
    let payload ← browserPayload D input
    return ⟨kindOf input, codeOf input, idOf input, payload⟩

/-- The two libraries inflate to the same bytes up to the limit of a frame. -/
def SameInflate (D : Decompressors) : Prop :=
  ∀ wire output, D.decompressToVecWithLimit wire maxPlainPayload = some output ↔
    D.readToEnd wire (maxRecordBytes + 1) = some output ∧ output.length ≤ maxRecordBytes

/-- A header with its payload, deflated or as it is. -/
structure Framed (input : Bytes) : Prop where
  header : headerLen ≤ input.length
  size : input.length = headerLen + payloadLenOf input
  flags : flagsOf input = 0 ∨ flagsOf input = flagDeflate

/-- What the frame carries for the caller. -/
def Carries (D : Decompressors) (input payload : Bytes) : Prop :=
  if flagsOf input = flagDeflate then
    D.decompressToVecWithLimit (wirePayload input) maxPlainPayload = some payload
  else wirePayload input = payload

instance (D : Decompressors) (input payload : Bytes) : Decidable (Carries D input payload) :=
  inferInstanceAs (Decidable (if flagsOf input = flagDeflate then _ = some payload else _ = payload))

/-- The rules of the protocol about the kind of a frame and about compression. -/
structure Permitted (input payload : Bytes) : Prop where
  kind : validKind (kindOf input) = true
  control : flagsOf input = flagDeflate → kindOf input = kindResult ∨ kindOf input = kindEventBatch
  ratio : flagsOf input = flagDeflate → wirePayload input ≠ [] →
    payload.length ≤ maxCompressionRatio * (wirePayload input).length

theorem known_flags_native : ∀ flags : UInt8, flags &&& flagZstd = 0 →
    ((flags &&& ~~~(flagDeflate ||| flagZstd) = 0 ∧
      flags &&& (flagDeflate ||| flagZstd) ≠ flagDeflate ||| flagZstd) ↔
      flags = 0 ∨ flags = flagDeflate) := by
  decide +kernel

theorem compressed_iff {flags : UInt8} (h : flags = 0 ∨ flags = flagDeflate) :
    flags &&& (flagDeflate ||| flagZstd) ≠ 0 ↔ flags = flagDeflate := by
  obtain rfl | rfl := h <;> decide

theorem known_flags_browser : ∀ flags : UInt8,
    flags &&& ~~~flagDeflate = 0 ↔ flags = 0 ∨ flags = flagDeflate := by
  decide +kernel

variable {bits : ℕ} {D : Decompressors} {input : Bytes}

theorem payloadLen_lt (input : Bytes) : payloadLenOf input < 2 ^ 32 := by
  calc payloadLenOf input < 256 ^ ((input.drop 36).take 4).length := ofBe_lt _
    _ ≤ 256 ^ 4 := Nat.pow_le_pow_right (by norm_num) (List.length_take_le _ _)
    _ = 2 ^ 32 := by norm_num

theorem browser_size (hheader : headerLen ≤ input.length)
    (hmax : input.length ≤ headerLen + maxWirePayload) :
    input.length = (40 + payloadLenOf input) % 2 ^ 32 ↔
      input.length = headerLen + payloadLenOf input := by
  have hlt := payloadLen_lt input
  unfold headerLen maxWirePayload at *
  omega

theorem browserPayload_eq_ok (hsame : SameInflate D) (payload : Bytes) :
    browserPayload D input = .ok payload ↔ Carries D input payload := by
  unfold browserPayload Carries
  split_ifs with hflag
  · rw [hsame]
    cases D.readToEnd (wirePayload input) (maxRecordBytes + 1) with
    | none => simp
    | some output =>
      rw [ite_error_eq_ok, Except.ok.injEq, Option.some.injEq, Nat.not_lt]
      constructor
      · rintro ⟨hle, rfl⟩
        exact ⟨rfl, hle⟩
      · rintro ⟨rfl, hle⟩
        exact ⟨hle, rfl⟩
  · rw [Except.ok.injEq]

theorem frameDecode_eq_ok (hsame : SameInflate D) (hmax : input.length ≤ headerLen + maxWirePayload)
    (frame : BrowserFrame) :
    frameDecode D input = .ok frame ↔ Framed input ∧ Carries D input frame.payload ∧
      frame = ⟨kindOf input, codeOf input, idOf input, frame.payload⟩ := by
  unfold frameDecode
  rw [ite_error_eq_ok, ite_error_eq_ok, ite_error_eq_ok, not_not, not_not, Nat.not_lt,
    known_flags_browser, bind_eq_ok_iff]
  constructor
  · rintro ⟨hheader, hflags, hsize, payload, hpayload, h⟩
    cases h
    exact ⟨⟨hheader, (browser_size hheader hmax).mp hsize, hflags⟩,
      (browserPayload_eq_ok hsame payload).mp hpayload, rfl⟩
  · rintro ⟨hframed, hcarries, hframe⟩
    refine ⟨hframed.header, hframed.flags, (browser_size hframed.header hmax).mpr hframed.size,
      frame.payload, (browserPayload_eq_ok hsame _).mpr hcarries, ?_⟩
    rw [hframe]
    rfl

theorem Carries.length_le (hsame : SameInflate D) (hmax : input.length ≤ headerLen + maxWirePayload)
    {payload : Bytes} (h : Carries D input payload) : payload.length ≤ maxPlainPayload := by
  unfold Carries at h
  split_ifs at h with hflag
  · exact ((hsame _ _).mp h).2
  · rw [← h, wirePayload, List.length_drop]
    exact Nat.sub_le_iff_le_add'.mpr hmax

theorem inflate_eq_ok (hflags : flagsOf input = 0 ∨ flagsOf input = flagDeflate) (payload : Bytes) :
    inflate bits D input = .ok payload ↔ Carries D input payload := by
  unfold inflate Carries
  obtain h | h := hflags
  · rw [h, if_neg (by decide), if_neg (by decide), if_neg (by decide), Except.ok.injEq]
  · rw [h, if_pos (by decide), if_pos rfl]
    cases D.decompressToVecWithLimit (wirePayload input) maxPlainPayload with
    | none => simp
    | some output => rw [Except.ok.injEq, Option.some.injEq]

theorem ratio_limit (hbits : 32 ≤ bits) (hmax : input.length ≤ headerLen + maxWirePayload) :
    saturatingMul bits (wirePayload input).length maxCompressionRatio =
      maxCompressionRatio * (wirePayload input).length := by
  have hpow : 2 ^ 32 ≤ 2 ^ bits := Nat.pow_le_pow_right (by norm_num) hbits
  have hlen : (wirePayload input).length ≤ input.length := by
    rw [wirePayload, List.length_drop]
    exact Nat.sub_le _ _
  unfold saturatingMul maxCompressionRatio headerLen maxWirePayload at *
  omega

theorem decode_eq_ok (hsame : SameInflate D) (hbits : 32 ≤ bits)
    (hmax : input.length ≤ headerLen + maxWirePayload) (hzstd : flagsOf input &&& flagZstd = 0)
    (frame : Frame) :
    decode bits D input true = .ok frame ↔ Framed input ∧ Carries D input frame.payload ∧
      Permitted input frame.payload ∧
      frame = ⟨kindOf input, flagsOf input, codeOf input, idOf input, requestNonceOf input,
        deadlineOf input, frame.payload⟩ := by
  have hflags := known_flags_native (flagsOf input) hzstd
  simp only [decode, decodeWithZstd, ↓reduceIte, ite_error_eq_ok, bind_eq_ok_iff,
    ratio_limit hbits hmax, Except.ok.injEq]
  constructor
  · rintro ⟨hheader, hvalid, hcontrol, hsize, payload, hpayload, -, hratio, rfl⟩
    push Not at hvalid hcontrol hsize hratio
    have hknown := hflags.mp hvalid.2
    rw [compressed_iff hknown] at hcontrol hratio
    refine ⟨⟨Nat.not_lt.mp hheader, hsize.2, hknown⟩, (inflate_eq_ok hknown payload).mp hpayload,
      ?_, rfl⟩
    refine ⟨Bool.not_eq_false _ ▸ hvalid.1, fun hflag => ?_, hratio⟩
    by_cases hkind : kindOf input = kindResult
    · exact .inl hkind
    · exact .inr (hcontrol hflag hkind)
  · rintro ⟨hframed, hcarries, hpermitted, hframe⟩
    have hlen := hcarries.length_le hsame hmax
    refine ⟨Nat.not_lt.mpr hframed.header, ?_, ?_, ?_, frame.payload,
      (inflate_eq_ok hframed.flags _).mpr hcarries, Nat.not_lt.mpr hlen, ?_, hframe.symm⟩
    · have hknown := hflags.mpr hframed.flags
      push Not
      exact ⟨by rw [hpermitted.kind]; decide, hknown⟩
    · rw [compressed_iff hframed.flags]
      rintro ⟨hflag, hresult, hbatch⟩
      obtain h | h := hpermitted.control hflag
      · exact hresult h
      · exact hbatch h
    · have hsize := hframed.size
      push Not
      exact ⟨by omega, hsize⟩
    · rw [compressed_iff hframed.flags]
      rintro ⟨hflag, hwire, hlt⟩
      exact absurd (hpermitted.ratio hflag hwire) (Nat.not_le.mpr hlt)

theorem Carries.unique {payload payload' : Bytes} (h : Carries D input payload)
    (h' : Carries D input payload') : payload = payload' := by
  unfold Carries at h h'
  split_ifs at h h' with hflag
  · exact Option.some.inj (h.symm.trans h')
  · exact h.symm.trans h'

/-- Both decoders accept the same frames with the same contents exactly when the browser's is not
handed one that the protocol forbids. -/
theorem decoders_agree_iff {bits : ℕ} {D : Decompressors} {input : Bytes} (hsame : SameInflate D)
    (hbits : 32 ≤ bits) (hmax : input.length ≤ 40 + 4 * 1024 * 1024)
    (hzstd : flagsOf input &&& flagZstd = 0) :
    (((∃ f, frameDecode D input = .ok f) ↔ ∃ g, decode bits D input true = .ok g) ∧
      ∀ f g, frameDecode D input = .ok f → decode bits D input true = .ok g →
        f.kind = g.kind ∧ f.code = g.code ∧ f.id = g.id ∧ f.payload = g.payload) ↔
    ∀ payload, Framed input → Carries D input payload → Permitted input payload := by
  have browser := frameDecode_eq_ok hsame hmax
  have native := decode_eq_ok hsame hbits hmax hzstd
  constructor
  · rintro ⟨haccept, -⟩ payload hframed hcarries
    obtain ⟨g, hg⟩ := haccept.mp ⟨_, (browser ⟨_, _, _, payload⟩).mpr ⟨hframed, hcarries, rfl⟩⟩
    obtain ⟨-, hcarries', hpermitted, -⟩ := (native g).mp hg
    rwa [hcarries'.unique hcarries] at hpermitted
  · intro hpermitted
    refine ⟨⟨?_, ?_⟩, ?_⟩
    · rintro ⟨f, hf⟩
      obtain ⟨hframed, hcarries, -⟩ := (browser f).mp hf
      exact ⟨_, (native ⟨_, _, _, _, _, _, f.payload⟩).mpr
        ⟨hframed, hcarries, hpermitted _ hframed hcarries, rfl⟩⟩
    · rintro ⟨g, hg⟩
      obtain ⟨hframed, hcarries, -, -⟩ := (native g).mp hg
      exact ⟨_, (browser ⟨_, _, _, g.payload⟩).mpr ⟨hframed, hcarries, rfl⟩⟩
    · intro f g hf hg
      obtain ⟨-, hcarries, hf⟩ := (browser f).mp hf
      obtain ⟨-, hcarries', -, hg⟩ := (native g).mp hg
      rw [hf, hg]
      exact ⟨rfl, rfl, rfl, hcarries.unique hcarries'⟩

def emptyStream (wire : Bytes) : Option Bytes := if wire = [3, 0] then some [] else none

def sampleDecompressors : Decompressors where
  decompressToVecWithLimit wire _ := emptyStream wire
  zstdDecompress _ _ := none
  readToEnd wire _ := emptyStream wire

theorem sampleDecompressors_same : SameInflate sampleDecompressors := by
  intro wire output
  change emptyStream wire = some output ↔ emptyStream wire = some output ∧ _
  unfold emptyStream
  split_ifs
  · constructor
    · rintro ⟨⟩
      exact ⟨rfl, Nat.zero_le _⟩
    · exact And.left
  · simp

def sampleFrame (kind : UInt8) (deflated : Bool) : Bytes :=
  if deflated then kind :: flagDeflate :: List.replicate 37 0 ++ [2, 3, 0]
  else kind :: List.replicate 39 0

theorem decoders_agree_iff_result :
    ((∃ f, frameDecode sampleDecompressors (sampleFrame kindResult true) = .ok f) ↔
      ∃ g, decode 64 sampleDecompressors (sampleFrame kindResult true) true = .ok g) := by
  refine ((decoders_agree_iff sampleDecompressors_same (by decide) (by decide) (by decide)).mpr ?_).1
  intro payload hframed hcarries
  refine ⟨by decide, fun _ => by decide, fun _ _ => ?_⟩
  have hempty : payload = [] := hcarries.unique (by decide)
  rw [hempty]
  exact Nat.zero_le _

/-- The browser takes a kind that does not exist and a compressed acknowledgement; the native decoder
refuses both. -/
theorem browser_accepts_forbidden :
    (frameDecode sampleDecompressors (sampleFrame 10 false) = .ok ⟨10, 0, 0, []⟩ ∧
      decode 64 sampleDecompressors (sampleFrame 10 false) true =
        .error (invalidData "invalid MST5 frame header")) ∧
    frameDecode sampleDecompressors (sampleFrame kindAck true) = .ok ⟨kindAck, 0, 0, []⟩ ∧
      decode 64 sampleDecompressors (sampleFrame kindAck true) true =
        .error (invalidData "compressed MST5 control frame") := by
  decide +kernel

end Mst5Client.FrameDecoding
