import Mst5Client.BrowserRequests
import Mst5Client.MediaStreams

set_option autoImplicit false

/-!
# Uploads of the browser client

`BrowserMediaUpload` and `Mst5E2eMediaUpload` of `wasm/src/lib.rs`. `usize` has `bits` bits.
-/
namespace Mst5Client.BrowserUploads
open ByteOrder IoResult AuthenticatedCipher TaskPrograms TaskTraces ProgramEnvironments
open BrowserRecords FrameDecoding BrowserRequests JsonValues
open ConnectionState (kindAck kindResult kindStreamOpen kindStreamData kindStreamEnd)
open MediaContainer (MediaKey MediaEncryptor encryptedMediaSize mediaChunkSize)
open MediaStreams (mediaHex mediaOpUpload)

/-- `establish` stands for `establish_media_session` and `media_authenticate`. -/
inductive WebOp where
  | establish
  | takeRequestId
  | writeFrame (kind : UInt8) (code id : ℕ) (payload : Bytes)
  | readMatchingFrame (id : ℕ)

abbrev WebAns : WebOp → Type
  | .establish => Except JsError Unit
  | .takeRequestId => Except JsError ℕ
  | .writeFrame _ _ _ _ => Except JsError Unit
  | .readMatchingFrame _ => Except JsError BrowserFrame

abbrev WebEvent := Event WebOp WebAns

abbrev Web := ExceptT JsError (Prog WebOp WebAns)

abbrev WebMethod (σ : Type) := Method WebOp WebAns JsError σ

def establish : Web Unit := Prog.perform WebOp.establish

def takeRequestId : Web ℕ := Prog.perform WebOp.takeRequestId

def writeFrame (kind : UInt8) (code id : ℕ) (payload : Bytes) : Web Unit :=
  Prog.perform (WebOp.writeFrame kind code id payload)

def readMatchingFrame (id : ℕ) : Web BrowserFrame := Prog.perform (WebOp.readMatchingFrame id)

def orThrow {α : Type} (message : String) : Option α → Except JsError α
  | some a => .ok a
  | none => .error ⟨message⟩

def fromExcept {α : Type} (x : Except JsError α) : Web α := ExceptT.mk (pure x)

def e2eError (e : IoError) : JsError := ⟨e.message⟩

section Slices
variable {α : Type}

def chunksFrom (n : ℕ) : ℕ → List α → List (List α)
  | 0, _ => []
  | fuel + 1, data => if data.isEmpty then [] else data.take n :: chunksFrom n fuel (data.drop n)

/-- `slice::chunks`. A slice has at least one element, so there are no more slices than elements. -/
def chunks (n : ℕ) (data : List α) : List (List α) := chunksFrom n data.length data

theorem chunksFrom_flatten {n fuel : ℕ} (hn : 0 < n) {data : List α} (hfuel : data.length ≤ fuel) :
    (chunksFrom n fuel data).flatten = data := by
  induction fuel generalizing data with
  | zero => exact (List.length_eq_zero_iff.mp (Nat.le_zero.mp hfuel)).symm
  | succ fuel ih =>
    rw [chunksFrom]
    split
    · rename_i hempty
      exact (List.isEmpty_iff.mp hempty).symm
    · rw [List.flatten_cons, ih (by rw [List.length_drop]; omega), List.take_append_drop]

theorem chunks_flatten {n : ℕ} (hn : 0 < n) (data : List α) : (chunks n data).flatten = data :=
  chunksFrom_flatten hn le_rfl

theorem mem_chunksFrom {n fuel : ℕ} (hn : 0 < n) {data slice : List α}
    (h : slice ∈ chunksFrom n fuel data) : slice ≠ [] ∧ slice.length ≤ n := by
  induction fuel generalizing data with
  | zero => exact absurd h List.not_mem_nil
  | succ fuel ih =>
    rw [chunksFrom] at h
    split at h
    · exact absurd h List.not_mem_nil
    · rename_i hdata
      obtain rfl | htail := List.mem_cons.mp h
      · refine ⟨?_, List.length_take_le n data⟩
        intro hnil
        rw [List.take_eq_nil_iff] at hnil
        obtain hzero | rfl := hnil
        · omega
        · exact hdata rfl
      · exact ih htail

variable {J : Type} (serde : Serde J)

def browserMediaChunk : ℕ := 16 * 1024

theorem min_browserMediaChunk_pos {size : ℕ} (h : 0 < size) : 0 < min browserMediaChunk size :=
  Nat.lt_min.mpr ⟨Nat.zero_lt_succ _, h⟩

def number (n : ℕ) : Json := .number (.posInt (UInt64.ofNat n))

def streamOpen (fileId : String) (expectedSize offset : ℕ) (checksum : Option String) : Json :=
  let members := collect [("file_id", .string fileId), ("size", number expectedSize),
    ("offset", number offset)]
  match checksum with
  | none => .object members
  | some checksum => .object (insertMember "sha256" (.string checksum) members)

def streamEnd (size : ℕ) (checksum : String) : Json :=
  .object (collect [("size", number size), ("sha256", .string checksum)])

def frameError (context : String) (frame : BrowserFrame) : JsError :=
  let message := ((serde.fromCbor frame.payload).bind
    fun value => (value.get "message").bind Json.asStr).getD
    ("MST5 status " ++ toString frame.code)
  ⟨context ++ ": " ++ message⟩

def serverChunk (bits offset : ℕ) (accepted : BrowserFrame) :
    Except JsError { size : ℕ // 0 < size } := do
  if accepted.kind ≠ kindAck ∨ accepted.code ≠ 100 then
    throw (frameError serde "media upload was rejected" accepted)
  let details ← orThrow "invalid media upload acknowledgement" (serde.fromCbor accepted.payload)
  let acceptedOffset := (((details.get "offset").bind Json.asU64).map UInt64.toNat).getD offset
  if acceptedOffset ≠ offset then throw ⟨"media node checkpoint mismatch"⟩
  match ((details.get "chunk_size").bind Json.asU64).map UInt64.toNat with
  | none => throw ⟨"media node did not provide a chunk size"⟩
  | some size =>
    if h : size < 2 ^ bits ∧ 0 < size then return ⟨size, h.2⟩
    else throw ⟨"media node did not provide a chunk size"⟩

theorem serverChunk_of_offer {bits offset : ℕ} {accepted : BrowserFrame} {details : Json}
    {size : UInt64} (hkind : accepted.kind = kindAck) (hcode : accepted.code = 100)
    (hdetails : serde.fromCbor accepted.payload = some details)
    (hoffset : (((details.get "offset").bind Json.asU64).map UInt64.toNat).getD offset = offset)
    (hsize : (details.get "chunk_size").bind Json.asU64 = some size) (hpos : 0 < size.toNat)
    (hbits : size.toNat < 2 ^ bits) :
    serverChunk serde bits offset accepted = .ok ⟨size.toNat, hpos⟩ := by
  have hanswer : ¬ (accepted.kind ≠ kindAck ∨ accepted.code ≠ 100) := by simp [hkind, hcode]
  have hvalid : size.toNat < 2 ^ bits ∧ 0 < size.toNat := ⟨hbits, hpos⟩
  rw [serverChunk, if_neg hanswer, hdetails]
  simp only [orThrow, bind, Except.bind, pure, Except.pure, hoffset, hsize, Option.map_some, ne_eq,
    not_true_eq_false, if_false, dif_pos hvalid]

end Slices

structure BrowserMediaUpload (bits : ℕ) where
  id : ℕ
  expectedSize : ℕ
  sent : ℕ
  chunkSize : ℕ
  hashed : Bytes
  resumeChecksum : Option String
  chunk_pos : 0 < chunkSize
  size_lt : expectedSize < 2 ^ bits

namespace BrowserMediaUpload
variable {bits : ℕ} {J : Type} (serde : Serde J) (sha256 : Bytes → Block 32)

def opened (id expectedSize offset : ℕ) (checksum : Option String)
    (size_lt : expectedSize < 2 ^ bits) (server : { size : ℕ // 0 < size }) :
    BrowserMediaUpload bits where
  id := id
  expectedSize := expectedSize
  sent := offset
  chunkSize := min browserMediaChunk server.1
  hashed := []
  resumeChecksum := checksum
  chunk_pos := min_browserMediaChunk_pos server.2
  size_lt := size_lt

def openWithOffset (fileId : String) (expectedSize offset : ℕ) (checksum : Option String)
    (size_lt : expectedSize < 2 ^ bits) : Web (BrowserMediaUpload bits) := do
  if expectedSize < offset then throw ⟨"media upload offset exceeds size"⟩
  let id ← takeRequestId
  let payload ← fromExcept (orThrow "cannot encode media stream open"
    (serde.toCbor (streamOpen fileId expectedSize offset checksum)))
  writeFrame kindStreamOpen mediaOpUpload id payload
  let accepted ← readMatchingFrame id
  let server ← fromExcept (serverChunk serde bits offset accepted)
  return opened id expectedSize offset checksum size_lt server

def openNew (fileId : String) (expectedSize : ℕ) (size_lt : expectedSize < 2 ^ bits) :
    Web (BrowserMediaUpload bits) := openWithOffset serde fileId expectedSize 0 none size_lt

def sendChunks : List Bytes → WebMethod (BrowserMediaUpload bits) Unit
  | [] => pure ()
  | chunk :: rest => do
    let u ← get
    set { u with hashed := u.hashed ++ chunk }
    Method.ofProgram (writeFrame kindStreamData 0 u.id chunk)
    modify fun u => { u with sent := u.sent + chunk.length }
    sendChunks rest

def write (data : Bytes) : WebMethod (BrowserMediaUpload bits) Unit := do
  let u ← get
  if u.expectedSize < min (u.sent + data.length) (2 ^ bits - 1) then -- `saturating_add`
    throw ⟨"media source exceeds its declared size"⟩
  sendChunks (chunks u.chunkSize data)

def finish : WebMethod (BrowserMediaUpload bits) Unit := do
  let u ← get
  if u.sent ≠ u.expectedSize then throw ⟨"media source ended before its declared size"⟩
  let checksum := u.resumeChecksum.getD (mediaHex (sha256 u.hashed).toList)
  Method.ofProgram do
    let payload ← fromExcept (orThrow "cannot encode media stream end"
      (serde.toCbor (streamEnd u.sent checksum)))
    writeFrame kindStreamEnd 200 u.id payload
    let result ← readMatchingFrame u.id
    if result.kind ≠ kindResult ∨ ¬ (200 ≤ result.code ∧ result.code < 300) then
      throw (frameError serde "media upload failed" result)

end BrowserMediaUpload

structure BrowserE2eMediaUpload (bits : ℕ) where
  upload : BrowserMediaUpload bits
  encryptor : MediaEncryptor
  pending : Bytes

namespace BrowserE2eMediaUpload
variable {bits : ℕ} {J : Type} (serde : Serde J) (sha256 : Bytes → Block 32) (A : Aead MediaKey)

def onUpload {α : Type} (m : WebMethod (BrowserMediaUpload bits) α) :
    WebMethod (BrowserE2eMediaUpload bits) α :=
  m.onPart upload fun upload u => { u with upload }

def writeSealed (chunk : Bytes) : WebMethod (BrowserE2eMediaUpload bits) Unit := do
  let u ← get
  let (encryptor, result) := u.encryptor.sealChunk A chunk
  set { u with encryptor }
  match result with
  | .error e => throw (e2eError e)
  | .ok container => onUpload (BrowserMediaUpload.write container)

/-- The `while` loop of `write`. Each round takes bytes from `pending`, so as many rounds as
there are bytes are enough. -/
def sealPending : ℕ → WebMethod (BrowserE2eMediaUpload bits) Unit
  | 0 => pure ()
  | rounds + 1 => do
    let u ← get
    if mediaChunkSize ≤ u.pending.length then
      set { u with pending := u.pending.drop mediaChunkSize }
      writeSealed A (u.pending.take mediaChunkSize)
      sealPending rounds

def write (data : Bytes) : WebMethod (BrowserE2eMediaUpload bits) Unit := do
  let u ← get
  set { u with pending := u.pending ++ data }
  sealPending A (u.pending ++ data).length

def sealRest : WebMethod (BrowserE2eMediaUpload bits) Unit := do
  let u ← get
  if u.pending ≠ [] then
    set { u with pending := [] }
    writeSealed A u.pending

def finish : WebMethod (BrowserE2eMediaUpload bits) Unit := do
  sealRest A
  let u ← get
  match u.encryptor.finish with
  | .error e => throw (e2eError e)
  | .ok () => onUpload (BrowserMediaUpload.finish serde sha256)

end BrowserE2eMediaUpload

abbrev Mst5E2eMediaUpload (bits : ℕ) := Option (BrowserE2eMediaUpload bits)

namespace Mst5E2eMediaUpload
variable {bits : ℕ} {J : Type} (serde : Serde J) (sha256 : Bytes → Block 32) (A : Aead MediaKey)

def onOpen (m : WebMethod (BrowserE2eMediaUpload bits) Unit) :
    WebMethod (Mst5E2eMediaUpload bits) Unit := do
  match ← get with
  | none => throw ⟨"E2E media upload is already closed"⟩
  | some u => m.onPart (fun _ => u) fun u _ => some u

def write (data : Bytes) : WebMethod (Mst5E2eMediaUpload bits) Unit :=
  if data = [] then pure () else onOpen (BrowserE2eMediaUpload.write A data)

def finish : WebMethod (Mst5E2eMediaUpload bits) Unit := do
  onOpen (BrowserE2eMediaUpload.finish serde sha256 A)
  set (none : Mst5E2eMediaUpload bits)

def writeAll : List Bytes → WebMethod (Mst5E2eMediaUpload bits) Unit
  | [] => pure ()
  | data :: cuts => do
    write A data
    writeAll cuts

end Mst5E2eMediaUpload

def beginE2eMediaUpload {J : Type} (serde : Serde J) (bits : ℕ) (ticket fileId : String)
    (plaintextSize : ℕ) (encryptor : Except JsError MediaEncryptor) :
    Web (Mst5E2eMediaUpload bits) := do
  if ticket = "" ∨ fileId = "" ∨ plaintextSize = 0 then
    throw ⟨"media ticket, file id and plaintext size are required"⟩
  let encryptedSize ← fromExcept ((encryptedMediaSize plaintextSize).mapError e2eError)
  if size_lt : encryptedSize < 2 ^ bits then
    let encryptor ← fromExcept encryptor
    establish
    let upload ← BrowserMediaUpload.openNew serde fileId encryptedSize size_lt
    let (result, upload) ← ((BrowserMediaUpload.write encryptor.header).run upload :
      Prog WebOp WebAns _)
    fromExcept result
    return some ⟨upload, encryptor, []⟩
  else throw ⟨"media file is too large for this browser"⟩

end Mst5Client.BrowserUploads
