import Mst5Client.FileReplacement
import Mst5Client.IdentityMessages

set_option autoImplicit false

/-!
# The identity file

`IdentityStore` of `src/e2e.rs` over the steps of a file system.
-/
namespace Mst5Client.IdentityStore
open ByteOrder IoResult TaskPrograms CrashPrograms FileSteps FileReplacement IdentityMessages

def identityMagic : Bytes := utf8 "MST5E2E3"

/-- Where the file is: the platform, and whether its path has a parent. -/
structure Place where
  unix : Bool
  hasParent : Bool

section Programs
variable (C : E2eCrypto)

def decodeIdentity (encoded : Bytes) : Except IoError (Identity C) :=
  if encoded.length ≠ 40 ∨ encoded.take 8 ≠ identityMagic then
    .error (invalidData "invalid E2E identity file")
  else .ok (Identity.fromPrivate C (blockOf 32 (encoded.drop 8)))

def load : Trial FileName (Option (Identity C)) := do
  let present ← ExceptT.lift (pathExists FileName.path)
  if present then
    let file ← openRead .path
    let encoded ← readToEnd file
    -- `file.take(64)`
    let identity ← ExceptT.mk (pure (decodeIdentity C (encoded.take 64)))
    return some identity
  else return none

def generate (random : Except String (Block 32)) : Except IoError (Identity C) :=
  match random with
  | .error e => .error (other ("OS randomness failed: " ++ e))
  | .ok key => .ok (Identity.fromPrivate C key)

def syncParent (place : Place) : Trial FileName Unit :=
  if place.unix then do
    openDirectory
    syncDirectory
  else return ()

variable {C}

def stage (identity : Identity C) : Trial FileName Unit := do
  createDirAll
  let file ← createFile .temporary
  writeAt file 0 identityMagic
  writeAt file identityMagic.length identity.privateKey.toList
  syncAll file

def save (place : Place) (identity : Identity C) : Trial FileName Unit :=
  if place.hasParent then do
    stage identity
    rename .temporary .path
    syncParent place
  else throw (invalidData "identity path has no parent")

variable (C)

def loadOrCreate (place : Place) (random : Except String (Block 32)) :
    Trial FileName (Identity C) := do
  match ← load C with
  | some identity => return identity
  | none =>
    let identity ← ExceptT.mk (pure (generate C random))
    save place identity
    return identity

def remove (place : Place) : Trial FileName Unit := do
  match ← ExceptT.lift (removeFile FileName.path) with
  | .ok () => syncParent place
  | .error e => if e.kind = .notFound then return () else throw e

end Programs

def encodeIdentity (key : Block 32) : Bytes := identityMagic ++ key.toList

variable {C : E2eCrypto}

theorem decode_encodeIdentity (key : Block 32) :
    decodeIdentity C ((encodeIdentity key).take 64) = .ok (Identity.fromPrivate C key) := by
  have hlen : (encodeIdentity key).length = 40 := by
    rw [encodeIdentity, List.length_append, block_length]
    rfl
  have hmagic : (encodeIdentity key).take 8 = identityMagic := List.take_left' rfl
  have hkey : (encodeIdentity key).drop 8 = key.toList := List.drop_left' rfl
  rw [List.take_of_length_le (by omega), decodeIdentity, if_neg (by simp [hlen, hmagic]), hkey,
    blockOf_toList]

theorem encode_decodeIdentity {bytes : Bytes} {identity : Identity C}
    (h : decodeIdentity C (bytes.take 64) = .ok identity) :
    bytes = encodeIdentity identity.privateKey := by
  unfold decodeIdentity at h
  rw [ite_error_eq_ok] at h
  obtain ⟨hvalid, h⟩ := h
  push Not at hvalid
  obtain ⟨hlen, hmagic⟩ := hvalid
  have hbytes : bytes.take 64 = bytes := by
    rw [List.length_take] at hlen
    exact List.take_of_length_le (by omega)
  rw [hbytes] at hlen hmagic h
  cases h
  rw [encodeIdentity, ← hmagic,
    show (Identity.fromPrivate C (blockOf 32 (bytes.drop 8))).privateKey.toList =
    bytes.drop 8 from toList_blockOf (by rw [List.length_drop, hlen]), List.take_append_drop]

variable {d : Disk FileName}

def loadResult (C : E2eCrypto) : Option Bytes → Except IoError (Option (Identity C))
  | none => .ok none
  | some bytes => (decodeIdentity C (bytes.take 64)).map some

theorem read_spec (op : Op FileName) (hreads : op.reads = true) :
    Guarded readable (· = d) (fun _ a => a = (act d op).2) (Prog.perform op) d := by
  refine Guarded.perform op rfl ?_
  intro choice e a h
  exact readable_reads hreads h

theorem load_spec (d : Disk FileName) :
    Guarded readable (· = d) (fun _ a => a = loadResult C (d.contents .path)) (load C).run d := by
  unfold load
  refine Guarded.liftThen (read_spec (.pathExists .path) rfl) ?_
  rintro d present rfl hpresent
  cases hlink : d.link .path with
  | none =>
    rw [show present = false from hpresent.trans (by rw [act, hlink]; rfl),
      contents_of_unlinked d hlink]
    exact ⟨rfl, rfl⟩
  | some file =>
    rw [show present = true from hpresent.trans (by rw [act, hlink]; rfl)]
    have hread : d.contents .path = some (d.data.getD file []) := by
      have hlt := d.inRange _ _ hlink
      rw [contents_of_link d hlink, List.getD_eq_getElem?_getD, List.getElem?_eq_getElem hlt,
        Option.getD_some]
    rw [hread]
    refine Guarded.tryBind (read_spec (.openRead .path) rfl) ?_ ?_
    · rintro d opened rfl hopened
      rw [act, hlink] at hopened
      cases hopened
      refine Guarded.tryBind (read_spec (.readToEnd file) rfl) ?_ (fun _ _ _ h => by cases h)
      rintro d encoded rfl hencoded
      cases hencoded
      refine Guarded.tryBind (Q := fun _ a => a = decodeIdentity C ((d.data.getD file []).take 64))
        ⟨rfl, rfl⟩ ?_ ?_
      · rintro d identity rfl hidentity
        exact ⟨rfl, by rw [loadResult, ← hidentity]; rfl⟩
      · rintro d e rfl he
        rw [loadResult, ← he]
        rfl
    · rintro d e rfl he
      rw [act, hlink] at he
      cases he

theorem syncParent_keeps (place : Place) :
    Uses (fun op => op.keeps = true) (syncParent place).run := by
  have hK := uses_keeps
  unfold syncParent
  split_ifs
  · exact hK.tryBind (Uses.perform rfl) fun _ => Uses.perform rfl
  · exact hK.ret _

theorem stage_spec (identity : Identity C) {before : Option Bytes} (hd : d.contents .path = before) :
    Guarded faulty (fun e => e.contents .path = before)
      (fun e a => a = .ok () → ∃ file, Written .temporary file (encodeIdentity identity.privateKey) e)
      (stage identity).run d := by
  have hother : FileName.path ≠ .temporary := by decide
  unfold stage
  refine Guarded.tryBind (Q := fun _ _ => True) (Guarded.perform Op.createDirAll hd ?_) ?_
    (fun _ _ _ _ => nofun)
  · intro choice e a h
    obtain rfl := faulty_keeps rfl h
    exact ⟨hd, trivial⟩
  rintro d₁ _ h₁ -
  refine Guarded.tryBind (createFile_spec hother h₁) ?_ (fun _ _ _ _ => nofun)
  rintro d₂ file h₂ hopened
  refine Guarded.tryBind (writeAt_spec identityMagic hother h₂ (hopened file rfl) rfl) ?_
    (fun _ _ _ _ => nofun)
  rintro d₃ _ h₃ hmagic
  refine Guarded.tryBind (writeAt_spec identity.privateKey.toList hother h₃ (hmagic rfl) rfl) ?_
    (fun _ _ _ _ => nofun)
  rintro d₄ _ h₄ hfull
  refine Guarded.perform (Op.syncAll file) h₄ ?_
  intro choice e a h
  obtain rfl := faulty_keeps rfl h
  exact ⟨h₄, fun _ => ⟨file, hfull rfl⟩⟩

inductive Call (C : E2eCrypto) where
  | save (identity : Identity C)
  | load
  | loadOrCreate (random : Except String (Block 32))
  | remove

inductive Outcome (C : E2eCrypto) where
  | saved (result : Except IoError Unit)
  | loaded (result : Except IoError (Option (Identity C)))
  | created (result : Except IoError (Identity C))
  | removed (result : Except IoError Unit)

variable (place : Place)

def code : Call C → Steps FileName (Outcome C)
  | .save identity => do return .saved (← (save place identity).run)
  | .load => do return .loaded (← (load C).run)
  | .loadOrCreate random => do return .created (← (loadOrCreate C place random).run)
  | .remove => do return .removed (← (remove place).run)

/-- One process with the store; only the disk survives a crash. -/
def store : Service (Op FileName) Ans (Call C) Choice (Disk FileName) (Outcome C) where
  device := readable
  code := fun _ call => some (code place call)
  finish := fun d _ _ => d
  crash := id

abbrev History (C : E2eCrypto) := List (Event (Call C) (Outcome C))

def Call.key : Call C → Option (Block 32)
  | .save identity => some identity.privateKey
  | .loadOrCreate (.ok key) => some key
  | _ => none

/-- The identity of the last save whose rename took place, unless it has been removed. -/
def lastSaved (h : History C) : Option (Identity C) :=
  (ghost Call.key h).saved.map (Identity.fromPrivate C)

end Mst5Client.IdentityStore
