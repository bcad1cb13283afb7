import Mst5Client.RecordSteps

set_option autoImplicit false

/-!
# Lock-step of the two ends of a direction

A sender and a receiver that start from one key and one handshake hash pass the same clock
positions, whichever of the two rekeying triggers fires first.
-/
namespace Mst5Client.RecordLockstep
open ByteOrder AuthenticatedCipher IoResult RecordLayer RecordPlaintext Ratchet RecordSteps MachineRuns

def sealStep (C : RecordCrypto) (s : Session) (i : Item) : Session × Except IoError Bytes :=
  s.sealRecord C i.contentType i.payload

def openStep (C : RecordCrypto) (s : Session) (record : Bytes) : Session × Except IoError Record :=
  s.openRecord C record

def rekeys (items : List Item) : ℕ := (position limits (items.map Item.size)).generation

theorem exchange_step (C : RecordCrypto) (hA : Correct C.aead) (key : Key) {p : Position}
    (sender receiver : Session) (i : Item)
    (hs : sender.sealState = stateAt C.hkdf sender.handshakeHash key p)
    (hr : receiver.openState = stateAt C.hkdf sender.handshakeHash key p)
    (hh : receiver.handshakeHash = sender.handshakeHash) (hp : p.Within limits)
    (hg : p.generation < maxGeneration) : ∃ record : Bytes,
    sealStep C sender i =
      ({ sender with sealState := stateAt C.hkdf sender.handshakeHash key (advance limits p i.size) },
        .ok record) ∧
    openStep C receiver record =
      ({ receiver with openState := stateAt C.hkdf sender.handshakeHash key (advance limits p i.size) },
        .ok i.record) := by
  obtain ⟨c, hc⟩ := hA.encrypts (generationKey C.hkdf sender.handshakeHash key p.generation)
    (aeadNonce p.records) (aadAt sender.handshakeHash p.records i.size) i.plaintext
    (padded_encryptable i.admissible)
  refine ⟨beBytes 8 p.records ++ c, sealRecord_stateAt C key sender i hs hp hg hc, ?_⟩
  rw [← hh] at hr hc ⊢
  exact openRecord_stateAt C hA key receiver i hr hp hg hc

theorem lockstep_from (C : RecordCrypto) (hA : Correct C.aead) (key : Key) (items : List Item)
    {p : Position} (sender receiver : Session)
    (hs : sender.sealState = stateAt C.hkdf sender.handshakeHash key p)
    (hr : receiver.openState = stateAt C.hkdf sender.handshakeHash key p)
    (hh : receiver.handshakeHash = sender.handshakeHash) (hp : p.Within limits)
    (hg : ((items.map Item.size).foldl (advance limits) p).generation < maxGeneration) :
    ∃ records : List Bytes,
      (trace (sealStep C) sender items).map Prod.snd = records.map Except.ok ∧
      (trace (openStep C) receiver records).map Prod.snd = items.map (fun i => .ok i.record) ∧
      (trace (sealStep C) sender items).map (fun a => a.1.sealState) =
        (trace (openStep C) receiver records).map (fun a => a.1.openState) := by
  induction items generalizing p sender receiver with
  | nil => exact ⟨[], rfl, rfl, rfl⟩
  | cons i items ih =>
    have hgp : p.generation < maxGeneration :=
      lt_of_le_of_lt (foldl_generation_le limits p _) hg
    obtain ⟨record, hseal, hopen⟩ := exchange_step C hA key sender receiver i hs hr hh hp hgp
    obtain ⟨records, hsealed, hopened, hstates⟩ :=
      ih { sender with sealState := stateAt C.hkdf sender.handshakeHash key (advance limits p i.size) }
        { receiver with openState := stateAt C.hkdf sender.handshakeHash key (advance limits p i.size) }
        rfl rfl hh (advance_within limits_records_pos limits_bytes_pos p i.size) hg
    refine ⟨record :: records, ?_, ?_, ?_⟩
    · simp only [trace, hseal, List.map_cons, hsealed]
    · simp only [trace, hopen, List.map_cons, hopened]
    · simp only [trace, hseal, hopen, List.map_cons, hstates]

/-- Every record is sealed, every record is opened as the item it was made from, and the
two cipher states agree after each of them. -/
theorem records_open_in_lockstep (C : RecordCrypto) (hA : Correct C.aead) (key : Key)
    (sender receiver : Session) (items : List Item) (hs : sender.sealState = CipherState.new key)
    (hr : receiver.openState = CipherState.new key)
    (hh : receiver.handshakeHash = sender.handshakeHash) (hrekeys : rekeys items < 2 ^ 64 - 1) :
    ∃ records : List Bytes,
      (trace (sealStep C) sender items).map Prod.snd = records.map Except.ok ∧
      (trace (openStep C) receiver records).map Prod.snd = items.map (fun i => .ok i.record) ∧
      (trace (sealStep C) sender items).map (fun a => a.1.sealState) =
        (trace (openStep C) receiver records).map (fun a => a.1.openState) := by
  have hstart : Position.start.Within limits := ⟨limits_records_pos, limits_bytes_pos⟩
  rw [new_eq_stateAt C.hkdf sender.handshakeHash] at hs hr
  exact lockstep_from C hA key items sender receiver hs hr hh hstart hrekeys

def sampleKey : Key := ⟨List.replicate 32 5, rfl⟩
def sampleHash : Block 32 := ⟨List.replicate 32 9, rfl⟩

def sampleItems : List Item := [⟨0, [1, 2, 3], by decide⟩, ⟨1, [], by decide⟩]

theorem records_open_in_lockstep_sample :
    rekeys sampleItems < 2 ^ 64 - 1 ∧ ∃ records : List Bytes,
      (trace (sealStep checksumCrypto) (Session.new sampleKey sampleHash) sampleItems).map Prod.snd =
        records.map Except.ok ∧
      (trace (openStep checksumCrypto) (Session.new sampleKey sampleHash) records).map Prod.snd =
        sampleItems.map (fun i => .ok i.record) ∧
      (trace (sealStep checksumCrypto) (Session.new sampleKey sampleHash) sampleItems).map
          (fun a => a.1.sealState) =
        (trace (openStep checksumCrypto) (Session.new sampleKey sampleHash) records).map
          (fun a => a.1.openState) :=
  have hrekeys : rekeys sampleItems < 2 ^ 64 - 1 := by decide
  ⟨hrekeys, records_open_in_lockstep checksumCrypto (checksumAead_correct _) sampleKey
    (Session.new sampleKey sampleHash) (Session.new sampleKey sampleHash) sampleItems rfl rfl rfl
      hrekeys⟩

end Mst5Client.RecordLockstep
