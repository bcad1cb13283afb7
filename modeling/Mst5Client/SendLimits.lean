import Mst5Client.ConnectionCalls
import Mst5Client.FrameCodec
import Mst5Client.RecordNonces

set_option autoImplicit false

/-!
# The limits on the way to the wire

A frame that could be built passes every later limit: the wire format, the transport plaintext, the
counters of any cipher state that successful records lead to, the length of a record and the
writer's budget.
-/
namespace Mst5Client.SendLimits
open ByteOrder AuthenticatedCipher IoResult TaskPrograms RecordLayer RecordPlaintext RecordSteps
  RecordNonces ConnectionState ConnectionCalls FrameDecoding FrameCodec

/-- The cipher states of a direction in which every record so far has been sealed. -/
inductive Reached (C : WriterCrypto) (hash : Block 32) : CipherState → Prop
  | new (key : Key) : Reached C hash (CipherState.new key)
  | session {s t : Session} {contentType : UInt8} {payload record : Bytes}
      (hs : Reached C hash s.sealState) (hhash : s.handshakeHash = hash)
      (hseal : s.sealRecord C.toRecordCrypto contentType payload = (t, .ok record)) :
      Reached C hash t.sealState
  | writer {w v : WriterState} {contentType : UInt8} {payload : Bytes} (hw : Reached C hash w.cipher)
      (hhash : w.handshakeHash = hash) (hseal : sealRecordInto C w contentType payload = (v, .ok ())) :
      Reached C hash v.cipher

/-- Both counters are below the limits at which the key is replaced. -/
structure Fresh (c : CipherState) : Prop where
  records : c.nonce < rekeyRecords
  bytes : c.plaintextBytes < rekeyBytes

theorem fresh_zero {c : CipherState} (hnonce : c.nonce = 0) (hbytes : c.plaintextBytes = 0) :
    Fresh c := by
  constructor
  · rw [hnonce]
    decide
  · rw [hbytes]
    decide

theorem commit_fresh {hkdf : Hkdf} {hash : Block 32} {c c' : CipherState} {n : ℕ}
    (h : c.commit hkdf hash n = (c', .ok ())) : Fresh c' := by
  unfold CipherState.commit at h
  cases hbytes : checkedAdd c.plaintextBytes n with
  | none =>
    rw [hbytes] at h
    cases h
  | some bytes =>
    rw [hbytes] at h
    dsimp only at h
    cases hnonce : checkedAdd c.nonce 1 with
    | none =>
      rw [hnonce] at h
      cases h
    | some nonce =>
      rw [hnonce] at h
      dsimp only at h
      split_ifs at h with hrekey
      · cases hgeneration : checkedAdd c.generation 1 with
        | none =>
          rw [hgeneration] at h
          cases h
        | some generation =>
          rw [hgeneration] at h
          cases h
          exact fresh_zero rfl rfl
      · cases h
        push Not at hrekey
        exact ⟨hrekey.1, hrekey.2⟩

theorem sealRecordInto_commits {C : WriterCrypto} {w v : WriterState} {contentType : UInt8}
    {payload : Bytes} (h : sealRecordInto C w contentType payload = (v, .ok ())) :
    ∃ n, w.cipher.commit C.hkdf w.handshakeHash n = (v.cipher, .ok ()) := by
  rcases query_cases w.cipher w.handshakeHash contentType payload with ⟨hnone, -⟩ | ⟨hadm, hlimit, -⟩
  · obtain ⟨_, e, -, -, hrefused⟩ := sealRecordInto_refused w hnone
    cases (hrefused C).symm.trans h
  rw [sealRecordInto_answered C w hadm hlimit] at h
  cases hsealed : C.encryptInPlace w.cipher.key (aeadNonce w.cipher.nonce)
      (aadAt w.handshakeHash w.cipher.nonce (padded contentType payload).length)
        (padded contentType payload) with
  | none =>
    rw [hsealed] at h
    cases h
  | some sealed =>
    rw [hsealed] at h
    obtain ⟨rfl, hcommit⟩ := Prod.mk.inj h
    exact ⟨sealed.1.length, Prod.ext rfl hcommit⟩

theorem sealRecord_commits {C : RecordCrypto} {s t : Session} {contentType : UInt8}
    {payload record : Bytes} (h : s.sealRecord C contentType payload = (t, .ok record)) :
    ∃ n, s.sealState.commit C.hkdf s.handshakeHash n = (t.sealState, .ok ()) := by
  obtain ⟨-, e, herror⟩ | ⟨-, -, c, -, -, hseal⟩ := sealRecord_cases C s contentType payload
  · cases herror.symm.trans h
  · rw [hseal] at h
    refine ⟨(padded contentType payload).length, ?_⟩
    rcases hcommit : s.sealState.commit C.hkdf s.handshakeHash (padded contentType payload).length with
      ⟨cipher, (e | done)⟩
    · rw [hcommit] at h
      cases h
    · rw [hcommit] at h
      cases h
      rfl

theorem Reached.fresh {C : WriterCrypto} {hash : Block 32} {c : CipherState}
    (h : Reached C hash c) : Fresh c := by
  cases h with
  | new key => exact fresh_zero rfl rfl
  | session hs hhash hseal =>
    obtain ⟨n, hcommit⟩ := sealRecord_commits hseal
    exact commit_fresh hcommit
  | writer hw hhash hseal =>
    obtain ⟨n, hcommit⟩ := sealRecordInto_commits hseal
    exact commit_fresh hcommit

theorem Fresh.commit {c : CipherState} (h : Fresh c) (hgeneration : c.generation < maxGeneration)
    (hkdf : Hkdf) (hash : Block 32) {n : ℕ} (hn : n ≤ maxRecordLen) :
    ∃ c', c.commit hkdf hash n = (c', .ok ()) := by
  have hrecords := h.records
  have hbytes := h.bytes
  rw [maxRecordLen_eq] at hn
  simp only [rekeyRecords, rekeyBytes, maxGeneration] at hrecords hbytes hgeneration
  unfold CipherState.commit
  rw [checkedAdd_of_lt (by omega)]
  dsimp only
  rw [checkedAdd_of_lt (by omega)]
  dsimp only
  split_ifs
  · rw [checkedAdd_of_lt (by omega)]
    exact ⟨_, rfl⟩
  · exact ⟨_, rfl⟩

/-- A semaphore never has more permits than it was made with. -/
def Affordable : Op → Prop
  | .acquireBudget units => units ≤ writerBudgetBytes / writerBudgetUnit
  | _ => True

theorem budget_units {n : ℕ} (h : n ≤ maxPlainPayload) :
    max (divCeil (min (n + 40) (2 ^ 64 - 1)) writerBudgetUnit) 1 ≤ writerBudgetBytes /
      writerBudgetUnit := by
  have hunits : writerBudgetBytes / writerBudgetUnit = 1024 := by decide
  have hunit : writerBudgetUnit = 16384 := rfl
  rw [hunits, hunit]
  unfold maxPlainPayload at h
  have hbytes : min (n + 40) (2 ^ 64 - 1) = n + 40 := Nat.min_eq_left (by omega)
  rw [hbytes]
  unfold divCeil
  split_ifs <;> omega

theorem enqueueFrame_affordable {frame : Frame} (h : frame.payload.length ≤ maxPlainPayload) :
    Uses Affordable (enqueueFrame frame).run := by
  have hK : Compositional fun _ (p : Call _) => Uses Affordable p := uses_compositional Affordable
  refine hK.tryBind (hK.lift (Uses.perform (budget_units h))) fun granted => ?_
  refine hK.tryBind ?_ fun _ => ?_
  · cases granted with
    | true => exact hK.ret _
    | false => exact hK.ret _
  refine hK.tryBind (hK.lift (Uses.perform trivial)) fun sent => ?_
  cases sent with
  | timedOut => exact hK.ret _
  | closed => exact hK.ret _
  | sent complete =>
    refine hK.tryBind (hK.lift (Uses.perform trivial)) fun completion => ?_
    cases completion with
    | timedOut => exact hK.ret _
    | dropped => exact hK.ret _
    | done result => exact hK.ret _

/-- A frame that `Frame::new` or `Frame::request` returned, in a state that successful records have
led to. -/
theorem admitted_frames_are_sendable {C : WriterCrypto} {hash : Block 32} {c : CipherState}
    (hc : Reached C hash c) (hgeneration : c.generation < 2 ^ 64 - 1) {kind : UInt8} {code id : ℕ}
    {nonce : Block 16} {deadlineMs : ℕ} {payload : Bytes} {frame : Frame}
    (hframe : Frame.new kind code id payload = .ok frame ∨
      Frame.request kind code id nonce deadlineMs payload = .ok frame) (out buffer : Bytes) :
    ∃ encoded plaintext aad c', encodeInto frame out = .ok encoded ∧
      transportPlaintextInto buffer 0 encoded = .ok plaintext ∧ c.checkLimit plaintext.length = .ok () ∧
      recordAad hash (8 + plaintext.length + tagLen) c.nonce = .ok aad ∧
      8 + plaintext.length + tagLen ≤ maxRecordLen ∧
      c.commit C.hkdf hash plaintext.length = (c', .ok ()) ∧
      Uses Affordable (enqueueFrame frame).run := by
  have hadmitted : Admitted frame := by
    obtain h | h := hframe
    · exact (new_eq_ok h).1
    · exact (request_eq_ok h).1
  have hfresh := hc.fresh
  have hencoded := encodeInto_eq hadmitted.flags hadmitted.payload out
  have hnonce : frame.requestNonce.toList.length = 16 := block_length _
  generalize hbytes : frameBytes frame.kind 0 frame.code frame.id frame.requestNonce.toList
    frame.deadlineMs frame.payload = encoded at hencoded
  have hlen : encoded.length = headerLen + frame.payload.length := by
    rw [← hbytes, frameBytes_length hnonce]
  have hadmissible : Admissible 0 encoded := by
    refine ⟨.inl rfl, ?_⟩
    have hpayload := hadmitted.payload
    unfold maxPlainPayload at hpayload
    rw [hlen]
    unfold headerLen maxTransportPayload
    omega
  have hrecord : 8 + (padded 0 encoded).length + tagLen ≤ maxRecordLen := by
    rw [padded_length]
    exact paddedLen_record hadmissible.2
  have hshort := padded_le_record hadmissible
  obtain ⟨c', hcommit⟩ := hfresh.commit hgeneration C.hkdf hash hshort
  exact ⟨encoded, padded 0 encoded, _, c', hencoded, transportPlaintextInto_ok buffer hadmissible,
    checkLimit_within hfresh.records hfresh.bytes hshort, recordAad_ok hash c.nonce hshort, hrecord,
    hcommit,
    enqueueFrame_affordable hadmitted.payload⟩

def sampleWriter : WriterState := ⟨CipherState.new (blockOf 32 [1]), blockOf 32 [2], [], []⟩

/-- The cipher state after one record. -/
def sampleSent : CipherState := (sealRecordInto checksumWriter sampleWriter 0 [7]).1.cipher

theorem sampleSent_reached : Reached checksumWriter (blockOf 32 [2]) sampleSent := by
  have hsealed : (sealRecordInto checksumWriter sampleWriter 0 [7]).2 = .ok () := by decide +kernel
  have hstep : sealRecordInto checksumWriter sampleWriter 0 [7] =
      ((sealRecordInto checksumWriter sampleWriter 0 [7]).1, .ok ()) := by
    rw [← hsealed]
  exact Reached.writer (.new (blockOf 32 [1])) rfl hstep

theorem admitted_frames_are_sendable_command :
    sampleSent.nonce = 1 ∧ ∃ encoded plaintext aad c', encodeInto sampleCommand [8, 8] = .ok encoded ∧
      transportPlaintextInto [9] 0 encoded = .ok plaintext ∧
        sampleSent.checkLimit plaintext.length = .ok () ∧
      recordAad (blockOf 32 [2]) (8 + plaintext.length + tagLen) sampleSent.nonce = .ok aad ∧
      8 + plaintext.length + tagLen ≤ maxRecordLen ∧
      sampleSent.commit checksumWriter.hkdf (blockOf 32 [2]) plaintext.length = (c', .ok ()) ∧
      Uses Affordable (enqueueFrame sampleCommand).run :=
  ⟨by decide +kernel, admitted_frames_are_sendable sampleSent_reached (by decide +kernel)
    (.inr (rfl : Frame.request 2 7 9 (blockOf 16 [1, 2]) 11 [3, 4, 5] = .ok sampleCommand)) [8, 8] [9]⟩

end Mst5Client.SendLimits
