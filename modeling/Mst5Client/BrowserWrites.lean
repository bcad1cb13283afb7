import Mst5Client.RecordInterop
import Mst5Client.BrowserTunnel

set_option autoImplicit false

/-!
# Failed writes of a browser session

`write_record` seals before it sends, so a record that is not sent has used a nonce.
-/
namespace Mst5Client.BrowserWrites
open ByteOrder AuthenticatedCipher RecordLayer RecordPlaintext RecordSteps MachineRuns
  RecordLockstep BrowserRecords RecordInterop BrowserTunnel

section Statement
variable (A : Aead Key)

/-- After a call that returned an error the session is where it was before the call. -/
def KeptOnError : BrowserSession → List WriteCall → Prop
  | _, [] => True
  | s, call :: calls =>
    (∀ e, (s.writeFrame A call).2.result = .error e →
      (s.writeFrame A call).1.sealState = s.sealState ∧
        (s.writeFrame A call).1.upstreamSeq = s.upstreamSeq) ∧
    KeptOnError (s.writeFrame A call).1 calls

def sentWires (s : BrowserSession) (calls : List WriteCall) : List Bytes :=
  (trace (BrowserSession.writeFrame A) s calls).filterMap fun answer => answer.2.sent.map Prod.snd

def readWire (hash : Block 32) (peer : BrowserCipher) (wire : Bytes) :
    BrowserCipher × Except JsError Bytes :=
  readRecord A hash peer ((wire.drop 4).take (ofBe (wire.take 4)))

/-- After every error the session is where it was, and the peer opens every record that was sent. -/
def StaysInStep (s : BrowserSession) (peer : BrowserCipher) (calls : List WriteCall) : Prop :=
  KeptOnError A s calls ∧
    ∀ answer ∈ trace (readWire A s.handshakeHash) peer (sentWires A s calls), ∃ frame,
      answer.2 = .ok frame

/-- If the call gets as far as sealing a record, the record fits a GET and the router takes it. -/
def Goes (call : WriteCall) : Prop :=
  ∀ frame, call.frame = .ok frame →
    4 + (8 + frameSize frame + tagLen) ≤ maxGetRecordBytes ∧ ∃ body, call.answer = .ok body

def sealedCalls (calls : List WriteCall) : ℕ := calls.countP fun call => call.frame.isOk

end Statement

section Calls
variable {A : Aead Key} {s : BrowserSession} {call : WriteCall} {frame : Bytes}

def nextCipher (cipher : BrowserCipher) : BrowserCipher :=
  { cipher with nonce := (cipher.nonce + 1) % 2 ^ 64 }

theorem nextCipher_ne (cipher : BrowserCipher) : nextCipher cipher ≠ cipher := by
  intro heq
  have hnonce := congrArg BrowserCipher.nonce heq
  simp only [nextCipher] at hnonce
  omega

theorem writeFrame_unsealed {e : JsError} (h : call.frame = .error e) :
    s.writeFrame A call = (s, ⟨none, .error e⟩) := by
  simp only [BrowserSession.writeFrame, h]

theorem sealed_frame (hA : Correct A) (hash : Block 32) (cipher : BrowserCipher)
    (h : call.frame = .ok frame) :
    ∃ record, browserSeal A hash cipher frame = (nextCipher cipher, .ok record) ∧
      record.length = 8 + frameSize frame + tagLen ∧
      (cipher.nonce < 2 ^ 64 → readRecord A hash cipher record = (nextCipher cipher, .ok frame)) := by
  obtain ⟨hlen, hpayload⟩ := frameEncode_length h
  have hsized : FrameSized frame := by
    rw [FrameSized, hlen]
    omega
  obtain ⟨c, hc⟩ := hA.encrypts cipher.key (aeadNonce cipher.nonce)
    (aadAt hash cipher.nonce (frameSize frame)) (padded 0 frame)
    (padded_encryptable (frameItem frame hsized).admissible)
  exact ⟨beBytes 8 cipher.nonce ++ c, browserSeal_ok hsized hc, browserRecord_length hA hc,
    fun hn => readRecord_ok hA hn hsized hc⟩

theorem writeFrame_sent (hA : Correct A) (h : call.frame = .ok frame) (hgoes : Goes call)
    (hseq : s.upstreamSeq + 1 < 2 ^ 64) (hn : s.sealState.nonce < 2 ^ 64) :
    ∃ wire, s.writeFrame A call =
        ({ s with sealState := nextCipher s.sealState, upstreamSeq := s.upstreamSeq + 1 },
          ⟨some (s.upstreamSeq, wire), .ok ()⟩) ∧
      readWire A s.handshakeHash s.sealState wire = (nextCipher s.sealState, .ok frame) := by
  obtain ⟨hfits, body, hbody⟩ := hgoes frame h
  obtain ⟨record, hseal, hlen, hread⟩ := sealed_frame hA s.handshakeHash s.sealState h
  have hfour : (beBytes 4 record.length).length = 4 := beBytes_length 4 _
  have hsmall : record.length < 256 ^ 4 := by
    rw [hlen]
    have : maxGetRecordBytes < 256 ^ 4 := by decide
    omega
  have hwire : ¬ maxGetRecordBytes < (beBytes 4 record.length ++ record).length := by
    rw [List.length_append, hfour, hlen]
    omega
  refine ⟨beBytes 4 record.length ++ record, ?_, ?_⟩
  · simp only [BrowserSession.writeFrame, h, BrowserSession.writeRecord, hseal, upstreamBytes, hwire,
      hbody, hseq, ↓reduceIte]
  · rw [readWire, List.drop_left' hfour, List.take_left' hfour, ofBe_beBytes_of_lt hsmall,
      List.take_length, hread hn]

theorem writeFrame_failed (hA : Correct A) (h : call.frame = .ok frame)
    (hbad : ¬ (Goes call ∧ s.upstreamSeq + 1 < 2 ^ 64)) :
    (s.writeFrame A call).1.sealState = nextCipher s.sealState ∧
      ∃ e, (s.writeFrame A call).2.result = .error e := by
  obtain ⟨record, hseal, hlen, -⟩ := sealed_frame hA s.handshakeHash s.sealState h
  have hwire : (beBytes 4 record.length ++ record).length = 4 + (8 + frameSize frame + tagLen) := by
    rw [List.length_append, beBytes_length, hlen]
  simp only [BrowserSession.writeFrame, h, BrowserSession.writeRecord, hseal, upstreamBytes, hwire]
  by_cases hfits : maxGetRecordBytes < 4 + (8 + frameSize frame + tagLen)
  · simp [hfits]
  cases hbody : call.answer with
  | error e => simp [hfits]
  | ok body =>
    have hgoes : Goes call := by
      intro other hother
      obtain rfl : frame = other := Except.ok.inj (h.symm.trans hother)
      exact ⟨Nat.not_lt.mp hfits, body, hbody⟩
    have hlast : ¬ s.upstreamSeq + 1 < 2 ^ 64 := fun hseq => hbad ⟨hgoes, hseq⟩
    simp only [hfits, hlast, ↓reduceIte]
    exact ⟨trivial, _, rfl⟩

theorem sealedCalls_unsealed {e : JsError} (h : call.frame = .error e) (calls : List WriteCall) :
    sealedCalls (call :: calls) = sealedCalls calls :=
  List.countP_cons_of_neg (by rw [h]; exact Bool.false_ne_true)

theorem sealedCalls_sealed (h : call.frame = .ok frame) (calls : List WriteCall) :
    sealedCalls (call :: calls) = sealedCalls calls + 1 :=
  List.countP_cons_of_pos (by rw [h]; rfl)

end Calls

section Runs
variable {A : Aead Key} (hA : Correct A)
variable {s : BrowserSession} {calls : List WriteCall}
include hA

theorem all_go_of_kept (hn : s.sealState.nonce < 2 ^ 64) (hs : s.upstreamSeq < 2 ^ 64)
    (hkept : KeptOnError A s calls) :
    (∀ call ∈ calls, Goes call) ∧ s.upstreamSeq + sealedCalls calls < 2 ^ 64 := by
  induction calls generalizing s with
  | nil => exact ⟨fun _ h => absurd h List.not_mem_nil, hs⟩
  | cons call calls ih =>
    obtain ⟨hfirst, hrest⟩ := hkept
    cases hframe : call.frame with
    | error e =>
      rw [writeFrame_unsealed hframe] at hrest
      obtain ⟨hgo, hcount⟩ := ih hn hs hrest
      have hgoes : Goes call := fun frame h => by simp [hframe] at h
      rw [sealedCalls_unsealed hframe]
      exact ⟨List.forall_mem_cons.mpr ⟨hgoes, hgo⟩, hcount⟩
    | ok frame =>
      by_cases hgood : Goes call ∧ s.upstreamSeq + 1 < 2 ^ 64
      · obtain ⟨wire, hwrite, -⟩ := writeFrame_sent hA hframe hgood.1 hgood.2 hn
        rw [hwrite] at hrest
        obtain ⟨hgo, hcount⟩ := ih (Nat.mod_lt _ (by decide)) hgood.2 hrest
        rw [sealedCalls_sealed hframe]
        exact ⟨List.forall_mem_cons.mpr ⟨hgood.1, hgo⟩, by dsimp only at hcount; omega⟩
      · obtain ⟨hmoved, e, he⟩ := writeFrame_failed hA hframe hgood
        exact absurd (hmoved.symm.trans (hfirst e he).1) (nextCipher_ne s.sealState)

theorem staysInStep_of_all_go (hn : s.sealState.nonce < 2 ^ 64) (hgo : ∀ call ∈ calls, Goes call)
    (hcount : s.upstreamSeq + sealedCalls calls < 2 ^ 64) : StaysInStep A s s.sealState calls := by
  induction calls generalizing s with
  | nil => exact ⟨trivial, fun _ h => absurd h List.not_mem_nil⟩
  | cons call calls ih =>
    obtain ⟨hgoes, hgo⟩ := List.forall_mem_cons.mp hgo
    cases hframe : call.frame with
    | error e =>
      have hwrite := writeFrame_unsealed (A := A) (s := s) hframe
      rw [sealedCalls_unsealed hframe] at hcount
      obtain ⟨hkept, haccepted⟩ := ih hn hgo hcount
      refine ⟨⟨fun _ _ => ?_, ?_⟩, ?_⟩
      · rw [hwrite]
        exact ⟨rfl, rfl⟩
      · rwa [hwrite]
      · simpa only [sentWires, trace, hwrite, List.filterMap_cons, Option.map_none] using haccepted
    | ok frame =>
      rw [sealedCalls_sealed hframe] at hcount
      have hmore : s.upstreamSeq + 1 + sealedCalls calls < 2 ^ 64 := by omega
      obtain ⟨wire, hwrite, hread⟩ := writeFrame_sent hA hframe hgoes (by omega) hn
      obtain ⟨hkept, haccepted⟩ :=
        ih (s := { s with sealState := nextCipher s.sealState, upstreamSeq := s.upstreamSeq + 1 })
          (Nat.mod_lt _ (by decide)) hgo hmore
      refine ⟨⟨fun e he => ?_, ?_⟩, ?_⟩
      · simp [hwrite] at he
      · rwa [hwrite]
      · simp only [sentWires, trace, hwrite, List.filterMap_cons, Option.map_some, hread,
          List.forall_mem_cons]
        exact ⟨⟨frame, rfl⟩, haccepted⟩

end Runs

/-- A session that fails a write stays in step with its peer only if the failure came before the
record was sealed. -/
theorem stays_in_step_iff {A : Aead Key} (hA : Correct A) (s : BrowserSession)
    (hn : s.sealState.nonce < 2 ^ 64) (hs : s.upstreamSeq < 2 ^ 64) (peer : BrowserCipher)
    (hpeer : s.sealState = peer) (calls : List WriteCall) :
    StaysInStep A s peer calls ↔
      (∀ call ∈ calls, Goes call) ∧ s.upstreamSeq + sealedCalls calls < 2 ^ 64 := by
  subst hpeer
  exact ⟨fun h => all_go_of_kept hA hn hs h.1, fun h => staysInStep_of_all_go hA hn h.1 h.2⟩

def sampleSession : BrowserSession :=
  ⟨2, 1, [], BrowserCipher.new sampleKey, BrowserCipher.new sampleKey, sampleHash⟩

def emptyData (answer : Except JsError Bytes) : WriteCall := ⟨15, 0, 1, [], none, answer⟩

theorem stays_in_step_iff_sample :
    StaysInStep checksumCrypto.aead sampleSession sampleSession.sealState [emptyData (.ok []),
      emptyData (.ok [])] ↔ (∀ call ∈ [emptyData (.ok []), emptyData (.ok [])], Goes call) ∧
        sampleSession.upstreamSeq + sealedCalls [emptyData (.ok []), emptyData (.ok [])] < 2 ^ 64 :=
  stays_in_step_iff (checksumAead_correct _) sampleSession (by decide) (by decide) _ rfl _

/-- One HTTP failure, and the peer rejects the next record the router takes. -/
theorem failed_write_loses_step :
    let calls := [emptyData (.error ⟨"M5oH HTTP 502"⟩), emptyData (.ok [])]
    (trace (readWire checksumCrypto.aead sampleHash) sampleSession.sealState
        (sentWires checksumCrypto.aead sampleSession calls)).map Prod.snd =
      [.error ⟨"MST5 encrypted record sequence mismatch"⟩] ∧
    ¬ StaysInStep checksumCrypto.aead sampleSession sampleSession.sealState calls := by
  intro calls
  have hrejected : (trace (readWire checksumCrypto.aead sampleHash) sampleSession.sealState
      (sentWires checksumCrypto.aead sampleSession calls)).map Prod.snd =
        [.error ⟨"MST5 encrypted record sequence mismatch"⟩] := by decide +kernel
  refine ⟨hrejected, fun h => ?_⟩
  have hgo := (all_go_of_kept (checksumAead_correct _) (by decide) (by decide) h.1).1
  obtain ⟨-, body, hbody⟩ := hgo _ List.mem_cons_self _ emptyDataFrame_encoded
  simp [emptyData] at hbody

end Mst5Client.BrowserWrites
