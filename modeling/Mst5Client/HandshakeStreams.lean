import Mst5Client.BrowserReads
import Mst5Client.ClientHandshake

set_option autoImplicit false

/-!
# The handshake and the records behind it, for every segmentation

The router cuts the server's bytes into the bodies of the polls wherever it likes.
-/
namespace Mst5Client.HandshakeStreams
open ByteOrder AuthenticatedCipher IoResult RecordLayer BrowserRecords BrowserTunnel BrowserReads
  ClientHandshake

def answered (body : Bytes) : Poll := .answers body (.ok ())

theorem answered_calm (bodies : List Bytes) : ∀ poll ∈ bodies.map answered, ¬ Failing poll := by
  intro poll hpoll hfailing
  obtain ⟨body, -, rfl⟩ := List.mem_map.mp hpoll
  exact Bool.noConfusion hfailing.2

theorem arriving_answered (bodies : List Bytes) :
    arriving (bodies.map answered) = bodies.flatten := by
  induction bodies with
  | nil => rfl
  | cons body bodies ih => exact congrArg (body ++ ·) ih

theorem collect_answered (received : Bytes) {down : ℕ} (hdown : down < 2 ^ 64) (bodies : List Bytes) :
    ((received ++ bodies.flatten).length < 54 ∧
      collect received down (bodies.map answered) = .waiting) ∨
    ∃ used left, bodies = used ++ left ∧ 54 ≤ (received ++ used.flatten).length ∧
      collect received down (bodies.map answered) = .returned (left.map answered)
        (.ok (received ++ used.flatten, (down + used.length) % 2 ^ 64)) := by
  induction bodies generalizing received down with
  | nil =>
    rw [List.flatten_nil, List.append_nil]
    by_cases hshort : received.length < 54
    · exact .inl ⟨hshort, if_pos hshort⟩
    · refine .inr ⟨[], [], rfl, ?_, ?_⟩
      · rw [List.flatten_nil, List.append_nil]
        exact not_lt.mp hshort
      · rw [List.flatten_nil, List.append_nil, List.length_nil, Nat.add_zero, Nat.mod_eq_of_lt hdown]
        exact if_neg hshort
  | cons body bodies ih =>
    by_cases hshort : received.length < 54
    · have hnext : collect received down ((body :: bodies).map answered) =
          collect (received ++ body) ((down + 1) % 2 ^ 64) (bodies.map answered) := by
        refine (if_pos hshort).trans ?_
        by_cases hempty : body = []
        · rw [hempty, List.append_nil]
          rfl
        · exact if_neg hempty
      rw [hnext, List.flatten_cons, ← List.append_assoc]
      obtain hwaiting | ⟨used, left, hbodies, hlen, hout⟩ :=
        ih (received ++ body) (Nat.mod_lt (down + 1) (by decide))
      · exact .inl hwaiting
      · refine .inr ⟨body :: used, left, ?_, ?_, ?_⟩
        · rw [hbodies]
          rfl
        · rw [List.flatten_cons, ← List.append_assoc]
          exact hlen
        · rw [hout, List.flatten_cons, List.append_assoc, List.length_cons, Nat.mod_add_mod,
            Nat.add_assoc, Nat.add_comm 1]
    · refine .inr ⟨[], body :: bodies, rfl, ?_, ?_⟩
      · rw [List.flatten_nil, List.append_nil]
        exact not_lt.mp hshort
      · rw [List.flatten_nil, List.append_nil, List.length_nil, Nat.add_zero, Nat.mod_eq_of_lt hdown]
        exact if_neg hshort

inductive Cut where
  | incomplete
  | refused (rest : Bytes)
  | record (bytes rest : Bytes)

def cut (stream : Bytes) : Cut :=
  let length := ofBe (stream.take 4)
  if stream.length < 4 then .incomplete
  else if length < 24 ∨ maxRecordBytes + 512 < length then .refused (stream.drop 4)
  else if (stream.drop 4).length < length then .incomplete
  else .record ((stream.drop 4).take length) ((stream.drop 4).drop length)

/-- The results of that many reads from a stream that is all there, and what each of them leaves of
it. A read that finds its record incomplete does not return. -/
def plainReads (A : Aead Key) (hash : Block 32) :
    ℕ → BrowserCipher → Bytes → List (Except ReadError Bytes × Bytes)
  | 0, _, _ => []
  | calls + 1, cipher, stream =>
    match cut stream with
    | .incomplete => []
    | .refused rest => (.error (.rejected ⟨"invalid MST5 record length"⟩), rest) ::
      plainReads A hash calls cipher rest
    | .record bytes rest =>
      let (cipher, result) := browserOpen A hash cipher bytes
      (result.mapError .rejected, rest) :: plainReads A hash calls cipher rest

def recordReads (A : Aead Key) :
    ℕ → BrowserSession → List Poll → List (Except ReadError Bytes × Bytes)
  | 0, _, _ => []
  | calls + 1, s, polls =>
    match s.readRecord A polls with
    | .waiting _ => []
    | .returned t rest result => (result, stream t rest) :: recordReads A calls t rest

variable {A : Aead Key} {s : BrowserSession} {polls : List Poll}

theorem readExact_calm (hpolls : ∀ poll ∈ polls, ¬ Failing poll)
    (hseq : s.downstreamSeq + polls.length < 2 ^ 64) (length : ℕ) :
    ((stream s polls).length < length ∧ ∃ t, s.readExact length polls = .waiting t) ∨
    ¬ (stream s polls).length < length ∧
    ∃ t rest, s.readExact length polls = .returned t rest (.ok ((stream s polls).take length)) ∧
      stream t rest = (stream s polls).drop length ∧ Leads polls rest ∧ Follows s polls t rest := by
  have hview := exactRead length s polls
  generalize s.readExact length polls = outcome at hview
  cases hview with
  | waiting t _ hshort => exact .inl ⟨hshort, t, rfl⟩
  | exhausted t rest e _ hsequence => exact absurd hseq hsequence.not_gt
  | failed t rest e poll _ hfailing hleads =>
    exact absurd hfailing (hpolls poll (hleads.mem List.mem_cons_self))
  | read t rest bytes _ hlength hleads hstream hfollows =>
    refine .inr ⟨?_, t, rest, ?_, ?_, hleads, hfollows⟩
    · rw [hstream, List.length_append]
      omega
    · rw [hstream, List.take_left' hlength]
    · rw [hstream, List.drop_left' hlength]

theorem openNext_eq (s : BrowserSession) (rest : List Poll) (record : Bytes) :
    s.openNext A rest record =
      .returned { s with openState := (browserOpen A s.handshakeHash s.openState record).1 } rest
        ((browserOpen A s.handshakeHash s.openState record).2.mapError .rejected) := by
  rw [BrowserSession.openNext]
  cases browserOpen A s.handshakeHash s.openState record with
  | mk cipher result =>
    cases result with
    | error e => rfl
    | ok payload => rfl

/-- What one call of `read_record` does, by the record that stands next in the stream. -/
inductive CutRead (A : Aead Key) (s : BrowserSession) (polls : List Poll) : Cut → Prop
  | incomplete (t : BrowserSession) (hread : s.readRecord A polls = .waiting t) :
      CutRead A s polls .incomplete
  | refused (t : BrowserSession) (rest : List Poll)
      (hread : s.readRecord A polls = .returned t rest
        (.error (.rejected ⟨"invalid MST5 record length"⟩)))
      (hleads : Leads polls rest) (hfollows : Follows s polls t rest) :
      CutRead A s polls (.refused (stream t rest))
  | record (t : BrowserSession) (rest : List Poll) (bytes : Bytes)
      (hread : s.readRecord A polls =
        .returned { t with openState := (browserOpen A s.handshakeHash s.openState bytes).1 } rest
          ((browserOpen A s.handshakeHash s.openState bytes).2.mapError .rejected))
      (hleads : Leads polls rest) (hfollows : Follows s polls t rest) :
      CutRead A s polls (.record bytes (stream t rest))

theorem readRecord_cut (hpolls : ∀ poll ∈ polls, ¬ Failing poll)
    (hseq : s.downstreamSeq + polls.length < 2 ^ 64) :
    CutRead A s polls (cut (stream s polls)) := by
  rw [cut]
  obtain ⟨hshort, t, hwaiting⟩ | ⟨hlong, t, rest, hheader, hstream, hleads, hfollows⟩ :=
    readExact_calm hpolls hseq 4
  · rw [if_pos hshort]
    refine .incomplete t ?_
    rw [BrowserSession.readRecord, hwaiting]
    rfl
  rw [if_neg hlong]
  by_cases hbad : ofBe ((stream s polls).take 4) < 24 ∨
    maxRecordBytes + 512 < ofBe ((stream s polls).take 4)
  · rw [if_pos hbad, ← hstream]
    refine .refused t rest ?_ hleads hfollows
    rw [BrowserSession.readRecord, hheader]
    exact if_pos hbad
  have hbody : s.readRecord A polls = (t.readExact (ofBe ((stream s polls).take 4)) rest).andThen
      fun s rest record => s.openNext A rest record := by
    rw [BrowserSession.readRecord, hheader]
    exact if_neg hbad
  have hrest : ∀ poll ∈ rest, ¬ Failing poll := fun poll hpoll => hpolls poll (hleads.mem hpoll)
  rw [if_neg hbad, ← hstream]
  obtain ⟨hshort, u, hwaiting⟩ | ⟨hlong, u, after, hread, hstream', hleads', hfollows'⟩ :=
    readExact_calm hrest (lt_of_le_of_lt hfollows.sequence hseq) (ofBe ((stream s polls).take 4))
  · rw [if_pos hshort]
    refine .incomplete u ?_
    rw [hbody, hwaiting]
    rfl
  have hboth := hfollows.trans hfollows'
  rw [if_neg hlong, ← hstream']
  refine .record u after _ ?_ (hleads.trans hleads') hboth
  rw [hbody, hread, ← hboth.hash, ← hboth.cipher]
  exact openNext_eq u after _

theorem recordReads_eq (hpolls : ∀ poll ∈ polls, ¬ Failing poll)
    (hseq : s.downstreamSeq + polls.length < 2 ^ 64) (calls : ℕ) :
    recordReads A calls s polls = plainReads A s.handshakeHash calls s.openState (stream s polls) := by
  induction calls generalizing s polls with
  | zero => rfl
  | succ calls ih =>
    have hcut := readRecord_cut (A := A) hpolls hseq
    rw [recordReads, plainReads]
    generalize cut (stream s polls) = next at hcut ⊢
    cases hcut with
    | incomplete t hread => rw [hread]
    | refused t rest hread hleads hfollows =>
      rw [hread, ← hfollows.hash, ← hfollows.cipher]
      exact congrArg _ (ih (fun poll hpoll => hpolls poll (hleads.mem hpoll))
        (lt_of_le_of_lt hfollows.sequence hseq))
    | record t rest bytes hread hleads hfollows =>
      have hnext := ih (s := { t with openState := (browserOpen A t.handshakeHash s.openState
        bytes).1 })
        (fun poll hpoll => hpolls poll (hleads.mem hpoll)) (lt_of_le_of_lt hfollows.sequence hseq)
      rw [hread, ← hfollows.hash]
      exact congrArg _ hnext

variable {C : HandshakeCrypto} {clientPrivate : Key} {serverKey : Block 32} {bodies : List Bytes}

theorem upstreamBytes_hello (reply : Bytes) {hello : Bytes} (h : hello.length = 54) :
    upstreamBytes (.ok reply) hello = .ok reply := by
  rw [upstreamBytes, if_neg]
  rw [h]
  decide

def browserSession (used : List Bytes) (peer : Session) : BrowserSession :=
  ⟨2, used.length % 2 ^ 64, used.flatten.drop 54, ⟨peer.sealState.key, 0⟩, ⟨peer.openState.key, 0⟩,
    peer.handshakeHash⟩

/-- The two handshakes fail together, or both succeed on the reply in the bodies `used`. -/
inductive Handshakes (bodies : List Bytes) (failure : Option IoError) :
    ClientRun → BrowserRun → Prop
  | failed (hello : Option Bytes) (hlen : ∀ bytes ∈ hello, bytes.length = 54) (e : IoError)
      (outcome : Polling BrowserSession)
      (hfailed : ∀ rest session, outcome ≠ .returned rest (.ok session)) :
      Handshakes bodies failure ⟨hello, .error e⟩ ⟨hello.map fun bytes => (1, bytes), outcome⟩
  | succeeded (hello : Bytes) (hlen : hello.length = 54) (used left : List Bytes)
      (hbodies : bodies = used ++ left) (hused : 54 ≤ used.flatten.length) (peer : Session) :
      Handshakes bodies failure ⟨some hello,
        .ok (peer, ⟨used.flatten.drop 54 ++ left.flatten, failure⟩)⟩
        ⟨some (1, hello), .returned (left.map answered) (.ok (browserSession used peer))⟩

theorem handshakes (hA : Correct C.aead) (clientPrivate : Key) (serverKey : Block 32)
    (reply : Bytes) (bodies : List Bytes) (failure : Option IoError) :
    Handshakes bodies failure (clientHandshake C clientPrivate serverKey (.ok ()) ⟨bodies.flatten,
      failure⟩) (handshake C clientPrivate serverKey (.ok reply) (bodies.map answered)) := by
  unfold clientHandshake handshake
  obtain ⟨e, d, hnative, hbrowser⟩ | ⟨⟨state, hello⟩, _, hnative, hbrowser, rfl, hlen⟩ :=
    (hello_same clientPrivate hA serverKey).elim
  · rw [hnative, hbrowser]
    refine .failed none (fun bytes hbytes => absurd hbytes (Option.not_mem_none bytes)) e _ ?_
    intro _ _ h
    cases h
  have hsome : ∀ bytes ∈ some hello, bytes.length = 54 := fun bytes hbytes =>
    Option.mem_some_iff.mp hbytes ▸ hlen
  rw [hnative, hbrowser]
  dsimp only
  rw [upstreamBytes_hello reply hlen]
  change Handshakes bodies failure
    ⟨some hello, readReply C clientPrivate state ⟨bodies.flatten, failure⟩⟩ _
  obtain ⟨hshort, hwaiting⟩ | ⟨used, left, hbodies, hlong, hout⟩ :=
    collect_answered [] (by decide : 0 < 2 ^ 64) bodies
  · obtain ⟨e, he⟩ : ∃ e, readReply C clientPrivate state ⟨bodies.flatten, failure⟩ = .error e :=
      readReply_short clientPrivate state failure hshort
    rw [hwaiting, he]
    refine .failed (some hello) hsome e .waiting ?_
    intro _ _ h
    cases h
  · have hflat : bodies.flatten = used.flatten ++ left.flatten := by rw [hbodies, List.flatten_append]
    rw [List.nil_append] at hlong
    have hreply := reply_same (C := C) clientPrivate state hlong (used.length % 2 ^ 64) left.flatten
      failure
    rw [hout, hflat, Nat.zero_add, List.nil_append]
    obtain ⟨e, d, he, hd⟩ | ⟨⟨peer, _⟩, _, hpeer, hsession, rfl, rfl⟩ := hreply.elim
    · change Handshakes bodies failure ⟨some hello, readReply C clientPrivate state _⟩
        ⟨some (1, hello), .returned _ (browserFinish C clientPrivate state.view _ _)⟩
      rw [he, hd]
      refine .failed (some hello) hsome e _ ?_
      intro _ _ h
      cases h
    · change Handshakes bodies failure ⟨some hello, readReply C clientPrivate state _⟩
        ⟨some (1, hello), .returned _ (browserFinish C clientPrivate state.view _ _)⟩
      rw [hpeer, hsession]
      exact .succeeded hello hlen used left hbodies hlong peer

theorem browserSession_reads (A : Aead Key) (used left : List Bytes) (peer : Session)
    (hcount : used.length + left.length < 2 ^ 64) (calls : ℕ) :
    recordReads A calls (browserSession used peer) (left.map answered) =
      plainReads A peer.handshakeHash calls ⟨peer.openState.key,
        0⟩ (used.flatten.drop 54 ++ left.flatten) := by
  have hseq : (browserSession used peer).downstreamSeq + (left.map answered).length < 2 ^ 64 := by
    rw [List.length_map]
    exact lt_of_le_of_lt (Nat.add_le_add_right (Nat.mod_le _ _) _) hcount
  rw [recordReads_eq (answered_calm left) hseq calls, stream, arriving_answered]
  rfl

/-- The browser sends the hello of the native client and succeeds exactly when the native client
does, with the same keys and the same transcript. What it holds and what is still to be polled are
the server's bytes after the reply, and the reads that follow cut them as reads from the bytes
themselves do. The counter of the polls has 64 bits. -/
theorem browser_handshake_agrees (hA : Correct C.aead) (clientPrivate : Key) (serverKey : Block 32)
    (reply : Bytes) (bodies : List Bytes) (failure : Option IoError) :
    let native := clientHandshake C clientPrivate serverKey (.ok ()) ⟨bodies.flatten, failure⟩
    let browser := handshake C clientPrivate serverKey (.ok reply) (bodies.map answered)
    browser.sent = native.sent.map (fun hello => (1, hello)) ∧
      (∀ hello ∈ native.sent, hello.length = 54) ∧
    ((∃ rest session, browser.outcome = .returned rest (.ok session)) ↔
      ∃ session rest, native.result = .ok (session, rest)) ∧
    ∀ rest session, browser.outcome = .returned rest (.ok session) →
      (∃ peer, native.result = .ok (peer, ⟨bodies.flatten.drop 54, failure⟩) ∧
        session.sealState = ⟨peer.sealState.key, 0⟩ ∧ session.openState = ⟨peer.openState.key, 0⟩ ∧
        session.handshakeHash = peer.handshakeHash) ∧
      ∃ used left, bodies = used ++ left ∧ rest = left.map answered ∧
        session.received ++ left.flatten = bodies.flatten.drop 54 ∧
        (bodies.length < 2 ^ 64 → session.downstreamSeq = used.length ∧
          ∀ calls, recordReads C.aead calls session rest =
            plainReads C.aead session.handshakeHash calls session.openState
              (bodies.flatten.drop 54)) := by
  intro native browser
  have hruns : Handshakes bodies failure native browser :=
    handshakes hA clientPrivate serverKey reply bodies failure
  clear_value native browser
  cases hruns with
  | failed hello hlen e outcome hfailed =>
    refine ⟨rfl, hlen, iff_of_false ?_ ?_, ?_⟩
    · rintro ⟨rest, session, h⟩
      exact hfailed rest session h
    · rintro ⟨_, _, h⟩
      cases h
    · intro rest session h
      exact absurd h (hfailed rest session)
  | succeeded hello hlen used left hbodies hused peer =>
    have hflat : bodies.flatten.drop 54 = used.flatten.drop 54 ++ left.flatten := by
      rw [hbodies, List.flatten_append, List.drop_append_of_le_length hused]
    refine ⟨rfl, fun bytes hbytes => Option.mem_some_iff.mp hbytes ▸ hlen,
      iff_of_true ⟨_, _, rfl⟩ ⟨_, _, rfl⟩, ?_⟩
    intro rest session h
    cases h
    rw [hflat]
    refine ⟨⟨peer, rfl, rfl, rfl, rfl⟩, used, left, hbodies, rfl, rfl, ?_⟩
    intro hcount
    rw [hbodies, List.length_append] at hcount
    exact ⟨Nat.mod_eq_of_lt (by omega), browserSession_reads C.aead used left peer hcount⟩

def sampleCrypto : HandshakeCrypto where
  aead := checksumAead List.Vector.toList
  hkdf key input := (blockOf 32 (input ++ key.toList), blockOf 32 (key.toList ++ input))
  publicKey key := key
  diffieHellman key peer := blockOf 32 (List.zipWith (· + ·) key.toList peer.toList)
  sha256 data := blockOf 32 (data.drop 32)

def sampleKey (byte : UInt8) : Block 32 := blockOf 32 (List.replicate 32 byte)

def sampleReply : Bytes :=
  let reply := do
    let (state, _) ← clientHello sampleCrypto (sampleKey 1) (sampleKey 2)
    let ee := sampleCrypto.diffieHellman (sampleKey 1) (sampleKey 3)
    ((state.mixHash sampleCrypto (sampleKey 3).toList).mixKey sampleCrypto ee.toList).encryptAndHash
      sampleCrypto []
  match reply with
  | .error _ => []
  | .ok (_, tag) => serverMagic ++ beBytes 2 48 ++ (sampleKey 3).toList ++ tag

def sampleBodies : List Bytes :=
  [[], sampleReply.take 10, [], sampleReply.drop 10 ++ [0, 0], [0, 24] ++ List.replicate 24 7]

theorem browser_handshake_agrees_sample : ∃ rest session,
    (handshake sampleCrypto (sampleKey 1) (sampleKey 2) (.ok []) (sampleBodies.map answered)).outcome =
      .returned rest (.ok session) ∧
    ∃ used left, sampleBodies = used ++ left ∧
      session.received ++ left.flatten = sampleBodies.flatten.drop 54 ∧
      session.downstreamSeq = used.length ∧ ∀ calls, recordReads sampleCrypto.aead calls session rest =
        plainReads sampleCrypto.aead session.handshakeHash calls session.openState
          (sampleBodies.flatten.drop 54) := by
  have hnative : (clientHandshake sampleCrypto (sampleKey 1) (sampleKey 2) (.ok ())
      ⟨sampleBodies.flatten, none⟩).result.isOk = true := by decide +kernel
  have h := browser_handshake_agrees (C := sampleCrypto) (checksumAead_correct _) (sampleKey 1)
    (sampleKey 2) [] sampleBodies none
  cases hresult : (clientHandshake sampleCrypto (sampleKey 1) (sampleKey 2) (.ok ())
      ⟨sampleBodies.flatten, none⟩).result with
  | error e =>
    rw [hresult] at hnative
    cases hnative
  | ok result =>
    obtain ⟨rest, session, hsession⟩ := h.2.2.1.mpr ⟨result.1, result.2, hresult⟩
    obtain ⟨-, used, left, hbodies, -, hreceived, hreads⟩ := h.2.2.2 rest session hsession
    exact ⟨rest, session, hsession, used, left, hbodies, hreceived, hreads (by decide)⟩

end Mst5Client.HandshakeStreams
