import Mst5Client.RecordLockstep

set_option autoImplicit false

/-!
# Nonces of one sealing direction

A direction is sealed by `Session::seal_record` during the handshake and by `seal_record_into` after
`Mst5Connection::start` has handed the cipher state to the writer.
-/
namespace Mst5Client.RecordNonces
open ByteOrder AuthenticatedCipher IoResult RecordLayer RecordPlaintext RecordSteps MachineRuns
  RecordLockstep

/-- The writer also encrypts in place and receives the tag apart. -/
structure WriterCrypto extends RecordCrypto where
  encryptInPlace : Key → Bytes → Bytes → Bytes → Option (Bytes × Bytes)

/-- The writer's share of the connection, without its socket and frame buffer. -/
structure WriterState where
  cipher : CipherState
  handshakeHash : Block 32
  plaintext : Bytes
  record : Bytes

def WriterState.start (s : Session) : WriterState := ⟨s.sealState, s.handshakeHash, [], []⟩

def aeadEncryptInPlace (C : WriterCrypto) (key : Key) (nonce : ℕ) (aad plaintext : Bytes) :
    Except IoError (Bytes × Bytes) :=
  match C.encryptInPlace key (aeadNonce nonce) aad plaintext with
  | some sealed => .ok sealed
  | none => .error (invalidData "MST5 encryption failed")

def sealRecordInto (C : WriterCrypto) (w : WriterState) (contentType : UInt8) (payload : Bytes) :
    WriterState × Except IoError Unit :=
  match transportPlaintextInto w.plaintext contentType payload with
  | .error e => (w, .error e)
  | .ok plaintext =>
    let w := { w with plaintext }
    match w.cipher.checkLimit plaintext.length with
    | .error e => (w, .error e)
    | .ok () =>
      let sequence := w.cipher.nonce
      match (checkedAdd 8 plaintext.length).bind (checkedAdd · tagLen) with
      | none => (w, .error (invalidData "MST5 record length overflow"))
      | some frameLength =>
        match recordAad w.handshakeHash frameLength sequence with
        | .error e => (w, .error e)
        | .ok aad =>
          match aeadEncryptInPlace C w.cipher.key sequence aad plaintext with
          | .error e => (w, .error e)
          | .ok (ciphertext, tag) =>
            let w := { w with plaintext := ciphertext } -- encrypted in place
            let w := { w with record := beBytes 8 sequence ++ ciphertext ++ tag }
            match w.cipher.commit C.hkdf w.handshakeHash ciphertext.length with
            | (cipher, .error e) => ({ w with cipher }, .error e)
            | (cipher, .ok ()) => ({ w with cipher }, .ok ())

/-- Encryption fails on nothing but oversized messages, and keeps the length in place. -/
structure Encrypts (C : WriterCrypto) : Prop where
  whole : ∀ k n a m, m.length < messageLimit → ∃ c, C.aead.encrypt k n a m = some c
  inPlace : ∀ k n a m, m.length < messageLimit →
    ∃ c tag, C.encryptInPlace k n a m = some (c, tag) ∧ c.length = m.length

/-- One call of a direction: the cipher state it finds, what it asks of the cipher, how the cipher
answers, and the record if there is one. -/
structure Step where
  cipher : CipherState
  asks : Query Key → Prop
  answer : Query Key → Option Bytes
  record : Option Bytes

def answering (C : RecordCrypto) (E : Query Key → Option Bytes) : RecordCrypto :=
  { C with aead := C.aead.answering E }

def answeringInPlace (C : WriterCrypto) (E : Query Key → Option (Bytes × Bytes)) : WriterCrypto :=
  { C with encryptInPlace := fun k n a m => E ⟨k, n, a, m⟩ }

def sessionStep (C : WriterCrypto) (s : Session) (call : UInt8 × Bytes) : Session × Step :=
  let t := s.sealRecord C.toRecordCrypto call.1 call.2
  (t.1,
    { cipher := s.sealState
      asks := Asks fun E => s.sealRecord (answering C.toRecordCrypto E) call.1 call.2
      answer := fun q => C.aead.encrypt q.key q.nonce q.aad q.message
      record := t.2.toOption })

def writerStep (C : WriterCrypto) (w : WriterState) (call : UInt8 × Bytes) : WriterState × Step :=
  let t := sealRecordInto C w call.1 call.2
  (t.1,
    { cipher := w.cipher
      asks := Asks fun E => sealRecordInto (answeringInPlace C E) w call.1 call.2
      answer := fun q => (C.encryptInPlace q.key q.nonce q.aad q.message).map fun sealed =>
        sealed.1 ++ sealed.2
      record := t.2.toOption.map fun _ => t.1.record })

/-- The steps of a direction: `calls` go through the session, `writes` through the writer that takes
over. -/
def directionSteps (C : WriterCrypto) (s : Session) (calls writes : List (UInt8 × Bytes)) :
    List Step :=
  (trace (sessionStep C) s calls).map Prod.snd ++
    (trace (writerStep C) (WriterState.start (final (sessionStep C) s calls)) writes).map Prod.snd

/-- What holds of a sealing state between records. Past the last generation the counters
may leave their rekeying limits, but the key stays the one of the generation. -/
structure Sound (hkdf : Hkdf) (hash : Block 32) (key : Key) (c : CipherState) : Prop where
  key_eq : c.key = generationKey hkdf hash key c.generation
  generation_le : c.generation ≤ maxGeneration
  nonce_lt : c.generation < maxGeneration → c.nonce < rekeyRecords
  bytes_lt : c.generation < maxGeneration → c.plaintextBytes < rekeyBytes

theorem sound_new (hkdf : Hkdf) (hash : Block 32) (key : Key) :
    Sound hkdf hash key (CipherState.new key) :=
  ⟨rfl, Nat.zero_le _, fun _ => (by decide : 0 < rekeyRecords), fun _ => (by decide : 0 < rekeyBytes)⟩

theorem commit_cases {c : CipherState} {n : ℕ} (hlimit : c.checkLimit n = .ok ()) (hkdf : Hkdf)
    (hash : Block 32) :
    (c.generation < maxGeneration ∧ (c.commit hkdf hash n).1 =
      ⟨nextKey hkdf hash c.key (c.generation + 1), 0, 0, c.generation + 1⟩) ∨
    ((c.generation < maxGeneration → c.nonce + 1 < rekeyRecords ∧ c.plaintextBytes + n < rekeyBytes) ∧
      (c.commit hkdf hash n).1 =
        { c with nonce := c.nonce + 1, plaintextBytes := c.plaintextBytes + n }) := by
  obtain ⟨hrecords, hbytes⟩ := checkLimit_ok hlimit
  simp only [maxRecords, maxPlaintextBytes] at hrecords hbytes
  have hsum : checkedAdd c.plaintextBytes n = some (c.plaintextBytes + n) :=
    checkedAdd_of_lt (by omega)
  have hnext : checkedAdd c.nonce 1 = some (c.nonce + 1) := checkedAdd_of_lt (by omega)
  simp only [CipherState.commit, hsum, hnext]
  by_cases hrekey : rekeyRecords ≤ c.nonce + 1 ∨ rekeyBytes ≤ c.plaintextBytes + n
  · simp only [hrekey, ↓reduceIte]
    by_cases hg : c.generation < maxGeneration
    · left
      rw [checkedAdd_of_lt (by simp only [maxGeneration] at hg; omega)]
      exact ⟨hg, rfl⟩
    -- the last generation: `commit` fails, with the counters advanced
    · right
      rw [checkedAdd_of_le (by simp only [maxGeneration] at hg; omega)]
      exact ⟨fun h => absurd h hg, rfl⟩
  · right
    simp only [hrekey, ↓reduceIte]
    rw [not_or, not_le, not_le] at hrekey
    exact ⟨fun _ => hrekey, trivial⟩

def statePoint (c : CipherState) : ℕ ×ₗ ℕ := toLex (c.generation, c.nonce)

theorem commit_point_lt {c : CipherState} {n : ℕ} (hlimit : c.checkLimit n = .ok ()) (hkdf : Hkdf)
    (hash : Block 32) : statePoint c < statePoint (c.commit hkdf hash n).1 := by
  rw [statePoint, statePoint, Prod.Lex.toLex_lt_toLex]
  rcases commit_cases hlimit hkdf hash with ⟨-, hcommit⟩ | ⟨-, hcommit⟩
  · exact Or.inl (by rw [hcommit]; exact Nat.lt_succ_self _)
  · exact Or.inr (by rw [hcommit]; exact ⟨rfl, Nat.lt_succ_self _⟩)

theorem commit_ne {c : CipherState} {n : ℕ} (hlimit : c.checkLimit n = .ok ()) (hkdf : Hkdf)
    (hash : Block 32) : c ≠ (c.commit hkdf hash n).1 :=
  fun h => (commit_point_lt hlimit hkdf hash).ne (congrArg statePoint h)

/-- How the writer goes on with the answer of the cipher. -/
def answeredInPlace (hkdf : Hkdf) (w : WriterState) :
    Option (Bytes × Bytes) → WriterState × Except IoError Unit
  | none => (w, .error (invalidData "MST5 encryption failed"))
  | some sealed =>
    ({ w with
        cipher := (w.cipher.commit hkdf w.handshakeHash sealed.1.length).1
        plaintext := sealed.1
        record := beBytes 8 w.cipher.nonce ++ sealed.1 ++ sealed.2 },
      (w.cipher.commit hkdf w.handshakeHash sealed.1.length).2)

theorem sealRecordInto_answered (C : WriterCrypto) (w : WriterState) {contentType : UInt8}
    {payload : Bytes} (hadm : Admissible contentType payload)
    (hlimit : w.cipher.checkLimit (padded contentType payload).length = .ok ()) :
    sealRecordInto C w contentType payload =
      answeredInPlace C.hkdf { w with plaintext := padded contentType payload }
        (C.encryptInPlace w.cipher.key (aeadNonce w.cipher.nonce)
          (aadAt w.handshakeHash w.cipher.nonce (padded contentType payload).length)
          (padded contentType payload)) := by
  have hn := padded_le_record hadm
  simp only [sealRecordInto, transportPlaintextInto_ok w.plaintext hadm, hlimit, frameLength_ok hn,
    recordAad_ok w.handshakeHash w.cipher.nonce hn, aeadEncryptInPlace]
  cases C.encryptInPlace w.cipher.key (aeadNonce w.cipher.nonce)
      (aadAt w.handshakeHash w.cipher.nonce (padded contentType payload).length)
      (padded contentType payload) with
  | none => rfl
  | some sealed =>
    dsimp only [answeredInPlace]
    rcases w.cipher.commit C.hkdf w.handshakeHash sealed.1.length with ⟨st, (e | u)⟩ <;> rfl

theorem sealRecordInto_refused (w : WriterState) {contentType : UInt8} {payload : Bytes}
    (h : query w.cipher w.handshakeHash contentType payload = none) :
    ∃ v e, v.cipher = w.cipher ∧ v.handshakeHash = w.handshakeHash ∧
      ∀ C, sealRecordInto C w contentType payload = (v, .error e) := by
  rcases query_cases w.cipher w.handshakeHash contentType payload with
    ⟨-, ⟨e, hplain⟩ | ⟨hadm, e, hlimit⟩⟩ | ⟨-, -, hsome⟩
  · have hinto : transportPlaintextInto w.plaintext contentType payload = .error e := hplain
    exact ⟨w, e, rfl, rfl, fun C => by simp only [sealRecordInto, hinto]⟩
  · refine ⟨{ w with plaintext := padded contentType payload }, e, rfl, rfl, fun C => ?_⟩
    simp only [sealRecordInto, transportPlaintextInto_ok w.plaintext hadm, hlimit]
  · cases h.symm.trans hsome

section Steps

def sealNext (hkdf : Hkdf) (hash : Block 32) (c : CipherState) (call : UInt8 × Bytes) :
    CipherState :=
  match query c hash call.1 call.2 with
  | none => c
  | some q => (c.commit hkdf hash q.message.length).1

/-- The step seals this call in the state `c` and leaves `next`. -/
structure Seals (hkdf : Hkdf) (hash : Block 32) (c : CipherState) (call : UInt8 × Bytes) (a : Step)
    (next : CipherState) : Prop where
  cipher : a.cipher = c
  next : next = sealNext hkdf hash c call
  asks : ∀ q, a.asks q ↔ query c hash call.1 call.2 = some q
  record : ∀ record, a.record = some record → ∃ q answer, query c hash call.1 call.2 = some q ∧
    a.answer q = some answer ∧ record = beBytes 8 c.nonce ++ answer

variable {C : WriterCrypto} (hC : Encrypts C) {hash : Block 32}
include hC

theorem sessionStep_seals (s : Session) (call : UInt8 × Bytes) :
    (sessionStep C s call).1.handshakeHash = s.handshakeHash ∧
      Seals C.hkdf s.handshakeHash s.sealState call
      (sessionStep C s call).2 (sessionStep C s call).1.sealState := by
  obtain ⟨contentType, payload⟩ := call
  rcases query_cases s.sealState s.handshakeHash contentType payload with
    ⟨hnone, -⟩ | ⟨hadm, hlimit, hsome⟩
  · obtain ⟨e, hrefused⟩ := sealRecord_refused s hnone
    have hseal := hrefused C.toRecordCrypto
    refine ⟨by rw [sessionStep, hseal], rfl, by simp only [sessionStep, hseal, sealNext, hnone], ?_, ?_⟩
    · intro q
      rw [hnone]
      exact iff_of_false (not_asks fun E => hrefused _) nofun
    · intro record hrecord
      simp only [sessionStep, hseal] at hrecord
      cases hrecord
  · obtain ⟨c, hc⟩ := hC.whole s.sealState.key (aeadNonce s.sealState.nonce)
      (aadAt s.handshakeHash s.sealState.nonce (padded contentType payload).length)
      (padded contentType payload) (padded_encryptable hadm)
    have hseal := sealRecord_answered C.toRecordCrypto s hadm hlimit
    rw [hc] at hseal
    refine ⟨by rw [sessionStep, hseal]; rfl,
      rfl, by simp only [sessionStep, hseal, sealNext, hsome, answered], ?_, ?_⟩
    · intro q
      rw [hsome, Option.some.injEq, eq_comm (b := q)]
      refine asks_iff (g := answered C.hkdf s (padded contentType payload).length) (r := none)
        (t := some c) (fun E => sealRecord_answered (answering _ E) s hadm hlimit) ?_
      exact fun h => commit_ne hlimit C.hkdf s.handshakeHash (congrArg (fun t => t.1.sealState) h)
    · intro record hrecord
      simp only [sessionStep, hseal, answered] at hrecord
      refine ⟨_, c, hsome, hc, ?_⟩
      cases hcommit : (s.sealState.commit C.hkdf s.handshakeHash
        (padded contentType payload).length).2 with
      | error e =>
        rw [hcommit] at hrecord
        cases hrecord
      | ok =>
        rw [hcommit] at hrecord
        exact (Option.some.inj hrecord).symm

theorem writerStep_seals (w : WriterState) (call : UInt8 × Bytes) :
    (writerStep C w call).1.handshakeHash = w.handshakeHash ∧ Seals C.hkdf w.handshakeHash w.cipher call
      (writerStep C w call).2 (writerStep C w call).1.cipher := by
  obtain ⟨contentType, payload⟩ := call
  rcases query_cases w.cipher w.handshakeHash contentType payload with
    ⟨hnone, -⟩ | ⟨hadm, hlimit, hsome⟩
  · obtain ⟨v, e, hcipher, hhash, hrefused⟩ := sealRecordInto_refused w hnone
    have hseal := hrefused C
    refine ⟨by rw [writerStep, hseal]; exact hhash, rfl,
      by simp only [writerStep, hseal, sealNext, hnone, hcipher], ?_, ?_⟩
    · intro q
      rw [hnone]
      exact iff_of_false (not_asks fun E => hrefused _) nofun
    · intro record hrecord
      simp only [writerStep, hseal] at hrecord
      cases hrecord
  · obtain ⟨c, tag, hc, hlen⟩ := hC.inPlace w.cipher.key (aeadNonce w.cipher.nonce)
      (aadAt w.handshakeHash w.cipher.nonce (padded contentType payload).length)
      (padded contentType payload) (padded_encryptable hadm)
    have hseal := sealRecordInto_answered C w hadm hlimit
    rw [hc] at hseal
    refine ⟨by rw [writerStep, hseal]; rfl, rfl,
      by simp only [writerStep, hseal, sealNext, hsome, answeredInPlace, hlen], ?_, ?_⟩
    · intro q
      rw [hsome, Option.some.injEq, eq_comm (b := q)]
      refine asks_iff (g := answeredInPlace C.hkdf { w with plaintext := padded contentType payload })
        (r := none) (t := some (c, tag))
          (fun E => sealRecordInto_answered (answeringInPlace C E) w hadm hlimit) ?_
      intro h
      have hcipher := congrArg (fun t => t.1.cipher) h
      simp only [answeredInPlace, hlen] at hcipher
      exact commit_ne hlimit _ w.handshakeHash hcipher
    · intro record hrecord
      simp only [writerStep, hseal, answeredInPlace] at hrecord
      refine ⟨_, c ++ tag, hsome, by simp only [writerStep, hc, Option.map_some], ?_⟩
      obtain ⟨-, -, rfl⟩ := Option.map_eq_some_iff.mp hrecord
      rw [List.append_assoc]

end Steps

variable {hkdf : Hkdf} {hash : Block 32} {key : Key} {c last : CipherState} {steps : List Step}
variable {call : UInt8 × Bytes} {a : Step} {next : CipherState}

inductive Follows (hkdf : Hkdf) (hash : Block 32) : CipherState → List Step → CipherState → Prop
  | nil (c : CipherState) : Follows hkdf hash c [] c
  | cons {c next last : CipherState} {call : UInt8 × Bytes} {a : Step} {steps : List Step} :
    Seals hkdf hash c call a next → Follows hkdf hash next steps last →
      Follows hkdf hash c (a :: steps) last

theorem Follows.append {more : List Step} {c' : CipherState} (h : Follows hkdf hash c steps c')
    (hmore : Follows hkdf hash c' more last) : Follows hkdf hash c (steps ++ more) last := by
  induction h with
  | nil => exact hmore
  | cons hseals _ ih => exact .cons hseals (ih hmore)

theorem follows_trace {σ : Type} {f : σ → UInt8 × Bytes → σ × Step} (cipher : σ → CipherState)
    (hashOf : σ → Block 32) (hstep : ∀ s call, hashOf (f s call).1 = hashOf s ∧
      Seals hkdf (hashOf s) (cipher s) call (f s call).2 (cipher (f s call).1)) (s : σ)
    (calls : List (UInt8 × Bytes)) :
    Follows hkdf (hashOf s) (cipher s) ((trace f s calls).map Prod.snd) (cipher (final f s calls)) ∧
      hashOf (final f s calls) = hashOf s := by
  induction calls generalizing s with
  | nil => exact ⟨.nil _, rfl⟩
  | cons call calls ih =>
    obtain ⟨hkeep, hseals⟩ := hstep s call
    obtain ⟨hfollows, hlast⟩ := ih (f s call).1
    rw [hkeep] at hfollows hlast
    exact ⟨.cons hseals hfollows, hlast⟩

theorem direction_follows {C : WriterCrypto} (hC : Encrypts C) (s : Session)
    (calls writes : List (UInt8 × Bytes)) :
    ∃ last, Follows C.hkdf s.handshakeHash s.sealState (directionSteps C s calls writes) last := by
  obtain ⟨hcalls, hhash⟩ :=
    follows_trace Session.sealState Session.handshakeHash (sessionStep_seals hC) s calls
  obtain ⟨hwrites, -⟩ := follows_trace WriterState.cipher WriterState.handshakeHash
    (writerStep_seals hC) (WriterState.start (final (sessionStep C) s calls)) writes
  rw [show (WriterState.start (final (sessionStep C) s calls)).handshakeHash = s.handshakeHash
    from hhash] at hwrites
  exact ⟨_, hcalls.append hwrites⟩

theorem Seals.point (h : Seals hkdf hash c call a next) :
    statePoint c ≤ statePoint next ∧ ∀ q, a.asks q → statePoint c < statePoint next := by
  rw [h.next, sealNext]
  rcases query_cases c hash call.1 call.2 with ⟨hnone, -⟩ | ⟨-, hlimit, hsome⟩
  · refine ⟨by rw [hnone], ?_⟩
    intro q hq
    cases hnone.symm.trans ((h.asks q).mp hq)
  · rw [hsome]
    exact ⟨(commit_point_lt hlimit hkdf hash).le, fun _ _ => commit_point_lt hlimit hkdf hash⟩

theorem Follows.sorted (h : Follows hkdf hash c steps last) :
    steps.Pairwise (fun a b => ∀ q q', a.asks q → b.asks q' →
      statePoint a.cipher < statePoint b.cipher) ∧
      ∀ a ∈ steps, statePoint c ≤ statePoint a.cipher := by
  induction h with
  | nil => exact ⟨.nil, nofun⟩
  | cons hseals _ ih =>
    obtain ⟨hle, hlt⟩ := hseals.point
    refine ⟨List.pairwise_cons.mpr ⟨?_, ih.1⟩, List.forall_mem_cons.mpr ⟨by rw [hseals.cipher], ?_⟩⟩
    · intro b hb q q' hq _
      rw [hseals.cipher]
      exact (hlt q hq).trans_le (ih.2 b hb)
    · exact fun b hb => hle.trans (ih.2 b hb)

theorem Seals.sound (h : Seals hkdf hash c call a next) (hc : Sound hkdf hash key c) :
    Sound hkdf hash key next := by
  rw [h.next, sealNext]
  rcases query_cases c hash call.1 call.2 with ⟨hnone, -⟩ | ⟨-, hlimit, hsome⟩
  · rw [hnone]
    exact hc
  rw [hsome]
  rcases commit_cases hlimit hkdf hash with ⟨hg, hcommit⟩ | ⟨hwithin, hcommit⟩
  · dsimp only
    rw [hcommit]
    refine ⟨?_, hg, fun _ => (by decide : 0 < rekeyRecords), fun _ => (by decide : 0 < rekeyBytes)⟩
    rw [hc.key_eq]
    rfl
  · dsimp only
    rw [hcommit]
    exact ⟨hc.key_eq, hc.generation_le, fun h => (hwithin h).1, fun h => (hwithin h).2⟩

theorem Follows.sound (h : Follows hkdf hash c steps last) (hc : Sound hkdf hash key c) :
    ∀ a ∈ steps, Sound hkdf hash key a.cipher ∧ ∃ call next, Seals hkdf hash a.cipher call a next := by
  induction h with
  | nil => nofun
  | @cons c next _ call a _ hseals _ ih =>
    refine List.forall_mem_cons.mpr ⟨?_, ih (hseals.sound hc)⟩
    rw [hseals.cipher]
    exact ⟨hc, call, next, hseals⟩

theorem Seals.query_eq {q : Query Key} (h : Seals hkdf hash c call a next) (hq : a.asks q) :
    q.key = c.key ∧ q.nonce = aeadNonce c.nonce ∧ c.nonce < maxRecords := by
  have hquery := (h.asks q).mp hq
  rcases query_cases c hash call.1 call.2 with ⟨hnone, -⟩ | ⟨-, hlimit, hsome⟩
  · cases hnone.symm.trans hquery
  · obtain rfl := Option.some.inj (hsome.symm.trans hquery)
    exact ⟨rfl, rfl, (checkLimit_ok hlimit).1⟩

/-- No nonce of a direction is used twice under one key, whatever calls fail. A call asks the cipher at
most once, and the record it gives is the answer. The calls that ask are strictly ordered by generation
and nonce, which are what the cipher is called with: the key is the one of the generation. Until the
last generation rekeying comes before the hard limits of `check_limit`. -/
theorem nonces_never_reused {C : WriterCrypto} (hC : Encrypts C) (key : Key) (s : Session)
    (hs : s.sealState = CipherState.new key) (calls writes : List (UInt8 × Bytes)) :
    (directionSteps C s calls writes).Pairwise (fun a b => ∀ q q', a.asks q → b.asks q' →
      statePoint a.cipher < statePoint b.cipher ∧
        (a.cipher.generation = b.cipher.generation → q.nonce ≠ q'.nonce)) ∧
    ∀ a ∈ directionSteps C s calls writes,
      (∀ q, a.asks q → (∀ q', a.asks q' → q' = q) ∧
        q.nonce = aeadNonce a.cipher.nonce ∧
        q.key = generationKey C.hkdf s.handshakeHash key a.cipher.generation ∧
        (a.cipher.generation < maxGeneration →
          a.cipher.nonce < rekeyRecords ∧ a.cipher.plaintextBytes < rekeyBytes)) ∧
      (∀ record, a.record = some record → ∃ q answer, a.asks q ∧ a.answer q = some answer ∧
        record = beBytes 8 a.cipher.nonce ++ answer) ∧
      (a.cipher.generation < maxGeneration → ∀ contentType payload plaintext,
        transportPlaintext contentType payload = .ok plaintext →
          a.cipher.checkLimit plaintext.length = .ok ()) := by
  obtain ⟨last, hfollows⟩ := direction_follows hC s calls writes
  have hstart : Sound C.hkdf s.handshakeHash key s.sealState := by
    rw [hs]
    exact sound_new C.hkdf s.handshakeHash key
  have hsound := hfollows.sound hstart
  refine ⟨hfollows.sorted.1.imp_of_mem ?_, fun a ha => ⟨?_, ?_, ?_⟩⟩
  · intro a b ha hb hlt q q' hq hq'
    obtain ⟨-, _, _, hseals⟩ := hsound a ha
    obtain ⟨-, _, _, hseals'⟩ := hsound b hb
    obtain ⟨-, hnonce, hbound⟩ := hseals.query_eq hq
    obtain ⟨-, hnonce', hbound'⟩ := hseals'.query_eq hq'
    have hpoint := hlt q q' hq hq'
    refine ⟨hpoint, ?_⟩
    rintro hgeneration hsame
    rw [hnonce, hnonce'] at hsame
    simp only [maxRecords] at hbound hbound'
    have heq := aeadNonce_injective (by omega) (by omega) hsame
    exact hpoint.ne (by rw [statePoint, statePoint, hgeneration, heq])
  · intro q hq
    obtain ⟨hd, call, next, hseals⟩ := hsound a ha
    obtain ⟨hkey, hnonce, -⟩ := hseals.query_eq hq
    refine ⟨?_, hnonce, hkey.trans hd.key_eq, fun h => ⟨hd.nonce_lt h, hd.bytes_lt h⟩⟩
    exact fun q' hq' => Option.some.inj (((hseals.asks q').mp hq').symm.trans ((hseals.asks q).mp hq))
  · intro record hrecord
    obtain ⟨-, call, next, hseals⟩ := hsound a ha
    obtain ⟨q, answer, hquery, hanswer, hrecord⟩ := hseals.record record hrecord
    exact ⟨q, answer, (hseals.asks q).mpr hquery, hanswer, hrecord⟩
  · intro hg contentType payload plaintext hplain
    obtain ⟨hadm, rfl⟩ := transportPlaintextInto_inv hplain
    have hd := (hsound a ha).1
    exact checkLimit_within (hd.nonce_lt hg) (hd.bytes_lt hg) (padded_le_record hadm)

def checksumWriter : WriterCrypto where
  toRecordCrypto := checksumCrypto
  encryptInPlace k n a m :=
    if m.length < messageLimit then some (m, checksum List.Vector.toList k n a m) else none

theorem checksumWriter_encrypts : Encrypts checksumWriter where
  whole := (checksumAead_correct List.Vector.toList).encrypts
  inPlace := by
    intro k n a m h
    exact ⟨m, checksum List.Vector.toList k n a m, by simp [checksumWriter, h], rfl⟩

/-- The session's record and the second write ask under one key, with two nonces; the first write is
refused. -/
theorem nonces_never_reused_sample :
    ∃ a b c q q', directionSteps checksumWriter (Session.new sampleKey sampleHash) [(0, [1])]
      [(7, []), (0, [2])] =
      [a, b, c] ∧ a.asks q ∧ (∀ p, ¬ b.asks p) ∧ c.asks q' ∧ q.key = q'.key ∧ q.nonce ≠ q'.nonce := by
  let s := Session.new sampleKey sampleHash
  let w := WriterState.start (sessionStep checksumWriter s (0, [1])).1
  let v := (writerStep checksumWriter w (7, [])).1
  let q : Query Key := ⟨sampleKey, aeadNonce 0, aadAt sampleHash 0 256, padded 0 [1]⟩
  let q' : Query Key := ⟨sampleKey, aeadNonce 1, aadAt sampleHash 1 256, padded 0 [2]⟩
  have hq : query s.sealState s.handshakeHash 0 [1] = some q := by decide +kernel
  have hnone : query w.cipher w.handshakeHash 7 [] = none := by decide +kernel
  have hq' : query v.cipher v.handshakeHash 0 [2] = some q' := by decide +kernel
  have hfirst := ((sessionStep_seals checksumWriter_encrypts s (0, [1])).2.asks q).mpr hq
  have hlast := ((writerStep_seals checksumWriter_encrypts v (0, [2])).2.asks q').mpr hq'
  refine ⟨_, _, _, q, q', rfl, hfirst, ?_, hlast, rfl, ?_⟩
  · intro p hp
    cases hnone.symm.trans (((writerStep_seals checksumWriter_encrypts w (7, [])).2.asks p).mp hp)
  · have hpairs := (nonces_never_reused checksumWriter_encrypts sampleKey s rfl [(0, [1])] [(7, []),
      (0, [2])]).1
    have hafter := (List.pairwise_cons.mp hpairs).1 _ (List.mem_cons_of_mem _ (List.mem_cons_self ..))
    exact (hafter q q' hfirst hlast).2 (by decide +kernel)

end Mst5Client.RecordNonces
