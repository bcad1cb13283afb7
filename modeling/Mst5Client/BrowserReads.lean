import Mst5Client.BrowserTunnel

set_option autoImplicit false

/-!
# Failed reads of a browser session

`read_record` takes the four length bytes out of the buffer before it waits for the body.
-/
namespace Mst5Client.BrowserReads
open ByteOrder AuthenticatedCipher RecordLayer MachineRuns BrowserRecords BrowserTunnel

section Polls
variable {polls rest : List Poll}

def bodyOf : Poll → Bytes
  | .fails _ => []
  | .answers bytes _ => bytes

/-- The poll ends the read with a transport error. -/
def Failing : Poll → Prop
  | .fails _ => True
  | .answers bytes slept => bytes = [] ∧ slept.isOk = false

instance : DecidablePred Failing
  | .fails _ => isTrue trivial
  | .answers _ _ => inferInstanceAs (Decidable (_ ∧ _))

def calm (polls : List Poll) : List Poll :=
  polls.filterMap fun
    | .fails _ => none
    | .answers bytes _ => some (.answers bytes (.ok ()))

def arriving (polls : List Poll) : Bytes := polls.flatMap bodyOf

def stream (s : BrowserSession) (polls : List Poll) : Bytes := s.received ++ arriving polls

theorem arriving_calm (polls : List Poll) : arriving (calm polls) = arriving polls := by
  induction polls with
  | nil => rfl
  | cons poll polls ih =>
    cases poll with
    | fails e => exact ih
    | answers bytes slept => exact congrArg (bytes ++ ·) ih

theorem calm_length_le (polls : List Poll) : (calm polls).length ≤ polls.length :=
  List.length_filterMap_le _ _

theorem not_failing_of_mem_calm {poll : Poll} (h : poll ∈ calm polls) : ¬ Failing poll := by
  obtain ⟨source, -, hsource⟩ := List.mem_filterMap.mp h
  cases source with
  | fails e => cases hsource
  | answers bytes slept =>
    obtain rfl := Option.some.inj hsource
    exact fun hfailing => Bool.noConfusion hfailing.2

/-- `rest` is left when the polls before it have been used, and none of these failed. -/
def Leads (polls rest : List Poll) : Prop :=
  ∃ used, polls = used ++ rest ∧ ∀ poll ∈ used, ¬ Failing poll

theorem Leads.refl (polls : List Poll) : Leads polls polls :=
  ⟨[], rfl, fun _ h => absurd h List.not_mem_nil⟩

theorem Leads.trans {after : List Poll} (h : Leads polls rest) (h' : Leads rest after) :
    Leads polls after := by
  obtain ⟨used, rfl, hused⟩ := h
  obtain ⟨more, rfl, hmore⟩ := h'
  exact ⟨used ++ more, (List.append_assoc _ _ _).symm, List.forall_mem_append.mpr ⟨hused, hmore⟩⟩

theorem Leads.cons {poll : Poll} {polls rest : List Poll} (hpoll : ¬ Failing poll)
    (h : Leads polls rest) : Leads (poll :: polls) rest := by
  obtain ⟨used, rfl, hused⟩ := h
  exact ⟨poll :: used, rfl, List.forall_mem_cons.mpr ⟨hpoll, hused⟩⟩

theorem Leads.length_le (h : Leads polls rest) : rest.length ≤ polls.length := by
  obtain ⟨used, rfl, -⟩ := h
  rw [List.length_append]
  omega

theorem Leads.mem (h : Leads polls rest) {poll : Poll} (hmem : poll ∈ rest) : poll ∈ polls := by
  obtain ⟨used, rfl, -⟩ := h
  exact List.mem_append_right _ hmem

/-- Neither the keys nor the transcript change, and an answered poll costs one sequence number. -/
structure Follows (s : BrowserSession) (polls : List Poll) (t : BrowserSession) (rest : List Poll) :
    Prop where
  cipher : t.openState = s.openState
  hash : t.handshakeHash = s.handshakeHash
  sequence : t.downstreamSeq + rest.length ≤ s.downstreamSeq + polls.length

theorem Follows.trans {s t u : BrowserSession} {polls rest after : List Poll}
    (h : Follows s polls t rest) (h' : Follows t rest u after) : Follows s polls u after :=
  ⟨h'.cipher.trans h.cipher, h'.hash.trans h.hash, h'.sequence.trans h.sequence⟩

inductive ExactRead (length : ℕ) (s : BrowserSession) (polls : List Poll) : Reading Bytes → Prop
  | waiting (t : BrowserSession) (hcalm : s.readExact length (calm polls) = .waiting t)
      (hshort : (stream s polls).length < length) : ExactRead length s polls (.waiting t)
  | exhausted (t : BrowserSession) (rest : List Poll) (e : JsError)
      (hcalm : s.readExact length (calm polls) = .returned t (calm rest) (.error (.rejected e)))
      (hsequence : 2 ^ 64 ≤ s.downstreamSeq + polls.length) :
      ExactRead length s polls (.returned t rest (.error (.rejected e)))
  | failed (t : BrowserSession) (rest : List Poll) (e : JsError) (poll : Poll)
      (hcalm : s.readExact length (calm polls) = t.readExact length (calm rest))
      (hfailing : Failing poll) (hleads : Leads polls (poll :: rest))
      (hstream : stream s polls = stream t rest) (hshort : t.received.length < length)
      (hfollows : Follows s polls t rest) :
      ExactRead length s polls (.returned t rest (.error (.transport e)))
  | read (t : BrowserSession) (rest : List Poll) (bytes : Bytes)
      (hcalm : s.readExact length (calm polls) = .returned t (calm rest) (.ok bytes))
      (hlength : bytes.length = length) (hleads : Leads polls rest)
      (hstream : stream s polls = bytes ++ stream t rest) (hfollows : Follows s polls t rest) :
      ExactRead length s polls (.returned t rest (.ok bytes))

variable {length : ℕ} {s t : BrowserSession}

theorem readExact_enough (h : ¬ s.received.length < length) (polls : List Poll) :
    s.readExact length polls = s.drain length polls := by
  cases polls with
  | nil => simp only [BrowserSession.readExact, h, ↓reduceIte]
  | cons poll rest => simp only [BrowserSession.readExact, h, ↓reduceIte]

theorem exactRead_drain (h : ¬ s.received.length < length) (polls : List Poll) :
    ExactRead length s polls (s.drain length polls) := by
  refine .read _ _ _ (readExact_enough h _) ?_ (Leads.refl _) ?_ ⟨rfl, rfl, le_rfl⟩
  · rw [List.length_take]
    omega
  · simp only [stream, ← List.append_assoc, List.take_append_drop]

theorem ExactRead.answered {bytes : Bytes} {slept : Except JsError Unit} {rest : List Poll}
    {outcome : Reading Bytes} (hpoll : ¬ Failing (.answers bytes slept))
    (hfollows : Follows s (.answers bytes slept :: rest) t rest)
    (hreceived : t.received = s.received ++ bytes)
    (hcalm : s.readExact length (calm (.answers bytes slept :: rest)) = t.readExact length (calm rest))
    (h : ExactRead length t rest outcome) :
    ExactRead length s (.answers bytes slept :: rest) outcome := by
  have hstream : stream s (.answers bytes slept :: rest) = stream t rest := by
    simp only [stream, arriving, List.flatMap_cons, bodyOf, hreceived, List.append_assoc]
  cases h with
  | waiting u hu hshort => exact .waiting u (hcalm.trans hu) (hstream ▸ hshort)
  | exhausted u after e hu hsequence =>
    exact .exhausted u after e (hcalm.trans hu) (hsequence.trans hfollows.sequence)
  | failed u after e poll hu hfailing hleads hsame hshort hthen =>
    exact .failed u after e poll (hcalm.trans hu) hfailing (hleads.cons hpoll) (hstream.trans hsame)
      hshort (hfollows.trans hthen)
  | read u after bytes hu hlength hleads hsplit hthen =>
    exact .read u after bytes (hcalm.trans hu) hlength (hleads.cons hpoll) (hstream.trans hsplit)
      (hfollows.trans hthen)

theorem follows_next {poll : Poll} {rest : List Poll} (hcipher : t.openState = s.openState)
    (hhash : t.handshakeHash = s.handshakeHash) (hseq : t.downstreamSeq = s.downstreamSeq + 1) :
    Follows s (poll :: rest) t rest := by
  refine ⟨hcipher, hhash, ?_⟩
  rw [hseq, List.length_cons]
  omega

theorem exactRead (length : ℕ) (s : BrowserSession) (polls : List Poll) :
    ExactRead length s polls (s.readExact length polls) := by
  induction polls generalizing s with
  | nil =>
    by_cases hshort : s.received.length < length
    · simp only [BrowserSession.readExact, hshort, ↓reduceIte]
      refine .waiting s ?_ ?_
      · simp only [calm, List.filterMap_nil, BrowserSession.readExact, hshort, ↓reduceIte]
      · rwa [stream, arriving, List.flatMap_nil, List.append_nil]
    · rw [readExact_enough hshort]
      exact exactRead_drain hshort []
  | cons poll rest ih =>
    by_cases hshort : s.received.length < length
    swap
    · rw [readExact_enough hshort]
      exact exactRead_drain hshort _
    cases poll with
    | fails e =>
      simp only [BrowserSession.readExact, hshort, ↓reduceIte]
      exact .failed s rest e (.fails e) rfl trivial (Leads.refl _) rfl hshort
        ⟨rfl, rfl, Nat.add_le_add_left (Nat.le_succ _) _⟩
    | answers bytes slept =>
      by_cases hseq : s.downstreamSeq + 1 < 2 ^ 64
      swap
      · simp only [BrowserSession.readExact, hshort, hseq, ↓reduceIte]
        refine .exhausted s rest _ ?_ ?_
        · simp only [calm, List.filterMap_cons, BrowserSession.readExact, hshort, hseq, ↓reduceIte]
        · rw [List.length_cons]
          omega
      by_cases hempty : bytes = []
      · subst hempty
        have hcalm : s.readExact length (calm (.answers [] slept :: rest)) =
            { s with downstreamSeq := s.downstreamSeq + 1 }.readExact length (calm rest) := by
          simp only [calm, List.filterMap_cons, BrowserSession.readExact, hshort, hseq, ↓reduceIte]
        cases slept with
        | error e =>
          simp only [BrowserSession.readExact, hshort, hseq, ↓reduceIte]
          exact .failed _ rest e (.answers [] (.error e)) hcalm ⟨rfl, rfl⟩ (Leads.refl _) rfl hshort
            (follows_next rfl rfl rfl)
        | ok =>
          simp only [BrowserSession.readExact, hshort, hseq, ↓reduceIte]
          exact ExactRead.answered (t := { s with downstreamSeq := s.downstreamSeq + 1 })
            (fun h => Bool.noConfusion h.2) (follows_next rfl rfl rfl) (List.append_nil _).symm
              hcalm (ih _)
      · simp only [BrowserSession.readExact, hshort, hseq, hempty, ↓reduceIte]
        refine ExactRead.answered (t := ⟨s.upstreamSeq, s.downstreamSeq + 1, s.received ++ bytes,
          s.sealState,
          s.openState, s.handshakeHash⟩) (fun h => hempty h.1) (follows_next rfl rfl rfl) rfl ?_ (ih _)
        simp only [calm, List.filterMap_cons, BrowserSession.readExact, hshort, hseq, hempty,
          ↓reduceIte]

end Polls

section Record
variable (A : Aead Key)

/-- Every way a `read_record` can end. A failure before the body is waited for is `early`. -/
inductive RecordRead (s : BrowserSession) (polls : List Poll) : Reading Bytes → Prop
  | waiting (t : BrowserSession) (hcalm : s.readRecord A (calm polls) = .waiting t) :
      RecordRead s polls (.waiting t)
  | rejected (t : BrowserSession) (rest : List Poll) (e : JsError)
      (hcalm : s.readRecord A (calm polls) = .returned t (calm rest) (.error (.rejected e))) :
      RecordRead s polls (.returned t rest (.error (.rejected e)))
  | early (t : BrowserSession) (rest : List Poll) (e : JsError) (poll : Poll) (hfailing : Failing poll)
      (hcalm : s.readRecord A (calm polls) = t.readRecord A (calm rest))
      (hleads : Leads polls (poll :: rest)) (hstream : stream s polls = stream t rest)
      (hshort : t.received.length < 4) (hfollows : Follows s polls t rest) :
      RecordRead s polls (.returned t rest (.error (.transport e)))
  | late (t : BrowserSession) (rest : List Poll) (e : JsError) (poll : Poll) (hfailing : Failing poll)
      (hleads : Leads polls (poll :: rest)) (size : Bytes) (hsize : size.length = 4)
      (hstream : stream s polls = size ++ stream t rest) (hshort : t.received.length < ofBe size)
      (hfollows : Follows s polls t rest) :
      RecordRead s polls (.returned t rest (.error (.transport e)))
  | read (t : BrowserSession) (rest : List Poll) (payload : Bytes)
      (hcalm : s.readRecord A (calm polls) = .returned t (calm rest) (.ok payload))
      (hleads : Leads polls rest) (size record : Bytes) (hsize : size.length = 4)
      (hrecord : record.length = ofBe size)
      (hstream : stream s polls = size ++ (record ++ stream t rest))
      (hread : readRecord A s.handshakeHash s.openState record = (t.openState, .ok payload))
      (hhash : t.handshakeHash = s.handshakeHash)
      (hseq : t.downstreamSeq + rest.length ≤ s.downstreamSeq + polls.length) :
      RecordRead s polls (.returned t rest (.ok payload))

theorem recordRead (s : BrowserSession) (polls : List Poll) :
    RecordRead A s polls (s.readRecord A polls) := by
  have hheader := exactRead 4 s polls
  rw [BrowserSession.readRecord]
  generalize s.readExact 4 polls = outcome at hheader ⊢
  cases hheader with
  | waiting t hcalm => exact .waiting t (by rw [BrowserSession.readRecord, hcalm]; rfl)
  | exhausted t rest e hcalm => exact .rejected t rest e (by rw [BrowserSession.readRecord, hcalm]; rfl)
  | failed t rest e poll hcalm hfailing hleads hstream hshort hfollows =>
    exact .early t rest e poll hfailing (by rw [BrowserSession.readRecord, hcalm]; rfl) hleads
      hstream hshort hfollows
  | read t rest size hcalm hsize hleads hstream hfollows =>
    simp only [Reading.andThen]
    by_cases hbad : ofBe size < 24 ∨ maxRecordBytes + 512 < ofBe size
    · rw [if_pos hbad]
      refine .rejected t rest _ ?_
      simp only [BrowserSession.readRecord, hcalm, Reading.andThen, hbad, ↓reduceIte]
    rw [if_neg hbad]
    have hbody := exactRead (ofBe size) t rest
    generalize t.readExact (ofBe size) rest = outcome at hbody ⊢
    cases hbody with
    | waiting u hwait =>
      refine .waiting u ?_
      simp only [BrowserSession.readRecord, hcalm, Reading.andThen, hbad, hwait, ↓reduceIte]
    | exhausted u after e hout =>
      refine .rejected u after e ?_
      simp only [BrowserSession.readRecord, hcalm, Reading.andThen, hbad, hout, ↓reduceIte]
    | failed u after e poll _ hfailing hafter hsame hshort hthen =>
      exact .late u after e poll hfailing (hleads.trans hafter) size hsize (hsame ▸ hstream) hshort
        (hfollows.trans hthen)
    | read u after record hdone hrecord hafter hsplit hthen =>
      have hopened : s.readRecord A (calm polls) = u.openNext A (calm after) record := by
        simp only [BrowserSession.readRecord, hcalm, Reading.andThen, hbad, hdone, ↓reduceIte]
      have hchecked : ¬ (record.length < 24 ∨ maxRecordBytes + 512 < record.length) := hrecord ▸ hbad
      have hboth := hfollows.trans hthen
      simp only [BrowserSession.openNext] at hopened ⊢
      cases hresult : browserOpen A u.handshakeHash u.openState record with
      | mk cipher result =>
        rw [hresult] at hopened
        cases result with
        | error e => exact .rejected _ after e hopened
        | ok payload =>
          refine .read _ after payload hopened (hleads.trans hafter) size record hsize hrecord
            (hsplit ▸ hstream) ?_ hboth.hash hboth.sequence
          rw [readRecord, if_neg hchecked, ← hboth.cipher, ← hboth.hash, hresult]

def unread (s : BrowserSession) (polls : List Poll) : ℕ := (stream s polls).length + polls.length

theorem unread_lt {s t : BrowserSession} {polls rest : List Poll} {result : Except ReadError Bytes}
    (h : s.readRecord A polls = .returned t rest result)
    (hgoes : ∀ e, result ≠ .error (.rejected e)) : unread t rest < unread s polls := by
  have hview := recordRead A s polls
  rw [h] at hview
  simp only [unread]
  cases hview with
  | rejected => exact absurd rfl (hgoes _)
  | early _ _ _ _ _ _ hleads hstream =>
    have hlen := hleads.length_le
    rw [List.length_cons] at hlen
    rw [hstream]
    omega
  | late _ _ _ _ _ hleads size _ hstream =>
    have hlen := hleads.length_le
    rw [List.length_cons] at hlen
    rw [hstream, List.length_append]
    omega
  | read _ _ _ _ hleads size record _ _ hstream =>
    have hlen := hleads.length_le
    rw [hstream, List.length_append, List.length_append]
    omega

def readRecords (s : BrowserSession) (polls : List Poll) : List Bytes :=
  match h : s.readRecord A polls with
  | .waiting _ => []
  | .returned t rest (.ok payload) =>
    have := unread_lt A h (by simp)
    payload :: readRecords t rest
  | .returned t rest (.error (.transport _)) =>
    have := unread_lt A h (by simp)
    readRecords t rest
  | .returned _ _ (.error (.rejected _)) => []
termination_by unread s polls

variable {A} {s t : BrowserSession} {polls rest : List Poll}

theorem readRecords_waiting (h : s.readRecord A polls = .waiting t) :
    readRecords A s polls = [] := by
  rw [readRecords]
  split <;> simp_all

theorem readRecords_rejected {e : JsError}
    (h : s.readRecord A polls = .returned t rest (.error (.rejected e))) :
    readRecords A s polls = [] := by
  rw [readRecords]
  split <;> simp_all

theorem readRecords_transport {e : JsError}
    (h : s.readRecord A polls = .returned t rest (.error (.transport e))) :
    readRecords A s polls = readRecords A t rest := by
  rw [readRecords]
  split <;> simp_all

theorem readRecords_ok {payload : Bytes} (h : s.readRecord A polls = .returned t rest (.ok payload)) :
    readRecords A s polls = payload :: readRecords A t rest := by
  rw [readRecords]
  split <;> simp_all

theorem readRecords_congr (h : s.readRecord A polls = t.readRecord A rest) :
    readRecords A s polls = readRecords A t rest := by
  cases hout : t.readRecord A rest with
  | waiting u => rw [readRecords_waiting (h.trans hout), readRecords_waiting hout]
  | returned u after result =>
    rcases result with (e | e) | payload
    · rw [readRecords_transport (h.trans hout), readRecords_transport hout]
    · rw [readRecords_rejected (h.trans hout), readRecords_rejected hout]
    · rw [readRecords_ok (h.trans hout), readRecords_ok hout]

end Record

section Streams

def framed (record : Bytes) : Bytes := beBytes 4 record.length ++ record

def framedAll (records : List Bytes) : Bytes := records.flatMap framed

/-- With `missing` bytes of the stream yet to come, the length of some record has arrived in full
and its body has not. -/
def CutsBody : List Bytes → ℕ → Prop
  | [], _ => False
  | record :: records, missing =>
    ((framedAll records).length < missing ∧ missing ≤ (framedAll records).length + record.length) ∨
      CutsBody records missing

/-- No poll fails inside the body of a record. -/
def Undisturbed (records : List Bytes) : List Poll → Prop
  | [] => True
  | poll :: polls =>
    (Failing poll → ¬ CutsBody records (arriving polls).length) ∧ Undisturbed records polls

instance decidableCutsBody :
    ∀ (records : List Bytes) (missing : ℕ), Decidable (CutsBody records missing)
  | [], _ => isFalse id
  | _ :: records, missing =>
    have := decidableCutsBody records missing
    inferInstanceAs (Decidable (_ ∨ _))

instance decidableUndisturbed (records : List Bytes) :
    ∀ polls, Decidable (Undisturbed records polls)
  | [] => isTrue trivial
  | _ :: polls =>
    have := decidableUndisturbed records polls
    inferInstanceAs (Decidable (_ ∧ _))

/-- The records are accepted one after the other. -/
def Accepted (A : Aead Key) (s : BrowserSession) (records payloads : List Bytes) : Prop :=
  (trace (readRecord A s.handshakeHash) s.openState records).map Prod.snd = payloads.map Except.ok

/-- What the integrity of the cipher gives: in place of a record only that record is accepted. -/
def Unforgeable (A : Aead Key) (hash : Block 32) : BrowserCipher → List Bytes → Prop
  | _, [] => True
  | cipher, record :: records =>
    (∀ other next payload, readRecord A hash cipher other = (next, .ok payload) → other = record) ∧
      Unforgeable A hash (readRecord A hash cipher record).1 records

variable {record : Bytes} {records : List Bytes} {polls rest : List Poll} {missing : ℕ}

theorem framedAll_length_cons (record : Bytes) (records : List Bytes) :
    (framedAll (record :: records)).length = 4 + record.length + (framedAll records).length := by
  simp only [framedAll, framed, List.flatMap_cons, List.length_append, beBytes_length]

theorem CutsBody.le (h : CutsBody records missing) : missing ≤ (framedAll records).length := by
  induction records with
  | nil => exact h.elim
  | cons record records ih =>
    rw [framedAll_length_cons]
    rcases h with ⟨-, hle⟩ | h
    · omega
    · have := ih h
      omega

theorem cutsBody_cons_iff (h : missing ≤ (framedAll records).length) :
    CutsBody (record :: records) missing ↔ CutsBody records missing :=
  ⟨fun hcut => hcut.resolve_left fun hhere => absurd hhere.1 (Nat.not_lt.mpr h), Or.inr⟩

theorem Leads.undisturbed_iff (h : Leads polls rest) :
    Undisturbed records polls ↔ Undisturbed records rest := by
  obtain ⟨used, rfl, hused⟩ := h
  induction used with
  | nil => rfl
  | cons poll used ih =>
    obtain ⟨hpoll, hused⟩ := List.forall_mem_cons.mp hused
    exact (and_iff_right fun hfailing => absurd hfailing hpoll).trans (ih hused)

theorem undisturbed_cons_iff (h : (arriving polls).length ≤ (framedAll records).length) :
    Undisturbed (record :: records) polls ↔ Undisturbed records polls := by
  induction polls with
  | nil => rfl
  | cons poll polls ih =>
    have hless : (arriving polls).length ≤ (framedAll records).length := by
      rw [arriving, List.flatMap_cons, List.length_append] at h
      rw [arriving]
      omega
    simp only [Undisturbed, cutsBody_cons_iff hless, ih hless]

theorem undisturbed_nil (polls : List Poll) : Undisturbed [] polls := by
  induction polls with
  | nil => trivial
  | cons poll polls ih => exact ⟨fun _ => id, ih⟩

theorem arriving_le_stream (s : BrowserSession) (polls : List Poll) :
    (arriving polls).length ≤ (stream s polls).length := by
  rw [stream, List.length_append]
  omega

theorem framedAll_header {size tail : Bytes} (hlens : ∀ r ∈ records, r.length < 256 ^ 4)
    (hsize : size.length = 4) (h : framedAll records = size ++ tail) :
    ∃ first others, records = first :: others ∧ ofBe size = first.length ∧
      tail = first ++ framedAll others := by
  cases records with
  | nil =>
    have := congrArg List.length h
    simp only [framedAll, List.flatMap_nil, List.length_nil, List.length_append, hsize] at this
    omega
  | cons first others =>
    simp only [framedAll, framed, List.flatMap_cons, List.append_assoc] at h
    obtain ⟨hhead, htail⟩ := List.append_inj h ((beBytes_length 4 _).trans hsize.symm)
    refine ⟨first, others, rfl, ?_, htail.symm⟩
    rw [← hhead, ofBe_beBytes_of_lt (hlens first List.mem_cons_self)]

variable {A : Aead Key} {s : BrowserSession}

theorem cutsBody_of_late {t : BrowserSession} {rest : List Poll} {size : Bytes}
    (hlens : ∀ r ∈ records, r.length < 256 ^ 4) (hstream : stream s polls = framedAll records)
    (hsize : size.length = 4) (hsplit : stream s polls = size ++ stream t rest)
    (hshort : t.received.length < ofBe size) : CutsBody records (arriving rest).length := by
  obtain ⟨first, others, rfl, hlength, htail⟩ :=
    framedAll_header hlens hsize (hstream.symm.trans hsplit)
  have hlen := congrArg List.length htail
  simp only [stream, List.length_append] at hlen
  exact Or.inl ⟨by omega, by omega⟩

theorem readRecords_undisturbed (hlens : ∀ r ∈ records, r.length < 256 ^ 4)
    (hstream : stream s polls = framedAll records) (hquiet : Undisturbed records polls) :
    readRecords A s polls = readRecords A s (calm polls) := by
  induction hn : unread s polls using Nat.strong_induction_on generalizing s polls records with
  | h n ih =>
  subst hn
  have hview := recordRead A s polls
  generalize hout : s.readRecord A polls = outcome at hview
  cases hview with
  | waiting t hcalm => rw [readRecords_waiting hout, readRecords_waiting hcalm]
  | rejected t rest e hcalm => rw [readRecords_rejected hout, readRecords_rejected hcalm]
  | early t rest e poll _ hcalm hleads hsame =>
    have hquiet' : Undisturbed records rest := (hleads.undisturbed_iff.mp hquiet).2
    rw [readRecords_transport hout, readRecords_congr hcalm]
    exact ih _ (unread_lt A hout (by simp)) hlens (hsame.symm.trans hstream) hquiet' rfl
  | late t rest e poll hfailing hleads size hsize hsplit hshort =>
    exact absurd (cutsBody_of_late hlens hstream hsize hsplit hshort)
      ((hleads.undisturbed_iff.mp hquiet).1 hfailing)
  | read t rest payload hcalm hleads size record hsize hrecord hsplit =>
    obtain ⟨first, others, rfl, hlength, htail⟩ :=
      framedAll_header hlens hsize (hstream.symm.trans hsplit)
    obtain ⟨rfl, hrest⟩ := List.append_inj htail (hrecord.trans hlength)
    have hquiet' : Undisturbed others rest :=
      (undisturbed_cons_iff (hrest ▸ arriving_le_stream t rest)).mp (hleads.undisturbed_iff.mp hquiet)
    rw [readRecords_ok hout, readRecords_ok hcalm]
    exact congrArg _ (ih _ (unread_lt A hout (by simp)) (List.forall_mem_cons.mp hlens).2 hrest
      hquiet' rfl)

theorem readRecords_short (hforge : Unforgeable A s.handshakeHash s.openState records)
    (hshort : (stream s polls).length < (framedAll records).length) :
    (readRecords A s polls).length < records.length := by
  induction hn : unread s polls using Nat.strong_induction_on generalizing s polls records with
  | h n ih =>
  subst hn
  cases records with
  | nil => exact absurd hshort (Nat.not_lt_zero _)
  | cons first others =>
  have hview := recordRead A s polls
  generalize hout : s.readRecord A polls = outcome at hview
  cases hview with
  | waiting t => rw [readRecords_waiting hout]; exact Nat.succ_pos _
  | rejected t rest e => rw [readRecords_rejected hout]; exact Nat.succ_pos _
  | early t rest e poll _ _ hleads hsame _ hfollows =>
    rw [readRecords_transport hout]
    refine ih _ (unread_lt A hout (by simp)) ?_ (hsame ▸ hshort) rfl
    rwa [hfollows.hash, hfollows.cipher]
  | late t rest e poll _ hleads size hsize hsplit _ hfollows =>
    rw [readRecords_transport hout]
    refine ih _ (unread_lt A hout (by simp)) ?_ ?_ rfl
    · rwa [hfollows.hash, hfollows.cipher]
    · rw [hsplit, List.length_append] at hshort
      omega
  | read t rest payload _ hleads size record hsize hrecord hsplit hread hhash =>
    obtain ⟨honly, hothers⟩ := hforge
    obtain rfl := honly record _ _ hread
    rw [hread] at hothers
    rw [readRecords_ok hout, List.length_cons, List.length_cons]
    refine Nat.succ_lt_succ (ih _ (unread_lt A hout (by simp)) (hhash ▸ hothers) ?_ rfl)
    rw [hsplit, List.length_append, List.length_append, framedAll_length_cons] at hshort
    omega

theorem readRecords_disturbed (hlens : ∀ r ∈ records, r.length < 256 ^ 4)
    (hforge : Unforgeable A s.handshakeHash s.openState records)
    (hstream : stream s polls = framedAll records) (hloud : ¬ Undisturbed records polls) :
    (readRecords A s polls).length < records.length := by
  induction hn : unread s polls using Nat.strong_induction_on generalizing s polls records with
  | h n ih =>
  subst hn
  have hsome : 0 < records.length := by
    refine List.length_pos_of_ne_nil fun hnil => hloud ?_
    exact hnil ▸ undisturbed_nil polls
  have hview := recordRead A s polls
  generalize hout : s.readRecord A polls = outcome at hview
  cases hview with
  | waiting t => rwa [readRecords_waiting hout]
  | rejected t rest e => rwa [readRecords_rejected hout]
  | early t rest e poll _ _ hleads hsame hshort hfollows =>
    rw [readRecords_transport hout]
    refine ih _ (unread_lt A hout (by simp)) hlens ?_ (hsame.symm.trans hstream) ?_ rfl
    · rwa [hfollows.hash, hfollows.cipher]
    · -- the failing poll itself came before the length was complete
      intro hquiet
      refine hloud (hleads.undisturbed_iff.mpr ⟨fun _ hcut => ?_, hquiet⟩)
      obtain ⟨first, others, rfl⟩ := List.exists_cons_of_length_pos hsome
      have hlen := congrArg List.length (hsame.symm.trans hstream)
      rw [stream, List.length_append, framedAll_length_cons] at hlen
      rcases hcut with ⟨-, hle⟩ | hcut
      · omega
      · have := hcut.le
        omega
  | late t rest e poll _ hleads size hsize hsplit _ hfollows =>
    rw [readRecords_transport hout]
    refine readRecords_short ?_ ?_
    · rwa [hfollows.hash, hfollows.cipher]
    · rw [← hstream, hsplit, List.length_append]
      omega
  | read t rest payload _ hleads size record hsize hrecord hsplit hread hhash =>
    obtain ⟨first, others, rfl, hlength, htail⟩ :=
      framedAll_header hlens hsize (hstream.symm.trans hsplit)
    obtain ⟨rfl, hrest⟩ := List.append_inj htail (hrecord.trans hlength)
    have hothers := hforge.2
    rw [hread] at hothers
    rw [readRecords_ok hout, List.length_cons, List.length_cons]
    refine Nat.succ_lt_succ (ih _ (unread_lt A hout (by simp)) (List.forall_mem_cons.mp hlens).2
      (hhash ▸ hothers) hrest ?_ rfl)
    rwa [hleads.undisturbed_iff, undisturbed_cons_iff (hrest ▸ arriving_le_stream t rest)] at hloud

variable {payloads : List Bytes}

theorem readExact_arrives {length : ℕ} (hpolls : ∀ poll ∈ polls, ¬ Failing poll)
    (hseq : s.downstreamSeq + polls.length < 2 ^ 64) (hlength : length ≤ (stream s polls).length) :
    ∃ t rest bytes, s.readExact length polls = .returned t rest (.ok bytes) ∧ bytes.length = length ∧
      stream s polls = bytes ++ stream t rest ∧ Leads polls rest ∧ Follows s polls t rest := by
  have hview := exactRead length s polls
  generalize s.readExact length polls = outcome at hview
  cases hview with
  | waiting t _ hshort => omega
  | exhausted t rest e _ hsequence => omega
  | failed t rest e poll _ hfailing hleads =>
    exact absurd hfailing (hpolls poll (hleads.mem List.mem_cons_self))
  | read t rest bytes _ hbytes hleads hstream hfollows =>
    exact ⟨t, rest, bytes, rfl, hbytes, hstream, hleads, hfollows⟩

theorem readRecord_checked {hash : Block 32} {cipher : BrowserCipher} {record payload : Bytes}
    (h : (readRecord A hash cipher record).2 = .ok payload) :
    ¬ (record.length < 24 ∨ maxRecordBytes + 512 < record.length) := by
  intro hbad
  simp [readRecord, hbad] at h

theorem accepted_cons {record : Bytes} (h : Accepted A s (record :: records) payloads) :
    ∃ payload others, payloads = payload :: others ∧
      (readRecord A s.handshakeHash s.openState record).2 = .ok payload ∧
      Accepted A { s with openState := (readRecord A s.handshakeHash s.openState record).1 }
        records others := by
  cases payloads with
  | nil => simp [Accepted, trace] at h
  | cons payload others =>
    simp only [Accepted, trace, List.map_cons, List.cons.injEq] at h
    exact ⟨payload, others, rfl, h.1, h.2⟩

theorem Accepted.lengths (h : Accepted A s records payloads) :
    ∀ r ∈ records, r.length < 256 ^ 4 := by
  induction records generalizing s payloads with
  | nil => exact fun _ hr => absurd hr List.not_mem_nil
  | cons record records ih =>
    obtain ⟨payload, others, -, hread, hrest⟩ := accepted_cons h
    have hchecked := readRecord_checked hread
    refine List.forall_mem_cons.mpr ⟨?_, ih hrest⟩
    simp only [maxRecordBytes] at hchecked
    omega

theorem readRecord_arrives {record payload : Bytes} (hpolls : ∀ poll ∈ polls, ¬ Failing poll)
    (hseq : s.downstreamSeq + polls.length < 2 ^ 64)
    (hlens : ∀ r ∈ record :: records, r.length < 256 ^ 4)
    (hstream : stream s polls = framedAll (record :: records))
    (hread : (readRecord A s.handshakeHash s.openState record).2 = .ok payload) :
    ∃ t rest, s.readRecord A polls = .returned t rest (.ok payload) ∧
      stream t rest = framedAll records ∧
      Leads polls rest ∧ t.openState = (readRecord A s.handshakeHash s.openState record).1 ∧
      t.handshakeHash = s.handshakeHash ∧ t.downstreamSeq + rest.length ≤ s.downstreamSeq +
        polls.length := by
  have hchecked := readRecord_checked hread
  have htotal : 4 ≤ (stream s polls).length := by
    rw [hstream, framedAll_length_cons]
    omega
  obtain ⟨t, rest, size, hheader, hsize, hsplit, hleads, hfollows⟩ :=
    readExact_arrives hpolls hseq htotal
  obtain ⟨_, _, heq, hlength, htail⟩ := framedAll_header hlens hsize (hstream.symm.trans hsplit)
  obtain ⟨rfl, rfl⟩ := List.cons.inj heq
  have hbody : ofBe size ≤ (stream t rest).length := by
    rw [htail, List.length_append]
    omega
  obtain ⟨u, after, bytes, hgot, hbytes, hsplit', hleads', hfollows'⟩ :=
    readExact_arrives (fun poll hpoll => hpolls poll (hleads.mem hpoll))
      (lt_of_le_of_lt hfollows.sequence hseq) hbody
  obtain ⟨rfl, hrest⟩ := List.append_inj (hsplit'.symm.trans htail) (hbytes.trans hlength)
  have hboth := hfollows.trans hfollows'
  rw [readRecord, if_neg hchecked] at hread ⊢
  refine ⟨{ u with openState := (browserOpen A s.handshakeHash s.openState bytes).1 }, after, ?_, hrest,
    hleads.trans hleads', rfl, hboth.hash, hboth.sequence⟩
  have hopened : browserOpen A s.handshakeHash s.openState bytes =
      ((browserOpen A s.handshakeHash s.openState bytes).1, .ok payload) := Prod.ext rfl hread
  rw [← hlength] at hchecked
  simp only [BrowserSession.readRecord, hheader, Reading.andThen, hchecked, hgot,
    BrowserSession.openNext, hboth.hash, hboth.cipher, ↓reduceIte]
  rw [hopened]

theorem readRecords_arrive (hpolls : ∀ poll ∈ polls, ¬ Failing poll)
    (hseq : s.downstreamSeq + polls.length < 2 ^ 64) (hstream : stream s polls = framedAll records)
    (haccepted : Accepted A s records payloads) :
    (readRecords A s polls).length = records.length := by
  induction records generalizing s polls payloads with
  | nil =>
    have hview := recordRead A s polls
    generalize hout : s.readRecord A polls = outcome at hview
    cases hview with
    | waiting t => rw [readRecords_waiting hout]
    | rejected t rest e => rw [readRecords_rejected hout]
    | early t rest e poll hfailing _ hleads =>
      exact absurd hfailing (hpolls poll (hleads.mem List.mem_cons_self))
    | late t rest e poll hfailing hleads =>
      exact absurd hfailing (hpolls poll (hleads.mem List.mem_cons_self))
    | read t rest payload _ _ size record hsize _ hsplit =>
      have hlen := congrArg List.length (hstream.symm.trans hsplit)
      simp only [framedAll, List.flatMap_nil, List.length_nil, List.length_append] at hlen
      omega
  | cons record records ih =>
    obtain ⟨payload, others, -, hread, hrest⟩ := accepted_cons haccepted
    obtain ⟨t, rest, hout, hstream', hleads, hopen, hhash, hseq'⟩ :=
      readRecord_arrives hpolls hseq haccepted.lengths hstream hread
    have haccepted' : Accepted A t records others := by
      rw [Accepted, hhash, hopen]
      exact hrest
    rw [readRecords_ok hout, List.length_cons, List.length_cons,
      ih (fun poll hpoll => hpolls poll (hleads.mem hpoll)) (lt_of_le_of_lt hseq' hseq) hstream'
        haccepted']

end Streams

/-- Calling again after a transport error gives the same records as polls without failures, unless
a poll fails inside the body of a record. Such a failure costs a record, as long as the sequence
numbers last and the cipher cannot be forged. -/
theorem failed_polls_harmless_iff {A : Aead Key} (s : BrowserSession)
    (records payloads : List Bytes) (haccepted : Accepted A s records payloads) (polls : List Poll)
    (hstream : s.received ++ arriving polls = framedAll records) :
    (Undisturbed records polls → readRecords A s polls = readRecords A s (calm polls)) ∧
      (Unforgeable A s.handshakeHash s.openState records → s.downstreamSeq + polls.length < 2 ^ 64 →
        (readRecords A s polls = readRecords A s (calm polls) ↔ Undisturbed records polls)) := by
  have hquiet := readRecords_undisturbed (A := A) haccepted.lengths hstream
  refine ⟨hquiet, fun hforge hseq => ⟨fun heq => ?_, hquiet⟩⟩
  by_contra hloud
  have hless := readRecords_disturbed haccepted.lengths hforge hstream hloud
  have hcalm : stream s (calm polls) = framedAll records := by
    rw [stream, arriving_calm]
    exact hstream
  have hall := readRecords_arrive (fun _ => not_failing_of_mem_calm)
    (lt_of_le_of_lt (Nat.add_le_add_left (calm_length_le polls) _) hseq) hcalm haccepted
  rw [heq, hall] at hless
  exact lt_irrefl _ hless

variable {A : Aead Key} {hash : Block 32} {cipher : BrowserCipher}

theorem readRecord_decrypts {other payload : Bytes} {next : BrowserCipher}
    (h : readRecord A hash cipher other = (next, .ok payload)) : ∃ aad plain,
    other.take 8 = beBytes 8 cipher.nonce ∧
      A.decrypt cipher.key (aeadNonce cipher.nonce) aad (other.drop 8) = some plain := by
  have hchecked := readRecord_checked (congrArg Prod.snd h)
  rw [readRecord, if_neg hchecked, browserOpen, if_neg (fun hshort => hchecked (Or.inl hshort))] at h
  by_cases hseq : ofBe (other.take 8) = cipher.nonce
  swap
  · simp [hseq] at h
  have hwidth : (other.take 8).length = 8 := by
    rw [List.length_take]
    omega
  cases haad : browserAad hash other.length cipher.nonce with
  | error e => simp [hseq, haad] at h
  | ok aad =>
    cases hplain : A.decrypt cipher.key (aeadNonce cipher.nonce) aad (other.drop 8) with
    | none => simp [hseq, haad, browserDecrypt, hplain] at h
    | some plain =>
      have hbytes := beBytes_ofBe (other.take 8)
      rw [hwidth, hseq] at hbytes
      exact ⟨aad, plain, hbytes.symm, hplain⟩

theorem accepts_only {log : List (Entry Key)} (hideal : Ideal log A.decrypt) {record : Bytes}
    (hseq : record.take 8 = beBytes 8 cipher.nonce)
    (hone : ∀ e ∈ log, e.nonce = aeadNonce cipher.nonce → e.ciphertext = record.drop 8)
    (other : Bytes) (next : BrowserCipher) (payload : Bytes)
    (h : readRecord A hash cipher other = (next, .ok payload)) : other = record := by
  obtain ⟨aad, plain, htake, hplain⟩ := readRecord_decrypts h
  have hdrop : other.drop 8 = record.drop 8 := hone _ (hideal _ _ _ _ _ hplain) rfl
  rw [← List.take_append_drop 8 other, htake, hdrop, ← hseq, List.take_append_drop]

def sampleEntry : Entry Key :=
  ⟨List.Vector.replicate 32 5, aeadNonce 0,
    recordLabel ++ List.replicate 32 9 ++ beBytes 4 280 ++ beBytes 8 0, browserPlain [7],
    List.replicate 272 1⟩

def sampleCipher : Aead Key := ⟨fun _ _ _ _ => none, lookup [sampleEntry]⟩

def sampleSession : BrowserSession :=
  ⟨2, 1, [], BrowserCipher.new sampleEntry.key, BrowserCipher.new sampleEntry.key,
    List.Vector.replicate 32 9⟩

def sampleRecord : Bytes := beBytes 8 0 ++ List.replicate 272 1

def interrupted (n : ℕ) : List Poll :=
  [.answers ((framed sampleRecord).take n) (.ok ()), .fails ⟨"M5oH HTTP 502"⟩,
    .answers ((framed sampleRecord).drop n) (.ok ())]

theorem sample_accepted : Accepted sampleCipher sampleSession [sampleRecord] [[7]] := by
  simp only [Accepted]
  decide +kernel

theorem sample_unforgeable :
    Unforgeable sampleCipher sampleSession.handshakeHash sampleSession.openState [sampleRecord] := by
  refine ⟨accepts_only (lookup_ideal [sampleEntry]) rfl ?_, trivial⟩
  intro e he _
  rw [List.mem_singleton.mp he]
  rfl

theorem failed_polls_harmless_iff_sample :
    readRecords sampleCipher sampleSession (interrupted 3) =
        readRecords sampleCipher sampleSession (calm (interrupted 3)) ∧
      (readRecords sampleCipher sampleSession (interrupted 10) =
        readRecords sampleCipher sampleSession (calm (interrupted 10)) ↔
          Undisturbed [sampleRecord] (interrupted 10)) := by
  have hquiet : Undisturbed [sampleRecord] (interrupted 3) := by decide +kernel
  have hearly : sampleSession.received ++ arriving (interrupted 3) = framedAll [sampleRecord] := by
    decide +kernel
  have hlate : sampleSession.received ++ arriving (interrupted 10) = framedAll [sampleRecord] := by
    decide +kernel
  exact ⟨(failed_polls_harmless_iff _ _ _ sample_accepted _ hearly).1 hquiet,
    (failed_polls_harmless_iff _ _ _ sample_accepted _ hlate).2 sample_unforgeable (by decide)⟩

/-- A poll fails when the length and six more bytes have arrived. -/
theorem failed_poll_loses_record :
    Accepted sampleCipher sampleSession [sampleRecord] [[7]] ∧
      sampleSession.received ++ arriving (interrupted 10) = framedAll [sampleRecord] ∧
      readRecords sampleCipher sampleSession (interrupted 10) = [] ∧
      readRecords sampleCipher sampleSession (calm (interrupted 10)) = [[7]] := by
  refine ⟨sample_accepted, ?_, ?_, ?_⟩ <;> decide +kernel

end Mst5Client.BrowserReads
