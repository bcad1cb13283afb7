import Mst5Client.TunnelUpload

set_option autoImplicit false

/-!
# The tunnel delivers the stream once and in order

Every pass through the loop sends one numbered request, once or twice, and leaves it applied at the
router.
-/
namespace Mst5Client.TunnelDelivery
open ByteOrder IoResult TunnelUpload
open HttpResponses (HttpResponse)

/-- The local socket and the connects do not fail, and a request fails at most once. -/
structure Smooth (lossy : Bytes → String) (t : Turn) : Prop where
  first : ∃ offer, t.first = .ok offer
  more : ∀ e, some (.error e) ∉ t.more
  reconnect : t.reconnect = .ok ()
  reopen : t.reopen = .ok ()
  retries : ∀ e, t.attempt.result lossy = .error e → ∃ response, t.retry.result lossy = .ok response

def numbered : ℕ → List (Bytes × Bool) → List Request
  | _, [] => []
  | k, (payload, eof) :: rest => ⟨k, payload, eof⟩ :: numbered (k + 1) rest

variable {lossy : Bytes → String}

theorem coalesce_ok {more : List (Option (Except IoError ℕ))} (hmore : ∀ e, some (.error e) ∉ more)
    (f : Filling) : ∃ g, coalesce more f = .ok g := by
  induction more generalizing f with
  | nil => exact ⟨f, rfl⟩
  | cons choice more ih =>
    have hrest : ∀ e, some (.error e) ∉ more := fun e he => hmore e (List.mem_cons_of_mem _ he)
    rw [coalesce.eq_def]
    dsimp only
    split_ifs with hopen
    swap
    · exact ⟨f, rfl⟩
    rcases choice with _ | (e | offer)
    · exact ⟨f, rfl⟩
    · exact absurd List.mem_cons_self (hmore e)
    · dsimp only
      split_ifs
      · exact ⟨_, rfl⟩
      · exact ih hrest _

theorem fill_ok {t : Turn} (ht : Smooth lossy t) (s : Upload) : ∃ f, s.fill t = .ok f := by
  obtain ⟨offer, hoffer⟩ := ht.first
  rw [Upload.fill, hoffer]
  exact coalesce_ok ht.more _

theorem processed_of_ok {attempt : Attempt} {response : HttpResponse}
    (h : attempt.result lossy = .ok response) : attempt.processed = true := by
  cases attempt with
  | broken e processed => cases h
  | answered answer processed =>
    by_cases hstatus : answer.status = 200
    · simp [Attempt.processed, hstatus]
    · simp [Attempt.result, HttpResponse.accepted, hstatus] at h

theorem applyOnce_new {applied : List Request} {request : Request}
    (h : request.sequence ∉ applied.map Request.sequence) :
    applyOnce applied request = applied ++ [request] :=
  if_neg h

theorem applyOnce_again (applied : List Request) (request : Request) :
    applyOnce (applied ++ [request]) request = applied ++ [request] :=
  if_pos (by simp)

theorem send_spec {t : Turn} (ht : Smooth lossy t) {s : Upload} (request : Request)
    (hnew : request.sequence ∉ s.applied.map Request.sequence) : ∃ copies response,
    s.send lossy t request = ({ s with
        sent := s.sent ++ List.replicate (copies + 1) request
        applied := s.applied ++ [request] }, .ok response) := by
  simp only [Upload.send, Upload.requestOn, ht.reconnect]
  cases hfirst : t.attempt.result lossy with
  | ok response =>
    refine ⟨0, response, ?_⟩
    simp only [processed_of_ok hfirst, applyOnce_new hnew, if_true, List.replicate_one, Nat.zero_add]
  | error e =>
    obtain ⟨response, hretry⟩ := ht.retries e hfirst
    refine ⟨1, response, ?_⟩
    simp only [hretry, processed_of_ok hretry, if_true, List.append_assoc]
    cases t.attempt.processed with
    | false => simp only [Bool.false_eq_true, if_false, applyOnce_new hnew]; rfl
    | true => simp only [if_true, applyOnce_new hnew, applyOnce_again]; rfl

/-- What a pass through the loop does: it reads a piece of the stream and sends it. -/
structure Passes (s u : Upload) (payload : Bytes) (eof : Bool) : Prop where
  sent : ∃ copies, u.sent = s.sent ++ List.replicate (copies + 1) ⟨s.sequence, payload, eof⟩
  applied : u.applied = s.applied ++ [⟨s.sequence, payload, eof⟩]
  buffer : u.buffer.length = s.buffer.length
  fits : payload.length ≤ s.buffer.length
  split : payload ++ u.unread = s.unread
  ended : 0 < s.buffer.length → eof = true → u.unread = []
  advances : eof = false → 0 < payload.length

theorem turn_spec {t : Turn} (ht : Smooth lossy t) {s : Upload}
    (hnew : s.sequence ∉ s.applied.map Request.sequence) : ∃ u payload eof, Passes s u payload eof ∧
    ((s.sequence + 1 < 2 ^ 64 ∧ u.sequence = s.sequence + 1 ∧
        s.turn lossy t = (u, if eof then some (.ok ()) else none)) ∨
      (2 ^ 64 ≤ s.sequence + 1 ∧ s.turn lossy t = (u, some (.error sequenceExhausted)))) := by
  obtain ⟨f, hf⟩ := fill_ok ht s
  have hfills := fill_fills hf
  obtain ⟨copies, response, hsend⟩ :=
    send_spec ht (s := { s with unread := f.unread, buffer := f.buffer })
      ⟨s.sequence, f.buffer.take f.count, f.eof⟩ hnew
  have hreopen : (if response.closes then t.reopen else .ok ()) = .ok () := by
    rw [ht.reopen, ite_self]
  have hpayload : (f.buffer.take f.count).length ≤ s.buffer.length := by
    rw [List.length_take, hfills.size_eq]
    omega
  have hadvances : f.eof = false → 0 < (f.buffer.take f.count).length := by
    intro heof
    have hpos := hfills.advances heof
    have hcount := hfills.count
    rw [List.length_take]
    omega
  have hpasses : ∀ sequence, Passes s ⟨sequence, f.buffer, f.unread,
      s.sent ++ List.replicate (copies + 1) ⟨s.sequence, f.buffer.take f.count, f.eof⟩,
      s.applied ++ [⟨s.sequence, f.buffer.take f.count, f.eof⟩]⟩ (f.buffer.take f.count)
        f.eof := fun _ =>
    ⟨⟨copies, rfl⟩, rfl, hfills.size_eq, hpayload, hfills.split, hfills.ended, hadvances⟩
  simp only [Upload.turn, hf, hsend, hreopen]
  by_cases hroom : s.sequence + 1 < 2 ^ 64
  · rw [checkedAdd_of_lt hroom]
    exact ⟨_, _, _, hpasses _, Or.inl ⟨hroom, rfl, rfl⟩⟩
  · rw [checkedAdd_of_le (Nat.not_lt.mp hroom)]
    exact ⟨_, _, _, hpasses _, Or.inr ⟨Nat.not_lt.mp hroom, rfl⟩⟩

variable {k : ℕ} {requests : List (Bytes × Bool)}

theorem numbered_sequence_ge {r : Request} (h : r ∈ numbered k requests) : k ≤ r.sequence := by
  induction requests generalizing k with
  | nil => cases h
  | cons request requests ih =>
    rcases List.mem_cons.mp h with rfl | h
    · exact le_rfl
    · exact (Nat.le_succ k).trans (ih h)

theorem dedup_numbered (payload : Bytes) (eof : Bool) (copies : ℕ) {attempts : List Request}
    (h : attempts.dedup = numbered (k + 1) requests) :
    (List.replicate (copies + 1) (⟨k, payload, eof⟩ : Request) ++ attempts).dedup =
      numbered k ((payload, eof) :: requests) := by
  have hfresh : (⟨k, payload, eof⟩ : Request) ∉ attempts := by
    intro hmem
    have hge := numbered_sequence_ge (h ▸ List.mem_dedup.mpr hmem)
    exact absurd hge (Nat.not_succ_le_self k)
  induction copies with
  | zero => rw [List.replicate_one, List.singleton_append, List.dedup_cons_of_notMem hfresh, h,
    numbered]
  | succ copies ih =>
    rw [List.replicate_succ, List.cons_append, List.dedup_cons_of_mem (by simp), ih]

variable {s u : Upload} {result : Except IoError Unit} {turns : ℕ → Turn}

/-- What the requests of a whole run amount to, from the state `s` on. -/
structure Delivers (s : Upload) (run : Upload × Except IoError Unit)
    (requests : List (Bytes × Bool)) : Prop where
  sent : ∃ attempts, run.1.sent = s.sent ++ attempts ∧ attempts.dedup = numbered s.sequence requests
  applied : run.1.applied = s.applied ++ numbered s.sequence requests
  fits : ∀ r ∈ requests, r.1.length ≤ s.buffer.length
  complete : (run.2 = .ok () ∧ (requests.map Prod.fst).flatten = s.unread ∧
      ∃ front last, requests = front ++ [(last, true)] ∧ ∀ r ∈ front, r.2 = false) ∨
    (run.2 = .error sequenceExhausted ∧ s.sequence + requests.length = 2 ^ 64 ∧
      requests.length ≤ s.unread.length + 1 ∧ (requests.map Prod.fst).flatten <+: s.unread ∧
        ∀ r ∈ requests.dropLast, r.2 = false)

theorem Delivers.after {run : Upload × Except IoError Unit} {requests : List (Bytes × Bool)}
    {payload : Bytes} (hpass : Passes s u payload false) (hseq : u.sequence = s.sequence + 1)
    (h : Delivers u run requests) : Delivers s run ((payload, false) :: requests) := by
  obtain ⟨copies, hsent⟩ := hpass.sent
  obtain ⟨attempts, hattempts, hdedup⟩ := h.sent
  refine ⟨⟨List.replicate (copies + 1) ⟨s.sequence, payload, false⟩ ++ attempts, ?_, ?_⟩, ?_, ?_, ?_⟩
  · rw [hattempts, hsent, List.append_assoc]
  · exact dedup_numbered payload false copies (hseq ▸ hdedup)
  · rw [h.applied, hpass.applied, hseq, List.append_assoc]
    rfl
  · exact List.forall_mem_cons.mpr ⟨hpass.fits, hpass.buffer ▸ h.fits⟩
  · rw [List.map_cons, List.flatten_cons, ← hpass.split]
    rcases h.complete with ⟨hok, hall, front, last, hflags, hfront⟩ | ⟨herror, hcount, hlong, hsome,
      hflags⟩
    · refine Or.inl ⟨hok, by rw [hall], (payload, false) :: front, last, by rw [hflags]; rfl, ?_⟩
      exact List.forall_mem_cons.mpr ⟨rfl, hfront⟩
    · have hpos := hpass.advances rfl
      refine Or.inr ⟨herror, ?_, ?_, (List.prefix_append_right_inj payload).mpr hsome, ?_⟩
      · rw [List.length_cons]
        omega
      · rw [List.length_cons, List.length_append]
        omega
      · cases requests with
        | nil => exact fun _ hr => absurd hr List.not_mem_nil
        | cons request requests => exact List.forall_mem_cons.mpr ⟨rfl, hflags⟩

theorem Passes.delivers {payload : Bytes} {eof : Bool} (hpass : Passes s u payload eof)
    (hcomplete : (result = .ok () ∧ payload = s.unread ∧ eof = true) ∨
      (result = .error sequenceExhausted ∧ s.sequence + 1 = 2 ^ 64)) :
    Delivers s (u, result) [(payload, eof)] := by
  obtain ⟨copies, hsent⟩ := hpass.sent
  refine ⟨⟨_, hsent, ?_⟩, hpass.applied, by simpa using hpass.fits, ?_⟩
  · have hnil : ([] : List Request).dedup = numbered (s.sequence + 1) [] := rfl
    have hdedup := dedup_numbered payload eof copies hnil
    rwa [List.append_nil] at hdedup
  · rw [List.map_singleton, List.flatten_singleton]
    rcases hcomplete with ⟨hok, hall, rfl⟩ | ⟨herror, hcount⟩
    · exact Or.inl ⟨hok, hall, [], payload, rfl, fun _ hr => absurd hr List.not_mem_nil⟩
    · exact Or.inr ⟨herror, hcount, Nat.le_add_left 1 _, ⟨u.unread, hpass.split⟩,
        fun _ hr => absurd hr List.not_mem_nil⟩

theorem uploadLoop_last {n : ℕ} (h : s.turn lossy (turns n) = (u, some result)) :
    uploadLoop lossy turns n s = (u, result) := by
  rw [uploadLoop]
  split <;> simp_all

theorem uploadLoop_next {n : ℕ} (h : s.turn lossy (turns n) = (u, none)) :
    uploadLoop lossy turns n s = uploadLoop lossy turns (n + 1) u := by
  rw [uploadLoop]
  split <;> simp_all

theorem uploadLoop_delivers (hturns : ∀ n, Smooth lossy (turns n)) (n : ℕ)
    (hseq : s.sequence < 2 ^ 64) (hseen : ∀ r ∈ s.applied, r.sequence < s.sequence)
    (hbuffer : 0 < s.buffer.length) :
    ∃ requests, Delivers s (uploadLoop lossy turns n s) requests := by
  induction hlen : s.unread.length using Nat.strong_induction_on generalizing s n with
  | h len ih =>
  subst hlen
  have hnew : s.sequence ∉ s.applied.map Request.sequence := by
    intro hmem
    obtain ⟨r, hr, heq⟩ := List.mem_map.mp hmem
    exact absurd heq (hseen r hr).ne
  obtain ⟨u, payload, eof, hpass, ⟨hroom, hnext, hturn⟩ | ⟨hfull, hturn⟩⟩ := turn_spec (hturns n) hnew
  · cases eof with
    | true =>
      rw [uploadLoop_last hturn]
      have hall : payload = s.unread := by
        rw [← hpass.split, hpass.ended hbuffer rfl, List.append_nil]
      exact ⟨_, hpass.delivers (Or.inl ⟨rfl, hall, rfl⟩)⟩
    | false =>
      have hseen' : ∀ r ∈ u.applied, r.sequence < u.sequence := by
        rw [hpass.applied, hnext]
        intro r hr
        rcases List.mem_append.mp hr with hr | hr
        · exact (hseen r hr).trans (Nat.lt_succ_self _)
        · exact List.mem_singleton.mp hr ▸ Nat.lt_succ_self _
      obtain ⟨requests, hrest⟩ := ih _ (turn_unread_lt hturn) (n + 1) (hnext ▸ hroom) hseen'
        (hpass.buffer ▸ hbuffer) rfl
      rw [uploadLoop_next hturn]
      exact ⟨_, hrest.after hpass hnext⟩
  · rw [uploadLoop_last hturn]
    exact ⟨_, hpass.delivers (Or.inr ⟨rfl, by omega⟩)⟩

/-- The requests without their repetitions are numbered from 1 and the router applies each of them
once. They are the stream, with the end flag on the last one, unless the numbers run out, which
takes a stream of at least `2 ^ 64 - 2` bytes. -/
def ExactlyOnce (run : Upload × Except IoError Unit) (stream : Bytes) : Prop :=
  ∃ requests : List (Bytes × Bool),
    run.1.sent.dedup = numbered 1 requests ∧ run.1.applied = numbered 1 requests ∧
    (∀ r ∈ requests, r.1.length ≤ uploadChunk) ∧
    ((run.2 = .ok () ∧ (requests.map Prod.fst).flatten = stream ∧
        ∃ front last, requests = front ++ [(last, true)] ∧ ∀ r ∈ front, r.2 = false) ∨
      (run.2 = .error sequenceExhausted ∧ requests.length = 2 ^ 64 - 1 ∧ 2 ^ 64 - 2 ≤ stream.length ∧
        (requests.map Prod.fst).flatten <+: stream ∧ ∀ r ∈ requests.dropLast, r.2 = false))

/-- However the stream is cut into reads, and whichever requests fail once. -/
theorem upload_exactly_once (lossy : Bytes → String) (turns : ℕ → Turn)
    (hturns : ∀ n, Smooth lossy (turns n)) (stream : Bytes) :
    ExactlyOnce (upload lossy (.ok ()) turns stream) stream := by
  have hbuffer : (Upload.start stream).buffer.length = uploadChunk := List.length_replicate
  obtain ⟨requests, ⟨attempts, hsent, hdedup⟩, happlied, hfits, hcomplete⟩ :=
    uploadLoop_delivers hturns 0 (s := Upload.start stream) (Nat.one_lt_two_pow (by decide))
      (fun _ hr => absurd hr List.not_mem_nil) (hbuffer ▸ (by decide))
  refine ⟨requests, ?_, happlied, hbuffer ▸ hfits, hcomplete.imp id ?_⟩
  · rw [upload, hsent]
    exact hdedup
  · rintro ⟨herror, hcount, hlong, hrest⟩
    have hone : (Upload.start stream).sequence = 1 := rfl
    have hall : (Upload.start stream).unread = stream := rfl
    rw [hall] at hlong
    exact ⟨herror, by omega, by omega, hrest⟩

def sampleTurn : Turn :=
  ⟨.ok 2, [some (.ok 1), none], .broken ⟨.timedOut, "response lost"⟩ true, .ok (),
    .answered ⟨200, [("connection", "Close")], []⟩ true, .ok ()⟩

theorem sampleTurn_smooth : Smooth (fun _ => "") sampleTurn where
  first := ⟨2, rfl⟩
  more := by simp [sampleTurn]
  reconnect := rfl
  reopen := rfl
  retries _ _ := ⟨_, rfl⟩

theorem upload_exactly_once_sample :
    ExactlyOnce (upload (fun _ => "") (.ok ()) (fun _ => sampleTurn) [1, 2, 3, 4, 5]) [1, 2, 3, 4, 5] :=
  upload_exactly_once _ _ (fun _ => sampleTurn_smooth) _

end Mst5Client.TunnelDelivery
