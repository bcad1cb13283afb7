import Mst5Client.BrowserRequests
import Mst5Client.BrowserWrites

set_option autoImplicit false

/-!
# Overlapping calls of the browser client

A call runs alone from one await to the next; at an await any other call may go on.
-/
namespace Mst5Client.BrowserOverlap
open ByteOrder AuthenticatedCipher RecordLayer BrowserRecords BrowserTunnel FrameDecoding
  BrowserRequests MachineRuns

section Machine

/-- The session behind a guard, with the number of the call that has connected it. -/
structure Guard where
  number : ℕ
  link : Link

/-- Where a call stands. The polls are those that the current read has made. -/
inductive Phase (J : Type) where
  | start (call : Call)
  | connecting
  | writing (call : Call) (guard : Guard) (request : WriteCall)
  | reading (call : Call) (guard : Guard) (request : WriteCall) (polls : List Poll)
  | returned (call : Call) (outcome : Outcome J)

/-- `sent` and `answered` record the requests that were handed to `fetch` and the frames they were
answered with, each with the number of the call and that of the session. -/
structure Web (J : Type) where
  inner : Option Guard
  holder : Option ℕ
  calls : List (Phase J)
  panicked : Option ℕ
  sent : List (ℕ × ℕ × WriteCall)
  answered : List (ℕ × ℕ × BrowserFrame)

def Web.new (J : Type) : Web J := ⟨none, none, [], none, [], []⟩

/-- The host makes a call, a call is polled for the first time, and what a call waits for arrives.
-/
inductive Event where
  | call (call : Call)
  | start (i : ℕ) (random : Option (Block 16))
  | connected (i : ℕ) (result : Except JsError Link)
  | fetched (i : ℕ) (answer : Except JsError Bytes)
  | polled (i : ℕ) (poll : Poll)

variable {J : Type} (A : Aead Key) (D : Decompressors) (serde : Serde J)

namespace Web

def goOn (w : Web J) (i : ℕ) (phase : Phase J) : Web J := { w with calls := w.calls.set i phase }

def borrowMut (w : Web J) (i : ℕ) (f : Web J → Web J) : Web J :=
  if w.holder.isSome then { w with panicked := some i } else f w

def release (w : Web J) (i : ℕ) (call : Call) (guard : Guard) (outcome : Outcome J) : Web J :=
  { w with inner := some guard, holder := none }.goOn i (.returned call outcome)

def ask (w : Web J) (i : ℕ) (random : Option (Block 16)) (call : Call) (query : Query) : Web J :=
  match w.inner with
  | none => w.goOn i (.returned call (.failed ⟨"MST5 is not connected"⟩))
  | some guard =>
    match guard.link.takeRequestId with
    | .error e => w.release i call guard (.failed e)
    | .ok (id, link) =>
      match serde.toCbor query.body with
      | none => w.release i call { guard with link := link } (.failed ⟨"cannot encode MST5 command"⟩)
      | some payload =>
        let request : WriteCall := ⟨query.kind, query.code, id, payload, random, .ok []⟩
        match link.session.writeFrame A request with
        -- the frame does not get to `fetch`
        | (session, ⟨none, .error e⟩) =>
          w.release i call { guard with link := { link with session := session } } (.failed e)
        | _ =>
          { w with holder := some i, sent := w.sent ++ [(i, guard.number, request)] }.goOn i
            (.writing call { guard with link := link } request)

def start (w : Web J) (i : ℕ) (random : Option (Block 16)) (call : Call) : Web J :=
  match call.query serde with
  | some (.error e) => w.goOn i (.returned call (.failed e))
  | some (.ok query) => w.borrowMut i fun w => w.ask A serde i random call query
  | none =>
    match call with
    | .close => w.borrowMut i fun w => { w with inner := none }.goOn i (.returned call .done)
    | _ => w.goOn i .connecting

def connected (w : Web J) (i : ℕ) (result : Except JsError Link) : Web J :=
  match result with
  | .error e => w.goOn i (.returned .connect (.failed e))
  | .ok link => w.borrowMut i fun w =>
    { w with inner := some ⟨i, link⟩ }.goOn i (.returned .connect .done)

def read (w : Web J) (i : ℕ) (call : Call) (guard : Guard) (request : WriteCall)
    (polls : List Poll) : Web J :=
  match readMatchingFrame A D request.id guard.link.session polls with
  | .waiting _ => w.goOn i (.reading call guard request polls)
  | .returned session _ (.error e) =>
    w.release i call { guard with link := { guard.link with session := session } } (.failed (jsError e))
  | .returned session _ (.ok frame) =>
    { w with answered := w.answered ++ [(i, guard.number, frame)] }.release i call
      { guard with link := { guard.link with session := session } }
        (call.conclude serde request.kind frame)

def fetched (w : Web J) (i : ℕ) (call : Call) (guard : Guard) (request : WriteCall)
    (answer : Except JsError Bytes) : Web J :=
  match guard.link.session.writeFrame A { request with answer := answer } with
  | (session, written) =>
    let guard := { guard with link := { guard.link with session := session } }
    match written.result with
    | .error e => w.release i call guard (.failed e)
    | .ok () => w.read A D serde i call guard request []

def step (w : Web J) (event : Event) : Option (Web J) :=
  if w.panicked.isSome then none
  else
    match event with
    | .call call => some { w with calls := w.calls ++ [.start call] }
    | .start i random =>
      match w.calls[i]? with
      | some (.start call) => some (w.start A serde i random call)
      | _ => none
    | .connected i result =>
      match w.calls[i]? with
      | some .connecting => some (w.connected i result)
      | _ => none
    | .fetched i answer =>
      match w.calls[i]? with
      | some (.writing call guard request) => some (w.fetched A D serde i call guard request answer)
      | _ => none
    | .polled i poll =>
      match w.calls[i]? with
      | some (.reading call guard request polls) =>
        some (w.read A D serde i call guard request (polls ++ [poll]))
      | _ => none

end Web

def borrowsFirst (call : Call) : Bool :=
  match call.query serde with
  | some (.ok _) => true
  | some (.error _) => false
  | none =>
    match call with
    | .close => true
    | _ => false

def borrows (w : Web J) : Event → Bool
  | .start i _ =>
    match w.calls[i]? with
    | some (.start call) => borrowsFirst serde call
    | _ => false
  | .connected _ (.ok _) => true
  | _ => false

def Phase.inFlight : Phase J → Bool
  | .writing _ _ _ => true
  | .reading _ _ _ _ => true
  | _ => false

/-- No request is in flight, waiting for `fetch` or for its response, when `inner` is borrowed. -/
def Free (w : Web J) (event : Event) : Prop :=
  borrows serde w event = true → ∀ phase ∈ w.calls, phase.inFlight = false

instance (w : Web J) (event : Event) : Decidable (Free serde w event) :=
  inferInstanceAs (Decidable (borrows serde w event = true → ∀ phase ∈ w.calls, phase.inFlight = false))

/-- What a request returns is made of a frame with the id of its own request, and no other call has
sent a request with this id on this session. -/
def OwnResponse (w : Web J) (i : ℕ) (call : Call) (outcome : Outcome J) : Prop :=
  ∃ number request frame, (i, number, request) ∈ w.sent ∧ (i, number, frame) ∈ w.answered ∧
    frame.id = request.id ∧ outcome = call.conclude serde request.kind frame ∧
    ∀ j other, (j, number, other) ∈ w.sent → other.id = request.id → j = i

/-- A call that returned a value got the answer to the request it sent. -/
def Responds (w : Web J) : Prop :=
  ∀ i call outcome, w.calls[i]? = some (.returned call outcome) → (call.query serde).isSome →
    (∀ e, outcome ≠ .failed e) → OwnResponse serde w i call outcome

end Machine

section Steps
variable {J : Type}
variable {random : Option (Block 16)} {call : Call}

/-- The call holds the guard. -/
def Held (w : Web J) (i : ℕ) (call : Call) (guard : Guard) (request : WriteCall) : Prop :=
  w.calls[i]? = some (.writing call guard request) ∨ ∃ polls,
    w.calls[i]? = some (.reading call guard request polls)

def Outside (w : Web J) (i : ℕ) : Prop :=
  (∃ call, w.calls[i]? = some (.start call)) ∨ w.calls[i]? = some .connecting

def Silent : Phase J → Prop
  | .connecting => True
  | .returned _ (.failed _) => True
  | _ => False

def Later (guard guard' : Guard) : Prop :=
  guard'.number = guard.number ∧ guard.link.nextRequest ≤ guard'.link.nextRequest

inductive Step (serde : Serde J) (w : Web J) : Web J → Prop
  | call (call : Call) : Step serde w { w with calls := w.calls ++ [.start call] }
  | panic (i : ℕ) : Step serde w { w with panicked := some i }
  | outside {i : ℕ} {after : Phase J} (hbefore : Outside w i) (hafter : Silent after) :
      Step serde w (w.goOn i after)
  | close {i : ℕ} (hbefore : Outside w i) (hfree : w.holder = none) :
    Step serde w ({ w with inner := none }.goOn i (.returned .close .done))
  | connect {i : ℕ} {link : Link} (hbefore : Outside w i) (hfree : w.holder = none) :
    Step serde w ({ w with inner := some ⟨i, link⟩ }.goOn i (.returned .connect .done))
  | ask {i : ℕ} {call : Call} {guard : Guard} {link : Link} {request : WriteCall}
      (hbefore : Outside w i) (hfree : w.holder = none) (hinner : w.inner = some guard)
      (hid : guard.link.takeRequestId = .ok (request.id, link)) :
    Step serde w ({ w with holder := some i, sent := w.sent ++ [(i, guard.number, request)] }.goOn i
      (.writing call { guard with link := link } request))
  | refuse {i : ℕ} {call : Call} {guard guard' : Guard} {e : JsError} (hbefore : Outside w i)
      (hfree : w.holder = none) (hinner : w.inner = some guard) (hlater : Later guard guard') :
    Step serde w (w.release i call guard' (.failed e))
  | wait {i : ℕ} {call : Call} {guard guard' : Guard} {request : WriteCall} {polls : List Poll}
      (hheld : Held w i call guard request) (hlater : Later guard guard') :
    Step serde w (w.goOn i (.reading call guard' request polls))
  | fail {i : ℕ} {call : Call} {guard guard' : Guard} {request : WriteCall} {e : JsError}
      (hheld : Held w i call guard request) (hlater : Later guard guard') :
    Step serde w (w.release i call guard' (.failed e))
  | answer {i : ℕ} {call : Call} {guard guard' : Guard} {request : WriteCall} {frame : BrowserFrame}
      (hheld : Held w i call guard request) (hlater : Later guard guard')
      (hid : frame.id = request.id) :
    Step serde w ({ w with answered := w.answered ++ [(i, guard'.number, frame)] }.release i call guard'
      (call.conclude serde request.kind frame))

variable {A : Aead Key} {D : Decompressors} {serde : Serde J} {w t : Web J} {i : ℕ}

theorem borrowMut_step (f : Web J → Web J) (h : w.holder = none → Step serde w (f w)) :
    Step serde w (w.borrowMut i f) := by
  unfold Web.borrowMut
  split_ifs with hheld
  · exact .panic i
  · exact h (Option.not_isSome_iff_eq_none.mp hheld)

theorem takeRequestId_next {link link' : Link} {id : ℕ} (h : link.takeRequestId = .ok (id, link')) :
    id = link.nextRequest ∧ link'.nextRequest = link.nextRequest + 1 := by
  unfold Link.takeRequestId at h
  split_ifs at h
  cases h
  exact ⟨rfl, rfl⟩

theorem ask_step {query : Query} (hbefore : Outside w i) (hfree : w.holder = none) :
    Step serde w (w.ask A serde i random call query) := by
  unfold Web.ask
  split
  · exact .outside hbefore trivial
  · rename_i guard hinner
    split
    · exact .refuse hbefore hfree hinner ⟨rfl, Nat.le_refl _⟩
    · rename_i id link hid
      have hnext := (takeRequestId_next hid).2
      split
      · exact .refuse hbefore hfree hinner ⟨rfl, by dsimp only; omega⟩
      · dsimp only
        split
        · exact .refuse hbefore hfree hinner ⟨rfl, by dsimp only; omega⟩
        · exact .ask hbefore hfree hinner hid

theorem start_step (hbefore : Outside w i) : Step serde w (w.start A serde i random call) := by
  unfold Web.start
  split
  · exact .outside hbefore trivial
  · exact borrowMut_step _ fun hfree => ask_step hbefore hfree
  · split
    · exact borrowMut_step _ fun hfree => .close hbefore hfree
    · exact .outside hbefore trivial

theorem connected_step {result : Except JsError Link} (hbefore : Outside w i) :
    Step serde w (w.connected i result) := by
  unfold Web.connected
  split
  · exact .outside hbefore trivial
  · exact borrowMut_step _ fun hfree => .connect hbefore hfree

theorem read_step {guard guard' : Guard} {request : WriteCall} {polls : List Poll}
    (hheld : Held w i call guard request) (hlater : Later guard guard') :
    Step serde w (w.read A D serde i call guard' request polls) := by
  unfold Web.read
  split
  · exact .wait hheld hlater
  · exact .fail hheld hlater
  · rename_i hread
    exact .answer hheld hlater (readMatchingFrame_id hread)

theorem fetched_step {guard : Guard} {request : WriteCall} {answer : Except JsError Bytes}
    (hheld : Held w i call guard request) :
    Step serde w (w.fetched A D serde i call guard request answer) := by
  unfold Web.fetched
  split
  dsimp only
  split
  · exact .fail hheld ⟨rfl, Nat.le_refl _⟩
  · exact read_step hheld ⟨rfl, Nat.le_refl _⟩

theorem step_cases {event : Event} (h : w.step A D serde event = some t) : Step serde w t := by
  unfold Web.step at h
  split_ifs at h
  split at h
  · cases h
    exact .call _
  · split at h
    · rename_i hcall
      cases h
      exact start_step (.inl ⟨_, hcall⟩)
    · cases h
  · split at h
    · rename_i hcall
      cases h
      exact connected_step (.inr hcall)
    · cases h
  · split at h
    · rename_i hcall
      cases h
      exact fetched_step (.inl hcall)
    · cases h
  · split at h
    · rename_i hcall
      cases h
      exact read_step (.inr ⟨_, hcall⟩) ⟨rfl, Nat.le_refl _⟩
    · cases h

variable {after : Phase J} {guard : Guard} {request : WriteCall}

def Returned (w : Web J) (i : ℕ) : Prop :=
  ∃ call outcome, w.calls[i]? = some (.returned call outcome)

def Ahead (w : Web J) (guard : Guard) : Prop :=
  ∀ entry ∈ w.sent, entry.2.1 = guard.number → entry.2.2.id < guard.link.nextRequest

structure Sound (serde : Serde J) (w : Web J) : Prop where
  ids : ∀ a ∈ w.sent, ∀ b ∈ w.sent, a.2.1 = b.2.1 → a.2.2.id = b.2.2.id → a.1 = b.1
  sessions : ∀ entry ∈ w.sent, Returned w entry.2.1
  inner : ∀ guard, w.inner = some guard → Returned w guard.number ∧ (w.holder = none → Ahead w guard)
  guards : ∀ i call guard request, Held w i call guard request →
    w.holder = some i ∧ Returned w guard.number ∧ Ahead w guard ∧ (i, guard.number, request) ∈ w.sent
  responses : ∀ i call outcome, w.calls[i]? = some (.returned call outcome) →
    (call.query serde).isSome →
    (∀ e, outcome ≠ .failed e) → ∃ number request frame, (i, number, request) ∈ w.sent ∧
      (i, number, frame) ∈ w.answered ∧ frame.id = request.id ∧
        outcome = call.conclude serde request.kind frame

theorem Sound.responds (h : Sound serde w) : Responds serde w := by
  intro i call outcome hcall hquery hfailed
  obtain ⟨number, request, frame, hsent, hanswered, hid, houtcome⟩ :=
    h.responses i call outcome hcall hquery hfailed
  exact ⟨number, request, frame, hsent, hanswered, hid, houtcome,
    fun j other hother hsame => h.ids _ hother _ hsent rfl hsame⟩

theorem sound_new : Sound serde (Web.new J) where
  ids := nofun
  sessions := nofun
  inner := nofun
  guards := by rintro i call guard request (h | ⟨polls, h⟩) <;> cases h
  responses := nofun

structure Moved (w t : Web J) (i : ℕ) (after : Phase J) : Prop where
  calls : ∀ j phase, t.calls[j]? = some phase → (j = i ∧ phase = after) ∨
    (j ≠ i ∧ w.calls[j]? = some phase)
  kept : ∀ n, Returned w n → Returned t n
  sent : t.sent = w.sent
  answered : w.answered ⊆ t.answered

theorem Moved.held (h : Moved w t i after) {j : ℕ} (hj : j ≠ i)
    (hheld : Held t j call guard request) : Held w j call guard request := by
  obtain hphase | ⟨polls, hphase⟩ := hheld
  · exact .inl ((h.calls j _ hphase).resolve_left fun hi => hj hi.1).2
  · exact .inr ⟨polls, ((h.calls j _ hphase).resolve_left fun hi => hj hi.1).2⟩

theorem Moved.ahead (h : Moved w t i after) {guard' : Guard} (hahead : Ahead w guard)
    (hlater : Later guard guard') : Ahead t guard' := by
  intro entry hentry hnumber
  rw [h.sent] at hentry
  exact (hahead entry hentry (hnumber.trans hlater.1)).trans_le hlater.2

theorem Sound.moved (h : Sound serde w) (hmoved : Moved w t i after)
    (hinner : ∀ guard, t.inner = some guard → Returned t guard.number ∧
      (t.holder = none → Ahead t guard))
    (hothers : ∀ j, j ≠ i → w.holder = some j → t.holder = some j)
    (hguard : ∀ call guard request, Held t i call guard request →
      t.holder = some i ∧ Returned t guard.number ∧ Ahead t guard ∧ (i, guard.number, request) ∈ t.sent)
    (hresponse : ∀ call outcome, after = .returned call outcome → (call.query serde).isSome →
      (∀ e, outcome ≠ .failed e) → ∃ number request frame, (i, number, request) ∈ t.sent ∧
        (i, number, frame) ∈ t.answered ∧ frame.id = request.id ∧
        outcome = call.conclude serde request.kind frame) : Sound serde t where
  ids := by
    rw [hmoved.sent]
    exact h.ids
  sessions := by
    rw [hmoved.sent]
    exact fun entry hentry => hmoved.kept _ (h.sessions entry hentry)
  inner := hinner
  guards := by
    intro j call guard request hheld
    by_cases hj : j = i
    · cases hj
      exact hguard call guard request hheld
    · obtain ⟨hholder, hreturned, hahead, hmem⟩ := h.guards j call guard request (hmoved.held hj hheld)
      exact ⟨hothers j hj hholder, hmoved.kept _ hreturned, hmoved.ahead hahead ⟨rfl, Nat.le_refl _⟩,
        hmoved.sent ▸ hmem⟩
  responses := by
    intro j call outcome hcall hquery hfailed
    obtain ⟨rfl, hphase⟩ | ⟨-, hcall⟩ := hmoved.calls j _ hcall
    · exact hresponse call outcome hphase.symm hquery hfailed
    · obtain ⟨number, request, frame, hsent, hanswered, hid, houtcome⟩ :=
        h.responses j call outcome hcall hquery hfailed
      exact ⟨number, request, frame, hmoved.sent ▸ hsent, hmoved.answered hanswered, hid, houtcome⟩

def Running (w : Web J) (i : ℕ) : Prop :=
  ∃ phase, w.calls[i]? = some phase ∧ ∀ call outcome, phase ≠ .returned call outcome

theorem Outside.running (h : Outside w i) : Running w i := by
  obtain ⟨call, h⟩ | h := h
  · exact ⟨_, h, nofun⟩
  · exact ⟨_, h, nofun⟩

theorem Held.running (h : Held w i call guard request) : Running w i := by
  obtain h | ⟨polls, h⟩ := h
  · exact ⟨_, h, nofun⟩
  · exact ⟨_, h, nofun⟩

theorem Running.not_returned (h : Running w i) : ¬ Returned w i := by
  rintro ⟨call, outcome, hreturned⟩
  obtain ⟨phase, hphase, hne⟩ := h
  exact hne call outcome (Option.some.inj (hphase.symm.trans hreturned))

theorem Running.lt (h : Running w i) : i < w.calls.length := by
  obtain ⟨phase, hphase, -⟩ := h
  exact (List.getElem?_eq_some_iff.mp hphase).1

theorem Running.moved (h : Running w i) (hcalls : t.calls = w.calls.set i after)
    (hsent : t.sent = w.sent) (hanswered : w.answered ⊆ t.answered) : Moved w t i after where
  calls := by
    intro j phase hphase
    rw [hcalls] at hphase
    by_cases hj : j = i
    · cases hj
      rw [List.getElem?_set_self h.lt] at hphase
      exact .inl ⟨rfl, (Option.some.inj hphase).symm⟩
    · rw [List.getElem?_set_ne (Ne.symm hj)] at hphase
      exact .inr ⟨hj, hphase⟩
  kept := by
    rintro n ⟨call, outcome, hreturned⟩
    have hn : n ≠ i := by
      rintro rfl
      exact h.not_returned ⟨call, outcome, hreturned⟩
    refine ⟨call, outcome, ?_⟩
    rw [hcalls, List.getElem?_set_ne (Ne.symm hn)]
    exact hreturned
  sent := hsent
  answered := hanswered

theorem moved_called (w : Web J) (call : Call) :
    Moved w { w with calls := w.calls ++ [.start call] } w.calls.length (.start call) where
  calls := by
    intro j phase hphase
    obtain hj | hj := Nat.lt_or_ge j w.calls.length
    · rw [List.getElem?_append_left hj] at hphase
      exact .inr ⟨Nat.ne_of_lt hj, hphase⟩
    · obtain ⟨hlt, -⟩ := List.getElem?_eq_some_iff.mp hphase
      rw [List.length_append, List.length_singleton] at hlt
      have heq : j = w.calls.length := by omega
      cases heq
      rw [List.getElem?_concat_length] at hphase
      exact .inl ⟨rfl, (Option.some.inj hphase).symm⟩
  kept := by
    rintro n ⟨call', outcome, hreturned⟩
    refine ⟨call', outcome, ?_⟩
    rw [List.getElem?_append_left (List.getElem?_eq_some_iff.mp hreturned).1]
    exact hreturned
  sent := rfl
  answered := List.Subset.refl _

theorem Moved.held_self (h : Moved w t i after) (hheld : Held t i call guard request) :
    after = .writing call guard request ∨ ∃ polls, after = .reading call guard request polls := by
  obtain hphase | ⟨polls, hphase⟩ := hheld
  · exact .inl ((h.calls i _ hphase).resolve_right fun hne => hne.1 rfl).2.symm
  · exact .inr ⟨polls, ((h.calls i _ hphase).resolve_right fun hne => hne.1 rfl).2.symm⟩

theorem Moved.not_held (h : Moved w t i after)
    (hwriting : ∀ call guard request, after ≠ .writing call guard request)
    (hreading : ∀ call guard request polls, after ≠ .reading call guard request polls) :
    ¬ Held t i call guard request := by
  intro hheld
  obtain hafter | ⟨polls, hafter⟩ := h.held_self hheld
  · exact hwriting _ _ _ hafter
  · exact hreading _ _ _ _ hafter

theorem Sound.inner_kept (h : Sound serde w) (hmoved : Moved w t i after)
    (hinner : t.inner = w.inner) (hholder : t.holder = w.holder) (guard : Guard)
    (hguard : t.inner = some guard) :
    Returned t guard.number ∧ (t.holder = none → Ahead t guard) := by
  obtain ⟨hreturned, hahead⟩ := h.inner guard (hinner ▸ hguard)
  exact ⟨hmoved.kept _ hreturned, fun hnone => hmoved.ahead (hahead (hholder ▸ hnone))
    ⟨rfl, Nat.le_refl _⟩⟩

theorem Sound.released {outcome : Outcome J} {guard' : Guard}
    {answered : List (ℕ × ℕ × BrowserFrame)} (h : Sound serde w) (hrunning : Running w i)
    (hfree : ∀ j, w.holder = some j → j = i) (hreturned : Returned w guard.number)
    (hahead : Ahead w guard) (hlater : Later guard guard') (hanswered : w.answered ⊆ answered)
    (hresponse : (call.query serde).isSome → (∀ e, outcome ≠ .failed e) → ∃ number request frame,
      (i, number, request) ∈ w.sent ∧ (i, number, frame) ∈ answered ∧ frame.id = request.id ∧
        outcome = call.conclude serde request.kind frame) :
    Sound serde ({ w with answered := answered }.release i call guard' outcome) := by
  have hmoved : Moved w ({ w with answered := answered }.release i call guard' outcome) i
    (.returned call outcome) :=
    hrunning.moved rfl rfl hanswered
  refine h.moved hmoved ?_ ?_ ?_ ?_
  · rintro _ ⟨⟩
    exact ⟨hlater.1 ▸ hmoved.kept _ hreturned, fun _ => hmoved.ahead hahead hlater⟩
  · intro j hj hholder
    exact absurd (hfree j hholder) hj
  · intro _ _ _ hheld
    exact absurd hheld (hmoved.not_held nofun nofun)
  · rintro _ _ ⟨⟩ hquery hfailed
    exact hresponse hquery hfailed

theorem Sound.ask {link : Link} (h : Sound serde w) (hrunning : Running w i)
    (hfree : w.holder = none) (hinner : w.inner = some guard)
    (hid : guard.link.takeRequestId = .ok (request.id, link)) :
    Sound serde ({ w with holder := some i, sent := w.sent ++ [(i, guard.number, request)] }.goOn i
      (.writing call { guard with link := link } request)) := by
  obtain ⟨hreturned, hahead⟩ := h.inner guard hinner
  obtain ⟨hrequest, hnext⟩ := takeRequestId_next hid
  have hnew : ∀ entry ∈ w.sent, entry.2.1 = guard.number → entry.2.2.id < request.id := by
    rw [hrequest]
    exact hahead hfree
  -- the phases apart from the one that is sent
  have hmoved : Moved w (w.goOn i (.writing call { guard with link := link } request)) i _ :=
    hrunning.moved rfl rfl (List.Subset.refl _)
  constructor
  · intro a ha b hb hsession hsame
    obtain ha | ha := List.mem_append.mp ha <;> obtain hb | hb := List.mem_append.mp hb
    · exact h.ids a ha b hb hsession hsame
    · cases List.mem_singleton.mp hb
      exact absurd hsame (Nat.ne_of_lt (hnew a ha hsession))
    · cases List.mem_singleton.mp ha
      exact absurd hsame (Nat.ne_of_gt (hnew b hb hsession.symm))
    · cases List.mem_singleton.mp ha
      cases List.mem_singleton.mp hb
      rfl
  · intro entry hentry
    obtain hentry | hentry := List.mem_append.mp hentry
    · exact hmoved.kept _ (h.sessions entry hentry)
    · cases List.mem_singleton.mp hentry
      exact hmoved.kept _ hreturned
  · intro guard' hguard'
    cases hinner.symm.trans hguard'
    exact ⟨hmoved.kept _ hreturned, nofun⟩
  · intro j call' guard' request' hheld
    by_cases hj : j = i
    · cases hj
      obtain hafter | ⟨polls, hafter⟩ := hmoved.held_self hheld
      · cases hafter
        refine ⟨rfl, hmoved.kept _ hreturned, ?_, List.mem_concat_self⟩
        intro entry hentry hnumber
        obtain hentry | hentry := List.mem_append.mp hentry
        · have hlt := hnew entry hentry hnumber
          dsimp only
          omega
        · cases List.mem_singleton.mp hentry
          dsimp only
          omega
      · cases hafter
    · have hholder := (h.guards j call' guard' request' (hmoved.held hj hheld)).1
      rw [hfree] at hholder
      cases hholder
  · intro j call' outcome hcall hquery hfailed
    obtain ⟨-, heq⟩ | ⟨-, hcall⟩ := hmoved.calls j _ hcall
    · cases heq
    · obtain ⟨number, request', frame, hsent, hrest⟩ := h.responses j call' outcome hcall hquery hfailed
      exact ⟨number, request', frame, List.mem_append_left _ hsent, hrest⟩

theorem Sound.step (h : Sound serde w) (hstep : Step serde w t) : Sound serde t := by
  cases hstep with
  | call call =>
    have hmoved := moved_called w call
    refine h.moved hmoved (h.inner_kept hmoved rfl rfl) (fun _ _ hj => hj) ?_ nofun
    intro _ _ _ hheld
    exact absurd hheld (hmoved.not_held nofun nofun)
  | panic i => exact ⟨h.ids, h.sessions, h.inner, h.guards, h.responses⟩
  | @outside i after hbefore hafter =>
    have hmoved : Moved w (w.goOn i after) i after := hbefore.running.moved rfl rfl (List.Subset.refl _)
    refine h.moved hmoved (h.inner_kept hmoved rfl rfl) (fun _ _ hj => hj) ?_ ?_
    · intro _ _ _ hheld
      refine absurd hheld (hmoved.not_held ?_ ?_)
      · rintro _ _ _ rfl
        exact hafter
      · rintro _ _ _ _ rfl
        exact hafter
    · rintro call outcome rfl - hfailed
      cases outcome with
      | failed e => exact absurd rfl (hfailed e)
      | done => exact hafter.elim
      | token => exact hafter.elim
      | value => exact hafter.elim
  | @close i hbefore hfree =>
    have hmoved : Moved w ({ w with inner := none }.goOn i (.returned .close .done)) i _ :=
      hbefore.running.moved rfl rfl (List.Subset.refl _)
    refine h.moved hmoved nofun (fun _ _ hj => hj) ?_ ?_
    · intro _ _ _ hheld
      exact absurd hheld (hmoved.not_held nofun nofun)
    · rintro _ _ ⟨⟩ hquery
      cases hquery
  | @connect i link hbefore hfree =>
    have hmoved : Moved w ({ w with inner := some ⟨i, link⟩ }.goOn i (.returned .connect .done)) i _ :=
      hbefore.running.moved rfl rfl (List.Subset.refl _)
    refine h.moved hmoved ?_ (fun _ _ hj => hj) ?_ ?_
    · rintro _ ⟨⟩
      refine ⟨⟨_, _, List.getElem?_set_self hbefore.running.lt⟩, fun _ entry hentry hnumber => ?_⟩
      -- nothing was sent on a session whose connection was not there yet
      have hsession : entry.2.1 = i := hnumber
      exact absurd (hsession ▸ h.sessions entry hentry) hbefore.running.not_returned
    · intro _ _ _ hheld
      exact absurd hheld (hmoved.not_held nofun nofun)
    · rintro _ _ ⟨⟩ hquery
      cases hquery
  | ask hbefore hfree hinner hid => exact h.ask hbefore.running hfree hinner hid
  | refuse hbefore hfree hinner hlater =>
    obtain ⟨hreturned, hahead⟩ := h.inner _ hinner
    refine h.released hbefore.running ?_ hreturned (hahead hfree) hlater (List.Subset.refl _) ?_
    · rw [hfree]
      exact nofun
    · intro _ hfailed
      exact absurd rfl (hfailed _)
  | @wait i call guard guard' request polls hheld hlater =>
    have hmoved : Moved w (w.goOn i (.reading call guard' request polls)) i _ :=
      hheld.running.moved rfl rfl (List.Subset.refl _)
    obtain ⟨hholder, hreturned, hahead, hsent⟩ := h.guards _ _ _ _ hheld
    refine h.moved hmoved (h.inner_kept hmoved rfl rfl) (fun _ _ hj => hj) ?_ nofun
    intro call' guard'' request' hheld'
    obtain hafter | ⟨polls', hafter⟩ := hmoved.held_self hheld'
    · cases hafter
    cases hafter
    rw [hlater.1]
    exact ⟨hholder, hmoved.kept _ hreturned, hmoved.ahead hahead hlater, hsent⟩
  | fail hheld hlater =>
    obtain ⟨hholder, hreturned, hahead, -⟩ := h.guards _ _ _ _ hheld
    refine h.released hheld.running ?_ hreturned hahead hlater (List.Subset.refl _) ?_
    · intro j hj
      exact Option.some.inj (hj.symm.trans hholder)
    · intro _ hfailed
      exact absurd rfl (hfailed _)
  | @answer i call guard guard' request frame hheld hlater hid =>
    obtain ⟨hholder, hreturned, hahead, hsent⟩ := h.guards _ _ _ _ hheld
    refine h.released hheld.running ?_ hreturned hahead hlater (List.subset_append_left _ _) ?_
    · intro j hj
      exact Option.some.inj (hj.symm.trans hholder)
    · intro _ _
      refine ⟨guard.number, request, frame, hsent, ?_, hid, rfl⟩
      rw [← hlater.1]
      exact List.mem_concat_self

/-- The borrow flag is set for a call in flight only. -/
def Attended (w : Web J) : Prop :=
  ∀ i, w.holder = some i → ∃ call guard request, Held w i call guard request

theorem Held.of_eq {j : ℕ} (h : Held w j call guard request) (heq : t.calls[j]? = w.calls[j]?) :
    Held t j call guard request := by
  unfold Held
  rw [heq]
  exact h

theorem Outside.not_held (h : Outside w i) : ¬ Held w i call guard request := by
  rintro (hheld | ⟨polls, hheld⟩)
  · obtain ⟨call, h⟩ | h := h <;> cases hheld.symm.trans h
  · obtain ⟨call, h⟩ | h := h <;> cases hheld.symm.trans h

theorem Attended.step (h : Attended w) (hstep : Step serde w t) : Attended t := by
  intro j hj
  cases hstep with
  | call call =>
    obtain ⟨call', guard, request, hheld⟩ := h j hj
    exact ⟨call', guard, request, hheld.of_eq (List.getElem?_append_left hheld.running.lt)⟩
  | panic i => exact h j hj
  | outside hbefore hafter =>
    obtain ⟨call, guard, request, hheld⟩ := h j hj
    refine ⟨call, guard, request, hheld.of_eq (List.getElem?_set_ne ?_)⟩
    rintro rfl
    exact hbefore.not_held hheld
  | close hbefore hfree => cases hfree.symm.trans hj
  | connect hbefore hfree => cases hfree.symm.trans hj
  | ask hbefore hfree hinner hid =>
    cases hj
    exact ⟨_, _, _, .inl (List.getElem?_set_self hbefore.running.lt)⟩
  | refuse hbefore hfree hinner hlater => cases hj
  | @wait i call guard guard' request polls hheld hlater =>
    by_cases hi : i = j
    · cases hi
      exact ⟨call, guard', request, .inr ⟨polls, List.getElem?_set_self hheld.running.lt⟩⟩
    · obtain ⟨call', guard₁, request', hheld'⟩ := h j hj
      exact ⟨call', guard₁, request', hheld'.of_eq (List.getElem?_set_ne hi)⟩
  | fail hheld hlater => cases hj
  | answer hheld hlater hid => cases hj

theorem inFlight_iff (hsound : Sound serde w) (hattended : Attended w) :
    (∀ phase ∈ w.calls, phase.inFlight = false) ↔ w.holder = none := by
  constructor
  · intro h
    cases hholder : w.holder with
    | none => rfl
    | some i =>
      obtain ⟨call, guard, request, hphase | ⟨polls, hphase⟩⟩ := hattended i hholder
      · cases h _ (List.mem_of_getElem? hphase)
      · cases h _ (List.mem_of_getElem? hphase)
  · intro hholder phase hphase
    obtain ⟨i, hi⟩ := List.mem_iff_getElem?.mp hphase
    cases phase with
    | writing call guard request =>
      cases (hsound.guards i call guard request (.inl hi)).1.symm.trans hholder
    | reading call guard request polls =>
      cases (hsound.guards i call guard request (.inr ⟨polls, hi⟩)).1.symm.trans hholder
    | _ => rfl

theorem borrowMut_panicked {f : Web J → Web J} (hnone : w.panicked = none)
    (hf : (f w).panicked = w.panicked) : (w.borrowMut i f).panicked = none ↔ w.holder = none := by
  unfold Web.borrowMut
  cases hholder : w.holder with
  | none => simp [hf, hnone]
  | some j => simp

theorem ask_panicked {query : Query} :
    (w.ask A serde i random call query).panicked = w.panicked := by
  unfold Web.ask
  split
  · rfl
  · split
    · rfl
    · split
      · rfl
      · dsimp only
        split <;> rfl

theorem read_panicked {guard : Guard} {request : WriteCall} {polls : List Poll} :
    (w.read A D serde i call guard request polls).panicked = w.panicked := by
  unfold Web.read
  split <;> rfl

theorem start_panicked_iff (hnone : w.panicked = none) :
    (w.start A serde i random call).panicked = none ↔
      (borrowsFirst serde call = true → w.holder = none) := by
  unfold Web.start borrowsFirst
  cases call.query serde with
  | some query =>
    cases query with
    | error e => exact ⟨fun _ => nofun, fun _ => hnone⟩
    | ok query =>
      dsimp only
      rw [borrowMut_panicked hnone ask_panicked]
      exact ⟨fun h _ => h, fun h => h rfl⟩
  | none =>
    dsimp only
    split
    · rw [borrowMut_panicked hnone rfl]
      exact ⟨fun h _ => h, fun h => h rfl⟩
    · exact ⟨fun _ => nofun, fun _ => hnone⟩

theorem step_panicked_iff {event : Event} (h : w.step A D serde event = some t) :
    t.panicked = none ↔ (borrows serde w event = true → w.holder = none) := by
  unfold Web.step at h
  split_ifs at h with hpanicked
  have hnone := Option.not_isSome_iff_eq_none.mp hpanicked
  cases event with
  | call call =>
    cases h
    exact ⟨fun _ => nofun, fun _ => hnone⟩
  | start i random =>
    dsimp only at h
    split at h
    · rename_i call hcall
      cases h
      rw [start_panicked_iff hnone, borrows, hcall]
    · cases h
  | connected i result =>
    dsimp only at h
    split at h
    · cases h
      cases result with
      | error e => exact ⟨fun _ => nofun, fun _ => hnone⟩
      | ok link =>
        rw [Web.connected, borrowMut_panicked hnone rfl]
        exact ⟨fun hfree _ => hfree, fun hfree => hfree rfl⟩
    · cases h
  | fetched i answer =>
    refine ⟨fun _ => nofun, fun _ => ?_⟩
    dsimp only at h
    split at h
    · cases h
      unfold Web.fetched
      split
      dsimp only
      split
      · exact hnone
      · exact read_panicked.trans hnone
    · cases h
  | polled i poll =>
    refine ⟨fun _ => nofun, fun _ => ?_⟩
    dsimp only at h
    split at h
    · cases h
      exact read_panicked.trans hnone
    · cases h

theorem panicked_last {events : List Event} (hpanicked : w.panicked ≠ none)
    (hrun : runFrom (Web.step A D serde) w events = some t) : t.panicked ≠ none := by
  cases events with
  | nil => exact Option.some.inj hrun ▸ hpanicked
  | cons event events =>
    have hstep : w.step A D serde event = none := by
      unfold Web.step
      exact if_pos (Option.isSome_iff_ne_none.mpr hpanicked)
    rw [runFrom, hstep] at hrun
    cases hrun

end Steps

theorem step_free_iff {J : Type} {A : Aead Key} {D : Decompressors} {serde : Serde J} {w t : Web J}
    {event : Event} (hsound : Sound serde w) (hattended : Attended w)
    (h : w.step A D serde event = some t) : t.panicked = none ↔ Free serde w event := by
  rw [step_panicked_iff h, Free, inFlight_iff hsound hattended]

/-- A run of the host is free of panics, with every response that of the call's own request, exactly
when `inner` is only borrowed while no request is in flight. -/
theorem overlap_tolerated_iff {J : Type} (A : Aead Key) (D : Decompressors) (serde : Serde J)
    {events : List Event} {w : Web J}
    (hrun : runFrom (Web.step A D serde) (Web.new J) events = some w) :
    (w.panicked = none ∧ Responds serde w) ↔
      Allows (Web.step A D serde) (Free serde) (Web.new J) events := by
  have hnew : Sound serde (Web.new J) ∧ Attended (Web.new J) := ⟨sound_new, nofun⟩
  have hkept : ∀ {s t : Web J} {event : Event}, Sound serde s ∧ Attended s →
      s.step A D serde event = some t → Sound serde t ∧ Attended t :=
    fun h ht => ⟨h.1.step (step_cases ht), h.2.step (step_cases ht)⟩
  constructor
  · rintro ⟨hnone, -⟩
    revert hrun hnew
    generalize Web.new J = s
    intro hrun hs
    induction events generalizing s with
    | nil => trivial
    | cons event events ih =>
      obtain ⟨t, ht, hrest⟩ := Option.bind_eq_some_iff.mp hrun
      have hfree : Free serde s event := by
        rw [← step_free_iff hs.1 hs.2 ht]
        by_contra hpanicked
        exact panicked_last hpanicked hrest hnone
      refine ⟨hfree, ?_⟩
      rintro _ ht'
      cases ht.symm.trans ht'
      exact ih _ hrest (hkept hs ht)
  · intro hfree
    constructor
    · refine (run_invariant (I := fun w => (Sound serde w ∧ Attended w) ∧ w.panicked = none) ?_
        ⟨hnew, rfl⟩ hfree hrun).2
      rintro s event t ⟨hs, -⟩ hfree ht
      exact ⟨hkept hs ht, (step_free_iff hs.1 hs.2 ht).mpr hfree⟩
    · exact (runFrom_invariant (fun _ _ _ h ht => h.step (step_cases ht)) sound_new hrun).responds

section Sample
open RecordSteps (checksumCrypto)
open BrowserWrites (sampleSession)

def sampleSerde : Serde Unit :=
  ⟨fun _ => some [], fun _ => some .null, fun _ => some (), fun _ _ => .ok 5⟩

def askMe : Call := .command (some (.object []))

def sampleResponse (id : ℕ) : Bytes :=
  let frame := 4 :: 0 :: (beBytes 2 200 ++ beBytes 8 id ++ List.replicate 16 0 ++ beBytes 8 0 ++
    beBytes 4 0)
  match browserSeal checksumCrypto.aead sampleSession.handshakeHash sampleSession.openState frame with
  | (_, .ok record) => beBytes 4 record.length ++ record
  | (_, .error _) => []

def overlapping (second : Call) : List Event :=
  [.call .connect, .start 0 none, .connected 0 (.ok ⟨sampleSession, 2⟩), .call askMe, .start 1 none,
    .call second, .start 2 none]

def inTurn : List Event :=
  [.call .connect, .start 0 none, .connected 0 (.ok ⟨sampleSession, 2⟩), .call askMe, .start 1 none,
    .fetched 1 (.ok []), .polled 1 (.answers [] (.ok ())),
    .polled 1 (.answers (sampleResponse 2) (.ok ())),
    .call .close, .start 2 none]

theorem overlap_tolerated_iff_in_turn :
    ∃ w, runFrom (Web.step checksumCrypto.aead sampleDecompressors sampleSerde)
      (Web.new Unit) inTurn = some w ∧
      (w.answered.map fun entry => entry.2.2.id) = [2] ∧ w.panicked = none ∧
        Responds sampleSerde w := by
  have hanswered : (runFrom (Web.step checksumCrypto.aead sampleDecompressors sampleSerde)
    (Web.new Unit) inTurn).map
      (fun w => w.answered.map fun entry => entry.2.2.id) = some [2] := by
    decide +kernel
  obtain ⟨w, hw, hids⟩ := Option.map_eq_some_iff.mp hanswered
  have hfree : Allows (Web.step checksumCrypto.aead sampleDecompressors sampleSerde)
    (Free sampleSerde) (Web.new Unit)
      inTurn := by
    decide +kernel
  exact ⟨w, hw, hids, (overlap_tolerated_iff _ _ _ hw).mpr hfree⟩

/-- A second command, or closing the client, panics while the first command waits for its response. -/
theorem overlap_panics :
    (runFrom (Web.step checksumCrypto.aead sampleDecompressors sampleSerde) (Web.new Unit)
      (overlapping askMe)).bind Web.panicked = some 2 ∧
    (runFrom (Web.step checksumCrypto.aead sampleDecompressors sampleSerde) (Web.new Unit)
      (overlapping .close)).bind Web.panicked = some 2 := by
  constructor
  · decide +kernel
  · decide +kernel

end Sample

end Mst5Client.BrowserOverlap
