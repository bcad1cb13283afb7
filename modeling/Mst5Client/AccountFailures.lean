import Mst5Client.AccountTokens

set_option autoImplicit false

/-!
# What a failed request does to the shared connection

`request_cbor` handles every error but an authentication error alike: it invalidates the generation
it used, which closes the connection under all requests in flight on it.
-/
namespace Mst5Client.AccountFailures
open ByteOrder IoResult AccountClient MachineRuns AccountTokens AccountTasks
open AccountMoves (published takeCurrent_some openConn_closeConn openConn_published
  getElem?_concat_of_ne)

/-- The errors that `request_cbor_with_options` returns for a reason of the request itself. -/
def requestLocal : List IoError :=
  [⟨.timedOut, "MST5 request deadline has expired"⟩,
    ⟨.timedOut, "MST5 request timed out waiting for an in-flight slot"⟩,
    ⟨.timedOut, "MST5 request timed out waiting for the record writer"⟩,
    ⟨.timedOut, "MST5 writer queue is full"⟩,
    ⟨.timedOut, "MST5 write timed out"⟩,
    ⟨.timedOut, "MST5 request timed out"⟩,
    invalidInput "COMMAND request nonce must be non-zero",
    invalidInput "request nonce is only valid for COMMAND",
    invalidInput "request kind must be QUERY or COMMAND",
    invalidInput "MST5 payload is too large"]

theorem requestLocal_not_authentication : ∀ e ∈ requestLocal, isAuthenticationError e = false := by
  decide +kernel

/-- An attempt that fails, and what is current at that moment. -/
structure Failure where
  generation : ℕ
  conn : ℕ
  error : IoError
  current : Option (ℕ × ℕ)

section Attempts
variable (w : World) (call : Call) (a : Ambient)

def attemptFailure (generation conn : ℕ) : Option Failure :=
  match w.prepare call a conn with
  | .error e => some ⟨generation, conn, e, w.current⟩
  | .ok _ => none

def currentFailure : Option Failure :=
  w.current.bind fun (generation, conn) =>
    if w.openConn conn then attemptFailure w call a generation conn else none

def loopFailure : Option Failure := if w.closed then none else currentFailure w call a

def resumeFailure : Pc → Outcome → Option Failure
  | .closing, .finished => (call.drawn a).toOption.bind fun call => loopFailure w call a
  | .locking, .acquired => currentFailure w call a
  | .authenticating conn, .authenticated =>
    attemptFailure (published w conn) call a ((w.generation + 1) % 2 ^ 32) conn
  | .requesting generation conn _ _ _, .failed e => some ⟨generation, conn, e, w.current⟩
  | .sleeping, .finished => loopFailure w call a
  | _, _ => none

end Attempts

def failure (s : Account) : Action → Option Failure
  | .request request a =>
    ((Call.mk request a.instant 0 .closing).drawn a).toOption.bind fun call =>
      loopFailure s.world call a
  | .other (.resume i outcome a) =>
    (s.world.calls[i]?).bind fun call => resumeFailure s.world call a call.pc outcome
  | _ => none

/-- The call that an action starts or resumes. -/
def caller (s : Account) : Action → ℕ
  | .other (.resume i _ _) => i
  | _ => s.world.calls.length

/-- Every connection that was open still is, and every other call is where it was. -/
def Spared (s s' : Account) (action : Action) : Prop :=
  (∀ conn, s.world.openConn conn = true → s'.world.openConn conn = true) ∧
    ∀ j, j ≠ caller s action → s'.world.calls[j]? = s.world.calls[j]?

variable {w : World} {i : ℕ} {call : Call} {a : Ambient}
variable {v : World} {f : Failure}

theorem retry_conns (error : IoError) : (w.retry i call a error).conns = w.conns := by
  unfold World.retry
  split_ifs <;> rfl

theorem update_calls_ne {f : Call → Call} {j : ℕ} (hj : j ≠ i) :
    (w.update i f).calls[j]? = w.calls[j]? :=
  List.getElem?_modify_ne f w.calls (Ne.symm hj)

theorem requestFailed_calls_ne {generation j : ℕ} {e : IoError} (hj : j ≠ i) :
    (w.requestFailed i call a generation e).calls[j]? = w.calls[j]? := by
  unfold World.requestFailed
  split_ifs
  · exact update_calls_ne hj
  · obtain ⟨taken, -, htake⟩ | ⟨-, htake⟩ := takeCurrent_some w generation
    · rw [htake]
      exact update_calls_ne hj
    · rw [htake]
      dsimp only
      unfold World.retry
      split_ifs <;> exact update_calls_ne hj

theorem openConn_requestFailed {generation : ℕ} {e : IoError} (he : isAuthenticationError e = false)
    (conn : ℕ) :
    (w.requestFailed i call a generation e).openConn conn = true ↔
      w.openConn conn = true ∧ w.current ≠ some (generation, conn) := by
  have hsame : ∀ {v : World}, v.conns = w.conns →
      (v.openConn conn = true ↔ w.openConn conn = true) := by
    intro v hv
    rw [World.openConn, World.openConn, hv]
  simp only [World.requestFailed, he, Bool.false_eq_true, ↓reduceIte]
  obtain ⟨taken, hcurrent, htake⟩ | ⟨hcurrent, htake⟩ := takeCurrent_some w generation
  · rw [htake, hcurrent]
    change (World.closeConn { w with current := none } taken).openConn conn = true ↔ _
    rw [openConn_closeConn, Bool.and_eq_true, decide_eq_true_eq, ne_eq, ne_eq, Option.some.injEq,
      Prod.mk.injEq, and_iff_right rfl, @eq_comm _ taken]
    exact Iff.rfl
  · rw [htake]
    exact (hsame (retry_conns e)).trans ⟨fun hopen => ⟨hopen, hcurrent conn⟩, And.left⟩

/-- Call `i` handles the failure, and nothing else has changed before. -/
def Handles (w : World) (i : ℕ) (f : Failure) (v : World) : Prop :=
  ∃ (u : World) (call : Call) (a : Ambient), v = u.requestFailed i call a f.generation f.error ∧
    u.current = f.current ∧ (∀ conn, u.openConn conn = w.openConn conn) ∧ ∀ j, j ≠ i →
      u.calls[j]? = w.calls[j]?

theorem Handles.of_conns {u : World} (h : Handles u i f v) (hconns : u.conns = w.conns)
    (hcalls : ∀ j, j ≠ i → u.calls[j]? = w.calls[j]?) : Handles w i f v := by
  obtain ⟨x, call, a, hv, hcurrent, hopen, hothers⟩ := h
  refine ⟨x, call, a, hv, hcurrent, fun conn => (hopen conn).trans ?_,
    fun j hj => (hothers j hj).trans (hcalls j hj)⟩
  rw [World.openConn, World.openConn, hconns]

theorem attemptFailure_handled {generation conn : ℕ}
    (h : attemptFailure w call a generation conn = some f) :
    Handles w i f (w.beginRequest i call a generation conn) := by
  unfold attemptFailure at h
  unfold World.beginRequest
  cases hprepare : w.prepare call a conn with
  | ok prepared => simp [hprepare] at h
  | error e =>
    simp only [hprepare, Option.some.injEq] at h
    subst h
    exact ⟨w, call, a, rfl, rfl, fun _ => rfl, fun _ _ => rfl⟩

theorem currentFailure_spec (h : currentFailure w call a = some f) : ∃ generation conn,
    w.current = some (generation, conn) ∧ w.openConn conn = true ∧
      attemptFailure w call a generation conn = some f := by
  obtain ⟨⟨generation, conn⟩, hcurrent, h⟩ := Option.bind_eq_some_iff.mp h
  dsimp only at h
  split_ifs at h with hopen
  exact ⟨generation, conn, hcurrent, hopen, h⟩

theorem loopFailure_handled (h : loopFailure w call a = some f) :
    Handles w i f (w.enterLoop i call a) := by
  unfold loopFailure at h
  split_ifs at h with hclosed
  obtain ⟨generation, conn, hcurrent, hopen, hattempt⟩ := currentFailure_spec h
  unfold World.enterLoop
  simp only [hclosed, hcurrent, hopen, Bool.false_eq_true, ↓reduceIte]
  exact attemptFailure_handled hattempt

theorem lockAcquired_handled (h : currentFailure w call a = some f) :
    Handles w i f (w.lockAcquired i call a) := by
  obtain ⟨generation, conn, hcurrent, hopen, hattempt⟩ := currentFailure_spec h
  unfold World.lockAcquired
  simp only [hcurrent, hopen, ↓reduceIte]
  exact attemptFailure_handled hattempt

theorem loopFailure_congr (hconns : v.conns = w.conns) (hconfig : v.config = w.config)
    (hcurrent : v.current = w.current) (hclosed : v.closed = w.closed) :
    loopFailure v call a = loopFailure w call a := by
  simp only [loopFailure, currentFailure, attemptFailure, World.prepare, World.openConn, hconns,
    hconfig, hcurrent, hclosed]

theorem enterRequest_handled
    (h : ((call.drawn a).toOption.bind fun call => loopFailure w call a) = some f) :
    Handles w i f (w.enterRequest i call a) := by
  obtain ⟨next, hnext, hloop⟩ := Option.bind_eq_some_iff.mp h
  unfold World.enterRequest
  cases hdrawn : call.drawn a with
  | error e =>
    rw [hdrawn] at hnext
    cases hnext
  | ok next' =>
    rw [hdrawn] at hnext
    cases hnext
    have hupdated : loopFailure (w.update i fun _ => next) next a = some f :=
      (loopFailure_congr rfl rfl rfl rfl).trans hloop
    exact (loopFailure_handled hupdated).of_conns rfl fun j => update_calls_ne

theorem resumeFailure_handled {outcome : Outcome}
    (h : resumeFailure w call a call.pc outcome = some f)
    (hv : w.resume i call a call.pc outcome = some v) : Handles w i f v := by
  generalize call.pc = pc at h hv
  cases pc with
  | closing =>
    cases outcome <;> simp only [resumeFailure, reduceCtorEq] at h
    obtain rfl := Option.some.inj hv
    exact enterRequest_handled h
  | locking =>
    cases outcome <;> simp only [resumeFailure, reduceCtorEq] at h
    simp only [World.resume] at hv
    split_ifs at hv
    obtain rfl := Option.some.inj hv
    exact lockAcquired_handled h
  | authenticating conn =>
    cases outcome <;> simp only [resumeFailure, reduceCtorEq] at h
    obtain rfl := Option.some.inj hv
    obtain ⟨u, c, b, hu, hcurrent, hopen, hothers⟩ :=
      attemptFailure_handled (w := published w conn) (i := i) h
    exact ⟨u, c, b, hu, hcurrent,
      fun other => (hopen other).trans (openConn_published w conn other), hothers⟩
  | requesting generation conn nonce deadlineMs enqueued =>
    cases outcome <;> simp only [resumeFailure, reduceCtorEq, Option.some.injEq] at h
    subst h
    cases enqueued <;> obtain rfl := Option.some.inj hv
    · exact ⟨w, call, a, rfl, rfl, fun _ => rfl, fun _ _ => rfl⟩
    · exact ⟨w, call, a, rfl, rfl, fun _ => rfl, fun _ _ => rfl⟩
  | sleeping =>
    cases outcome <;> simp only [resumeFailure, reduceCtorEq] at h
    obtain rfl := Option.some.inj hv
    exact loopFailure_handled h
  | connecting => cases outcome <;> cases h
  | invalidating e => cases outcome <;> cases h
  | returned result => cases outcome <;> cases h
  | dropped => cases outcome <;> cases h

theorem failure_handled {s s' : Account} {action : Action} (h : failure s action = some f)
    (hact : act s action = some s') : Handles s.world (caller s action) f s'.world := by
  cases action with
  | request request a =>
    obtain rfl := Option.some.inj hact
    obtain ⟨next, hnext, hloop⟩ := Option.bind_eq_some_iff.mp h
    refine (enterRequest_handled (w := s.world.spawn ⟨request, a.instant, 0, .closing⟩)
      (Option.bind_eq_some_iff.mpr ⟨next, hnext, ?_⟩)).of_conns rfl
        fun j hj => getElem?_concat_of_ne hj _
    rwa [loopFailure_congr rfl rfl rfl rfl]
  | other l =>
    cases l with
    | resume i outcome a =>
      obtain ⟨call, hcall, hfailure⟩ := Option.bind_eq_some_iff.mp h
      obtain ⟨v, hv, rfl⟩ := Option.map_eq_some_iff.mp hact
      obtain ⟨other, hother, hv⟩ := Option.bind_eq_some_iff.mp hv
      obtain rfl := Option.some.inj (hcall.symm.trans hother)
      exact resumeFailure_handled hfailure hv
    | _ => cases h
  | _ => cases h

/-- In any state: an attempt that fails for a reason of its own request leaves the connections and
the other calls alone exactly if its generation is not the current one any more. -/
theorem local_failure_spares_iff {s s' : Account} {action : Action} {f : Failure}
    (hact : act s action = some s') (hfailure : failure s action = some f)
    (hlocal : f.error ∈ requestLocal) :
    Spared s s' action ↔
      ∀ conn, f.current = some (f.generation, conn) → s.world.openConn conn = false := by
  obtain ⟨u, call, a, hv, hcurrent, hopen, hothers⟩ := failure_handled hfailure hact
  have hauth := requestLocal_not_authentication f.error hlocal
  constructor
  · rintro ⟨hspared, -⟩ conn hconn
    by_contra hnot
    have hstays := hspared conn (Bool.of_not_eq_false hnot)
    rw [hv, openConn_requestFailed hauth] at hstays
    exact hstays.2 (hcurrent.trans hconn)
  · intro hnone
    constructor
    · intro conn hconn
      rw [hv, openConn_requestFailed hauth, hopen]
      refine ⟨hconn, fun hcur => ?_⟩
      rw [hnone conn (hcurrent.symm.trans hcur)] at hconn
      cases hconn
    · intro j hj
      rw [hv, requestFailed_calls_ne hj, hothers j hj]

def inFlightQuery : List Action :=
  [.request (query "") sampleAmbient, .other (.resume 0 .acquired sampleAmbient),
    .other (.resume 0 .connected sampleAmbient), .other (.resume 0 .authenticated sampleAmbient),
    .other (.resume 0 .enqueued sampleAmbient)]

def timesOut : Action := .other (.resume 0 (.failed ⟨.timedOut, "MST5 request timed out"⟩)
    sampleAmbient)

def zeroNonce : Request := ⟨"", kindCommand, 1, [], ⟨some (blockOf 16 []), none⟩⟩

theorem local_failure_spares_iff_sample : ∃ s s' f,
    runFrom act ⟨sampleStart, []⟩ (inFlightQuery ++ [.setCredentials "b" messengerName,
      .takeCurrent 0]) = some s ∧
    act s timesOut = some s' ∧ failure s timesOut = some f ∧ f.current = none ∧
      Spared s s' timesOut := by
  have hfacts : ((runFrom act ⟨sampleStart, []⟩
      (inFlightQuery ++ [.setCredentials "b" messengerName, .takeCurrent 0])).bind fun s =>
      (act s timesOut).bind fun _ => (failure s timesOut).map fun f => (f.error, f.current)) =
        some (⟨.timedOut, "MST5 request timed out"⟩, none) := by decide +kernel
  obtain ⟨s, hs, hfacts⟩ := Option.bind_eq_some_iff.mp hfacts
  obtain ⟨s', hs', hfacts⟩ := Option.bind_eq_some_iff.mp hfacts
  obtain ⟨f, hf, hfacts⟩ := Option.map_eq_some_iff.mp hfacts
  obtain ⟨herror, hcurrent⟩ := Prod.mk.inj hfacts
  have hlocal : f.error ∈ requestLocal := herror ▸ (by decide)
  refine ⟨s, s', f, hs, hs', hf, hcurrent, (local_failure_spares_iff hs' hf hlocal).mpr
    fun conn hconn => ?_⟩
  rw [hcurrent] at hconn
  cases hconn

/-- A command with a zero nonce closes the connection under the query of another call. -/
theorem zero_nonce_closes_connection : ∃ s s' f,
    AccountClient.new sampleConfig = .ok sampleStart ∧ runFrom act ⟨sampleStart, []⟩ inFlightQuery =
    some s ∧ act s (.request zeroNonce sampleAmbient) = some s' ∧
    failure s (.request zeroNonce sampleAmbient) = some f ∧ f.error ∈ requestLocal ∧
    s.world.openConn f.conn = true ∧ s'.world.openConn f.conn = false := by
  have hfacts : ((runFrom act ⟨sampleStart, []⟩ inFlightQuery).bind fun s =>
      (act s (.request zeroNonce sampleAmbient)).bind fun s' =>
      (failure s (.request zeroNonce sampleAmbient)).map fun f =>
        (f.error, s.world.openConn f.conn, s'.world.openConn f.conn)) =
        some (invalidInput "COMMAND request nonce must be non-zero", true, false) := by decide +kernel
  obtain ⟨s, hs, hfacts⟩ := Option.bind_eq_some_iff.mp hfacts
  obtain ⟨s', hs', hfacts⟩ := Option.bind_eq_some_iff.mp hfacts
  obtain ⟨f, hf, hfacts⟩ := Option.map_eq_some_iff.mp hfacts
  simp only [Prod.mk.injEq] at hfacts
  exact ⟨s, s', f, sampleStart_new, hs, hs', hf, hfacts.1 ▸ (by decide), hfacts.2⟩

end Mst5Client.AccountFailures
