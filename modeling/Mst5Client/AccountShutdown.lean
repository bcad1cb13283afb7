import Mst5Client.AccountGenerations

set_option autoImplicit false

/-!
# After an account is closed

`close` sets a flag that is read at the head of the loop only.
-/
namespace Mst5Client.AccountShutdown
open ByteOrder IoResult AccountClient AccountClosing AccountMoves AccountTokens AccountGenerations
  MachineRuns

def settled : Pc → Bool
  | .requesting _ _ _ _ true | .invalidating _ | .sleeping | .returned _ | .dropped => true
  | _ => false

/-- No call is between the head of its loop and the queueing of its frame, no frame waits, and no
connection is open but the published one. A call that could not authenticate leaves its connection
open, for as long as a handle of it is about. -/
def Calm (w : World) : Prop :=
  w.queued = [] ∧ (∀ call ∈ w.calls, settled call.pc = true) ∧
    ∀ conn < w.conns.length, w.openConn conn = true → w.current.map Prod.snd = some conn

instance (w : World) : Decidable (Calm w) := inferInstanceAs (Decidable (_ ∧ _ ∧ _))

variable {sent : List Outgoing} {taken : Prop} {w v : World} {i : ℕ} {call : Call} {a : Ambient}
variable {skip : ℕ → Prop}

/-- The account is closed; `taken` says that the connection has been taken away. -/
structure Shut (sent : List Outgoing) (taken : Prop) (skip : ℕ → Prop) (w : World) : Prop where
  closed : w.closed = true
  queued : w.queued = []
  sent : w.sent = sent
  calls : EachCall (fun j c => ¬ skip j → settled c.pc = true) w
  owned : ∀ conn, w.openConn conn = true → ∃ generation, w.current = some (generation, conn)
  withdrawn : taken → w.current = none

theorem Shut.skipping (h : Shut sent taken nobody w) : Shut sent taken skip w :=
  { h with calls := h.calls.imp fun _ _ _ hc _ => hc id }

theorem Shut.told {u : World} (h : Shut sent taken skip w) (hu : Told w u) :
    Shut sent taken skip u := by
  cases hu with
  | nothing => exact h
  | event he => exact { h with }

theorem Shut.update {f : Call → Call} (h : Shut sent taken (· = i) w)
    (hf : ∀ c, settled (f c).pc = true) : Shut sent taken nobody (w.update i f) := by
  refine ⟨h.closed, h.queued, h.sent, ?_, h.owned, h.withdrawn⟩
  refine EachCall.update (P := fun _ c => ¬ False → settled c.pc = true) ?_ fun c _ _ => hf c
  exact h.calls.imp fun j c _ hc hj _ => hc hj

theorem Shut.closeConn (h : Shut sent taken skip w) (conn : ℕ) :
    Shut sent taken skip (w.closeConn conn) := by
  refine { h with owned := ?_ }
  intro c hopen
  rw [openConn_closeConn, Bool.and_eq_true] at hopen
  exact h.owned c hopen.1

theorem Shut.closeCurrent {generation conn : ℕ} (h : Shut sent taken skip w)
    (hcurrent : w.current = some (generation, conn)) (taken' : Prop) :
    Shut sent taken' skip (World.closeConn { w with current := none } conn) := by
  refine { h with owned := ?_, withdrawn := fun _ => rfl }
  intro c hopen
  rw [openConn_closeConn, Bool.and_eq_true, decide_eq_true_eq] at hopen
  obtain ⟨generation', hc⟩ := h.owned c hopen.1
  cases hcurrent.symm.trans hc
  exact absurd rfl hopen.2

theorem Shut.withdraw (h : Shut sent taken skip w) (taken' : Prop) :
    Shut sent taken' skip (AccountMoves.withdrawn w) := by
  unfold AccountMoves.withdrawn
  split
  · exact h.closeCurrent ‹_› taken'
  · refine { h with owned := ?_, withdrawn := fun _ => rfl }
    intro c hopen
    obtain ⟨generation, hc⟩ := h.owned c hopen
    cases ‹w.current = none›.symm.trans hc

theorem parked_settled {pc : Pc} (h : parked pc = true) : settled pc = true := by
  cases pc <;> first | rfl | cases h

theorem Shut.ends {generation : Option ℕ} (h : Shut sent taken (· = i) w)
    (hends : Ends w i generation v) : Shut sent taken nobody v := by
  cases hends with
  | parks hu hf => exact (h.told hu).update fun c => parked_settled (hf c).2
  | invalidates hcurrent => exact (h.closeCurrent hcurrent taken).update fun _ => rfl

theorem Shut.enters (h : Shut sent taken (· = i) w) (henters : Enters w i call a v) :
    Shut sent taken nobody v := by
  cases henters with
  | ends hends => exact h.ends hends
  | begins hopen hbegins => cases h.closed.symm.trans hopen
  | locks hopen => cases h.closed.symm.trans hopen

theorem Shut.leaves (h : Shut sent taken nobody w) (hcall : w.calls[i]? = some call)
    (hleaves : Leaves w i call v) : Shut sent taken nobody v := by
  have hsettled := h.calls i call hcall id
  cases hleaves with
  | idle hpc hends => exact h.skipping.ends hends
  | connecting hpc hends =>
    generalize call.pc = pc at hpc hsettled
    cases pc <;> first | (cases hsettled; done) | cases hpc

theorem Shut.resumed {outcome : Outcome} (h : Shut sent taken nobody w)
    (hcall : w.calls[i]? = some call) (hresumed : Resumed w i call a outcome v) :
    Shut sent taken nobody v := by
  have hsettled := h.calls i call hcall id
  cases hresumed with
  | looped hpc henters => exact h.skipping.enters henters
  | leaves houtcome hleaves => exact h.leaves hcall hleaves
  | entered hpc | found hpc | locked hpc | connected hpc | published hpc | enqueued hpc =>
    rw [hpc] at hsettled
    cases hsettled

theorem Shut.requested {request : Request} (h : Shut sent taken nobody w)
    (hrequested : Requested w request a v) : Shut sent taken nobody v := by
  have hspawn {skip : ℕ → Prop} {c : Call} (hc : ¬ skip w.calls.length → settled c.pc = true) :
      Shut sent taken skip (w.spawn c) :=
    ⟨h.closed, h.queued, h.sent, EachCall.spawn (h.calls.imp fun _ _ _ hc _ => hc id) hc, h.owned,
      h.withdrawn⟩
  cases hrequested with
  | failed => exact hspawn fun _ => rfl
  | entered hkeeps hdrawn henters =>
    refine Shut.enters ?_ henters
    exact hspawn fun hskip => absurd rfl hskip

theorem Shut.quietly (h : Shut sent taken nobody w) (hquietly : Quietly w v) :
    Shut sent taken nobody v := by
  cases hquietly with
  | idle => exact h
  | credentials credentials => exact { h with }
  | dropped hcall hleaves => exact h.leaves hcall hleaves
  | written hframe =>
    rw [h.queued] at hframe
    cases hframe
  | lost conn => exact h.closeConn conn
  | taken hu => exact (h.told hu).withdraw taken
  | flagged => exact { h with closed := rfl }

theorem Shut.change {m : Move} (h : Shut sent taken nobody w) (hchange : Change w m v) :
    Shut sent taken nobody v := by
  cases hchange with
  | requested hm hrequested => exact h.requested hrequested
  | resumed hm hcall hresumed => exact h.resumed hcall hresumed
  | quietly hrequests hresumes hquietly => exact h.quietly hquietly

variable {s t : Closable} {k : ℕ}

/-- The `close` call `k` has not come to take the connection, or has taken it. -/
def Closes (sent : List Outgoing) (k : ℕ) (s : Closable) : Prop :=
  Shut sent False nobody s.world ∧ s.closers[k]? = some .taking ∨
    Shut sent True nobody s.world

theorem takeLast_closers (s : Closable) (k : ℕ) :
    ∃ pc, (s.takeLast k).closers = s.closers.set k pc := by
  unfold Closable.takeLast
  rcases s.world.takeCurrent none with ⟨w, _ | conn⟩
  · exact ⟨_, rfl⟩
  · exact ⟨_, rfl⟩

theorem move_closer {m : Move} (hmove : move s m = some t) (hk : s.closers[k]? = some .taking)
    (hm : m ≠ .takeLast k) : t.closers[k]? = some .taking := by
  have hset {j : ℕ} {pc : CloserPc} (hj : j ≠ k) : (s.closers.set j pc)[k]? = some .taking := by
    rw [List.getElem?_set_ne hj, hk]
  have hclosing {j : ℕ} (hj : s.closers[j]? = some .closing) : j ≠ k := by
    rintro rfl
    cases hk.symm.trans hj
  cases m with
  | close =>
    cases hmove
    exact getElem?_concat_of_some hk _
  | takeLast j =>
    obtain ⟨pc, hpc, hmove⟩ := Option.bind_eq_some_iff.mp hmove
    cases pc <;> simp only [reduceCtorEq, Option.some.injEq] at hmove
    obtain ⟨pc, hclosers⟩ := takeLast_closers s j
    rw [← hmove, hclosers]
    exact hset fun hj => hm (congrArg Move.takeLast hj)
  | closeReturned j result =>
    obtain ⟨pc, hpc, hmove⟩ := Option.bind_eq_some_iff.mp hmove
    cases pc <;> simp only [reduceCtorEq, Option.some.injEq] at hmove
    exact hmove ▸ hset (hclosing hpc)
  | dropCloser j =>
    obtain ⟨pc, hpc, hmove⟩ := Option.bind_eq_some_iff.mp hmove
    cases pc <;> simp only [reduceCtorEq, Option.some.injEq] at hmove
    exact hmove ▸ hset (hclosing hpc)
  | other action =>
    obtain ⟨account, -, rfl, -⟩ := move_other hmove
    exact hk

theorem closes_move {m : Move} (h : Closes sent k s) (hmove : move s m = some t) :
    Closes sent k t := by
  have hchange := move_change hmove
  rcases h with ⟨hshut, hk⟩ | hshut
  · by_cases htake : m = .takeLast k
    · subst htake
      obtain ⟨pc, hpc, hmove⟩ := Option.bind_eq_some_iff.mp hmove
      cases hk.symm.trans hpc
      cases hmove
      refine .inr ?_
      rw [takeLast_world]
      exact (hshut.told (.event rfl)).withdraw True
    · exact .inl ⟨hshut.change hchange, move_closer hmove hk htake⟩
  · exact .inr (hshut.change hchange)

theorem Calm.shut {w : World} (h : Calm w) :
    Shut w.sent False nobody { w with closed := true } := by
  obtain ⟨hqueued, hsettled, hopen⟩ := h
  refine ⟨rfl, hqueued, rfl, fun j c hc _ => hsettled c (List.mem_of_getElem? hc), ?_, nofun⟩
  intro conn hconn
  have hlt : conn < w.conns.length := by
    by_contra hnot
    have hnone : w.conns[conn]? = none := List.getElem?_eq_none (Nat.le_of_not_lt hnot)
    change (w.conns[conn]?).any _ = true at hconn
    rw [hnone] at hconn
    cases hconn
  obtain ⟨⟨generation, _⟩, hcurrent, rfl⟩ := Option.map_eq_some_iff.mp (hopen conn hlt hconn)
  exact ⟨generation, hcurrent⟩

/-- Nothing of the account is left: no current connection, none that is open, and no frame but
these. -/
structure Gone (sent : List Outgoing) (w : World) : Prop where
  current : w.current = none
  conns : ∀ conn ∈ w.conns, conn.closed = true
  sent : w.sent = sent

theorem Shut.gone {sent : List Outgoing} {w : World} (h : Shut sent True nobody w) :
    Gone sent w := by
  refine ⟨h.withdrawn trivial, ?_, h.sent⟩
  intro c hc
  obtain ⟨conn, hconn⟩ := List.mem_iff_getElem?.mp hc
  by_contra hclosed
  have hopen : w.openConn conn = true := by
    rw [World.openConn, hconn]
    simpa using hclosed
  obtain ⟨generation, hcurrent⟩ := h.owned conn hopen
  cases (h.withdrawn trivial).symm.trans hcurrent

/-- If the account is calm when `close` sets the flag, then once that `close` has returned the
account has no connection and sends no frame, then and ever after. -/
theorem closed_stays_closed {s t u : Closable} {after : List Move} (later : List Move)
    {result : Except IoError Unit} (hcalm : Calm s.world)
    (hafter : runFrom move s (.close :: after) = some t)
    (hreturned : t.closers[s.closers.length]? = some (.returned result))
    (hlater : runFrom move t later = some u) :
    Gone s.world.sent t.world ∧ Gone s.world.sent u.world := by
  obtain ⟨s₁, hclose, hrest⟩ := Option.bind_eq_some_iff.mp hafter
  cases hclose
  have hcloses : Closes s.world.sent s.closers.length t := by
    refine runFrom_invariant (fun _ _ _ h hmove => closes_move h hmove) ?_ hrest
    exact .inl ⟨hcalm.shut, List.getElem?_concat_length⟩
  rcases hcloses with ⟨-, htaking⟩ | hshut
  · cases htaking.symm.trans hreturned
  · refine ⟨hshut.gone, ?_⟩
    have hend : Shut s.world.sent True nobody u.world :=
      runFrom_invariant (I := fun x => Shut s.world.sent True nobody x.world)
        (fun _ _ _ h hmove => h.change (move_change hmove)) hshut hlater
    exact hend.gone

/-- A connection that could not be authenticated outlasts `close`. -/
example : (runFrom move (opened sampleStart) [.other (.request (query "") sampleAmbient),
  go 0 .acquired,
    go 0 .connected, go 0 (.failed ⟨.permissionDenied, "invalid token"⟩), .close, .takeLast 0]).map
      (fun s =>
      (s.closers, s.world.openConn 0)) = some ([.returned (.ok ())], true) := by
  decide +kernel

def waiting : List Move :=
  [.other (.request (query "") sampleAmbient), go 0 .acquired, go 0 .connected, go 0 .authenticated,
    go 0 .enqueued, .other (.other (.write 0))]

theorem closed_stays_closed_sample : ∃ t, runFrom move (opened sampleStart)
    (waiting ++ [.close, .takeLast 0, .closeReturned 0 (.ok ()), go 0 (.failed reset),
      go 0 .finished]) = some t ∧
      t.world.sent.length = 1 ∧ t.world.current = none ∧ ∀ conn ∈ t.world.conns,
        conn.closed = true := by
  have hbefore : (runFrom move (opened sampleStart) waiting).map (fun s =>
      decide (Calm s.world ∧ s.world.sent.length = 1 ∧ s.closers = [])) = some true := by decide +kernel
  obtain ⟨s, hs, hcalm⟩ := Option.map_eq_some_iff.mp hbefore
  obtain ⟨hcalm, hsent, hnone⟩ := of_decide_eq_true hcalm
  have hafter : ((runFrom move (opened sampleStart) waiting).bind fun s => runFrom move s
      [.close, .takeLast 0, .closeReturned 0 (.ok ()), go 0 (.failed reset), go 0 .finished]).map
        Closable.closers = some [.returned (.ok ())] := by decide +kernel
  rw [hs] at hafter
  obtain ⟨t, ht, hclosers⟩ := Option.map_eq_some_iff.mp hafter
  have hreturned : t.closers[s.closers.length]? = some (.returned (.ok ())) := by
    rw [hnone, hclosers]
    rfl
  obtain ⟨hgone, -⟩ := closed_stays_closed [] hcalm ht hreturned rfl
  refine ⟨t, ?_, ?_, hgone.current, hgone.conns⟩
  · rw [runFrom_append, hs]
    exact ht
  · rw [hgone.sent]
    exact hsent

/-- `close` finds no connection and returns while a call is about to authenticate one. -/
def overtaken : List Move :=
  [.other (.request (query "") sampleAmbient), go 0 .acquired, go 0 .connected, .close, .takeLast 0]

/-- The call publishes its connection afterwards and sends its frame. -/
theorem close_overtaken : AccountClient.new sampleConfig = .ok sampleStart ∧
    ∃ s t, runFrom move (opened sampleStart) overtaken = some s ∧ s.closers = [.returned (.ok ())] ∧
      runFrom move s [go 0 .authenticated, go 0 .enqueued, .other (.other (.write 0))] = some t ∧
      s.world.sent = [] ∧ t.world.sent = [⟨0, 0, kindQuery, 1, blockOf 16 [], 120000, []⟩] ∧
      t.world.current = some (1, 0) ∧ t.world.openConn 0 = true := by
  have hbefore : (runFrom move (opened sampleStart) overtaken).map
      (fun s => (s.closers, s.world.sent)) = some ([.returned (.ok ())], []) := by decide +kernel
  have hafter : ((runFrom move (opened sampleStart) overtaken).bind fun s => runFrom move s
      [go 0 .authenticated, go 0 .enqueued, .other (.other (.write 0))]).map (fun t =>
        (t.world.sent, t.world.current, t.world.openConn 0)) =
      some ([⟨0, 0, kindQuery, 1, blockOf 16 [], 120000, []⟩], some (1, 0), true) := by decide +kernel
  obtain ⟨s, hs, hfacts⟩ := Option.map_eq_some_iff.mp hbefore
  rw [hs] at hafter
  obtain ⟨t, ht, hends⟩ := Option.map_eq_some_iff.mp hafter
  simp only [Prod.mk.injEq] at hfacts hends
  exact ⟨sampleStart_new, s, t, hs, hfacts.1, ht, hfacts.2, hends⟩

end Mst5Client.AccountShutdown
