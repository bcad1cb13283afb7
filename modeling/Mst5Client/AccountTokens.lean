import Mst5Client.AccountMoves
import Mst5Client.MachineRuns

set_option autoImplicit false

/-!
# Which token a request travels under

`MessengerCore::request_cbor` writes the token of a call into the credentials shared by all calls.
-/
namespace Mst5Client.AccountTokens
open ByteOrder AccountClient AccountMoves MachineRuns

def authOf (w : World) (conn : ℕ) : Option String := (w.conns[conn]?).map Conn.auth

def tokenOf (w : World) (i : ℕ) : Option String := (w.calls[i]?).map fun c => c.request.token

/-- Each frame sent for a call is on a connection whose AUTH was made with the call's token. -/
def Isolated (w : World) : Prop :=
  ∀ f ∈ w.sent, ∃ token, tokenOf w f.call = some token ∧ authOf w f.conn = some token

def inFlight : Pc → Bool
  | .returned _ | .dropped => false
  | _ => true

/-- A call may replace the credentials only while no other call is between its own
`set_credentials` and its return. -/
def Unhurried (w : World) : Label → Prop
  | .call request _ => w.credentialsChange request.token = true →
      ∀ call ∈ w.calls, inFlight call.pc = false
  | _ => True

instance (w : World) (l : Label) : Decidable (Unhurried w l) :=
  match l with
  | .call request _ => inferInstanceAs (Decidable (w.credentialsChange request.token = true →
      ∀ call ∈ w.calls, inFlight call.pc = false))
  | .resume .. | .drop _ | .write _ | .lose _ | .close => isTrue trivial

def PcOk (shared : String) (auth : ℕ → Option String) (token : String) : Pc → Prop
  | .returned _ | .dropped => True
  | .authenticating conn | .requesting _ conn _ _ _ => token = shared ∧ auth conn = some token
  | _ => token = shared

structure Consistent (w : World) : Prop where
  current : ∀ generation conn, w.current = some (generation, conn) →
    authOf w conn = some w.credentials.token
  calls : ∀ call ∈ w.calls, PcOk w.credentials.token (authOf w) call.request.token call.pc
  frames : ∀ f ∈ w.queued ++ w.sent, ∃ call, w.calls[f.call]? = some call ∧
    authOf w f.conn = some call.request.token

structure Watch where
  want : ℕ → Call → Option String
  live : Prop
  shared : Option String
  stable : ∀ i c d, c.request.token = d.request.token → want i c = want i d
  covers : live ∨ ∀ i c, want i c = none

structure Tracked (W : Watch) (w : World) : Prop where
  shared : ∀ token, W.shared = some token → w.credentials.token = token
  current : W.live → ∀ generation conn, w.current = some (generation, conn) →
    authOf w conn = some w.credentials.token
  calls : ∀ i call token, w.calls[i]? = some call → W.want i call = some token →
    PcOk w.credentials.token (authOf w) token call.pc
  frames : ∀ f ∈ w.queued ++ w.sent, ∃ call, w.calls[f.call]? = some call ∧
    ∀ token, W.want f.call call = some token → authOf w f.conn = some token

def Owns (W : Watch) (w : World) (i : ℕ) : Prop :=
  ∀ call token, w.calls[i]? = some call → W.want i call = some token → token = w.credentials.token

def Usable (W : Watch) (w : World) (i conn : ℕ) : Prop :=
  ∀ call token, w.calls[i]? = some call → W.want i call = some token → authOf w conn = some token

theorem authOf_modify (w : World) (conn : ℕ) {f : Conn → Conn} (hf : ∀ c, (f c).auth = c.auth) :
    authOf { w with conns := w.conns.modify conn f } = authOf w := by
  funext k
  simp only [authOf, List.getElem?_modify, Option.map_eq_map, Option.map_map]
  congr 1
  funext c
  by_cases h : conn = k
  · simp [h, hf]
  · simp [h]

section Updates
variable {W : Watch} {w : World} {i : ℕ}

theorem Tracked.emit (h : Tracked W w) (e : AccountEvent) : Tracked W (w.emit e) :=
  ⟨h.shared, h.current, h.calls, h.frames⟩

theorem Tracked.lock (h : Tracked W w) : Tracked W (w.lock i) :=
  ⟨h.shared, h.current, h.calls, h.frames⟩

theorem Tracked.unlock (h : Tracked W w) : Tracked W w.unlock :=
  ⟨h.shared, h.current, h.calls, h.frames⟩

theorem Tracked.modifyConn (h : Tracked W w) (conn : ℕ) {f : Conn → Conn}
    (hf : ∀ c, (f c).auth = c.auth) : Tracked W { w with conns := w.conns.modify conn f } := by
  have ha := authOf_modify w conn hf
  refine ⟨h.shared, ?_, ?_, ?_⟩
  · rw [ha]
    exact h.current
  · rw [ha]
    exact h.calls
  · rw [ha]
    exact h.frames

theorem Tracked.closeConn (h : Tracked W w) (conn : ℕ) : Tracked W (w.closeConn conn) :=
  h.modifyConn conn fun _ => rfl

theorem Tracked.withoutCurrent (h : Tracked W w) : Tracked W { w with current := none } :=
  ⟨h.shared, fun _ _ _ hc => (by cases hc), h.calls, h.frames⟩

theorem Tracked.withdrawn (h : Tracked W w) : Tracked W (withdrawn w) := by
  unfold AccountMoves.withdrawn
  split
  · exact h.withoutCurrent.closeConn _
  · exact h.withoutCurrent

theorem Tracked.update (h : Tracked W w) {f : Call → Call}
    (hf : ∀ call, w.calls[i]? = some call → (f call).request.token = call.request.token ∧
      ∀ token, W.want i call = some token → PcOk w.credentials.token (authOf w) token (f call).pc) :
    Tracked W (w.update i f) := by
  refine ⟨h.shared, h.current, ?_, ?_⟩
  · intro k call token hcall hwant
    refine EachCall.update (P := fun k c => ∀ token, W.want k c = some token →
      PcOk w.credentials.token (authOf w) token c.pc) ?_ ?_ k call hcall token hwant
    · exact fun k c hc _ token => h.calls k c token hc
    · intro c hc token hwant
      obtain ⟨htoken, hpc⟩ := hf c hc
      exact hpc token (W.stable i _ _ htoken ▸ hwant)
  · intro g hg
    obtain ⟨call, hcall, hauth⟩ := h.frames g hg
    change ∃ c, (w.calls.modify i f)[g.call]? = some c ∧ _
    rw [List.getElem?_modify, hcall]
    by_cases hik : i = g.call
    · refine ⟨f call, by simp [hik], ?_⟩
      rw [W.stable _ _ _ (hf call (hik ▸ hcall)).1]
      exact hauth
    · exact ⟨call, by simp [hik], hauth⟩

theorem Tracked.setPc (h : Tracked W w) {pc : Pc}
    (hpc : ∀ call token, w.calls[i]? = some call → W.want i call = some token →
      PcOk w.credentials.token (authOf w) token pc) : Tracked W (w.setPc i pc) :=
  h.update fun call hcall => ⟨rfl, fun token => hpc call token hcall⟩

theorem Tracked.usable (h : Tracked W w) (ho : Owns W w i) {generation conn : ℕ}
    (hcur : w.current = some (generation, conn)) : Usable W w i conn := by
  intro call token hcall hwant
  rcases W.covers with hlive | hnone
  · rw [ho call token hcall hwant]
    exact h.current hlive generation conn hcur
  · exact absurd (hwant.symm.trans (hnone i call)) (Option.some_ne_none token)

variable {v : World} {call : Call} {a : Ambient} {shared token : String} {auth : ℕ → Option String}
  {pc : Pc}

theorem pcOk_parked (hpc : parked pc = true) (h : token = shared) : PcOk shared auth token pc := by
  cases pc with
  | sleeping => exact h
  | returned result => trivial
  | dropped => trivial
  | _ => cases hpc

theorem PcOk.token_eq (h : PcOk shared auth token pc) (hpc : inFlight pc = true) :
    token = shared := by
  cases pc with
  | authenticating conn => exact h.1
  | requesting generation conn nonce deadlineMs enqueued => exact h.1
  | returned result => cases hpc
  | dropped => cases hpc
  | _ => exact h

theorem inFlight_of_roams (hpc : roams pc = true) : inFlight pc = true := by
  cases pc with
  | returned result => cases hpc
  | dropped => cases hpc
  | _ => rfl

theorem inFlight_of_connects (hpc : connects pc = true) : inFlight pc = true := by
  cases pc with
  | returned result => cases hpc
  | dropped => cases hpc
  | _ => rfl

theorem Tracked.owns (h : Tracked W w) (hcall : w.calls[i]? = some call)
    (hpc : inFlight call.pc = true) : Owns W w i := by
  intro c token hc hwant
  obtain rfl := Option.some.inj (hcall.symm.trans hc)
  exact (h.calls i call token hcall hwant).token_eq hpc

theorem Tracked.told (h : Tracked W w) (ho : Owns W w i) (hu : Told w v) :
    Tracked W v ∧ Owns W v i := by
  cases hu with
  | nothing => exact ⟨h, ho⟩
  | event he => exact ⟨h.emit _, ho⟩

theorem Tracked.ends (h : Tracked W w) (ho : Owns W w i) {generation : Option ℕ}
    (he : Ends w i generation v) : Tracked W v := by
  cases he with
  | parks hu hf =>
    obtain ⟨htold, howned⟩ := h.told ho hu
    refine htold.update fun c hc => ⟨congrArg Request.token (hf c).1, fun token hwant => ?_⟩
    exact pcOk_parked (hf c).2 (howned c token hc hwant)
  | invalidates hcurrent => exact (h.withoutCurrent.closeConn _).setPc ho

theorem Tracked.begins (h : Tracked W w) (ho : Owns W w i) (hb : Begins w i call a v) :
    Tracked W v := by
  cases hb with
  | asks hcurrent hprepare =>
    exact h.setPc fun c token hc hwant => ⟨ho c token hc hwant, h.usable ho hcurrent c token hc hwant⟩
  | fails hcurrent he => exact h.ends ho he

theorem Tracked.enters (h : Tracked W w) (ho : Owns W w i) (he : Enters w i call a v) :
    Tracked W v := by
  cases he with
  | ends he => exact h.ends ho he
  | begins hopen hb => exact h.begins ho hb
  | locks hopen => exact h.setPc ho

theorem Tracked.leaves (h : Tracked W w) (hcall : w.calls[i]? = some call) (hl : Leaves w i call v) :
    Tracked W v := by
  cases hl with
  | idle hpc he => exact h.ends (h.owns hcall (inFlight_of_roams hpc)) he
  | connecting hpc he => exact h.unlock.ends (h.owns hcall (inFlight_of_connects hpc)) he

theorem Tracked.enterRequest (h : Tracked W w) (ho : Owns W w i) (hcall : w.calls[i]? = some call)
    (hpc : ∀ token, W.want i call = some token → PcOk w.credentials.token (authOf w) token call.pc) :
    Tracked W (w.enterRequest i call a) := by
  unfold World.enterRequest
  split
  · exact h.setPc fun _ _ _ _ => trivial
  · rename_i next hnext
    obtain ⟨requestNonce, rfl, -, -⟩ := drawn_eq_ok hnext
    have hupdate := h.update (i := i) (f := fun _ => { call with
      request := { call.request with options := { call.request.options with requestNonce } }
      started := a.instant }) ?_
    · refine hupdate.enters ?_ enterLoop_enters
      intro c token hc hwant
      change (w.calls.modify i _)[i]? = some c at hc
      rw [List.getElem?_modify, hcall] at hc
      simp only [↓reduceIte, Option.map_eq_map, Option.map_some, Option.some.injEq] at hc
      rw [← hc] at hwant
      exact ho call token hcall (hwant ▸ W.stable i _ _ rfl)
    · intro c hc
      rw [hcall, Option.some.injEq] at hc
      subst hc
      exact ⟨rfl, hpc⟩

theorem Tracked.connectOk (h : Tracked W w) (ho : Owns W w i) : Tracked W (w.connectOk i) := by
  have hkeep : ∀ conn token, authOf w conn = some token →
      authOf { w with conns := w.conns ++ [⟨w.credentials.token, false, false⟩] } conn =
        some token := by
    intro conn token hc
    obtain ⟨c, hget, rfl⟩ := Option.map_eq_some_iff.mp hc
    simp only [authOf]
    rw [getElem?_concat_of_some hget]
    rfl
  have hnew : authOf { w with conns := w.conns ++ [⟨w.credentials.token, false, false⟩] }
      w.conns.length = some w.credentials.token := by
    simp [authOf]
  have hbase : Tracked W { w with conns := w.conns ++ [⟨w.credentials.token, false, false⟩] } := by
    refine ⟨h.shared, fun hlive generation conn hc =>
      hkeep _ _ (h.current hlive generation conn hc), ?_, ?_⟩
    · intro k c token hc hwant
      have hok := h.calls k c token hc hwant
      cases hpc : c.pc <;> simp only [hpc, PcOk] at hok ⊢
      case authenticating conn => exact ⟨hok.1, hkeep _ _ hok.2⟩
      case requesting conn _ _ _ => exact ⟨hok.1, hkeep _ _ hok.2⟩
      all_goals exact hok
    · intro f hf
      obtain ⟨c, hc, hauth⟩ := h.frames f hf
      exact ⟨c, hc, fun token hwant => hkeep _ _ (hauth token hwant)⟩
  refine hbase.setPc fun c token hc hwant => ?_
  obtain rfl := ho c token hc hwant
  exact ⟨rfl, hnew⟩

theorem Tracked.published (h : Tracked W w) {conn : ℕ}
    (hauth : W.live → authOf w conn = some w.credentials.token) : Tracked W (published w conn) := by
  have hbase := h.modifyConn conn (f := fun c => { c with principal := true }) fun _ => rfl
  have hsame := authOf_modify w conn (f := fun c => { c with principal := true })
    fun _ => rfl
  refine ⟨h.shared, ?_, hbase.calls, hbase.frames⟩
  intro hlive _ c hc
  cases hc
  exact (congrFun hsame conn).trans (hauth hlive)

theorem Tracked.spawn (h : Tracked W w) (hpc : ∀ token, W.want w.calls.length call = some token →
      PcOk w.credentials.token (authOf w) token call.pc) : Tracked W (w.spawn call) := by
  refine ⟨h.shared, h.current, ?_, ?_⟩
  · intro k c token hc hwant
    exact EachCall.spawn (P := fun k c => ∀ token, W.want k c = some token →
      PcOk w.credentials.token (authOf w) token c.pc) (fun k c hc token => h.calls k c token hc) hpc
        k c hc token hwant
  · intro f hf
    obtain ⟨c, hc, hauth⟩ := h.frames f hf
    exact ⟨c, getElem?_concat_of_some hc call, hauth⟩

theorem Tracked.spawnRequest (h : Tracked W w)
    (htoken : ∀ token, W.want w.calls.length call = some token → token = w.credentials.token)
    (hpc : call.pc = .closing) : Tracked W ((w.spawn call).enterRequest w.calls.length call a) := by
  have hfirst : ∀ token, W.want w.calls.length call = some token →
      PcOk w.credentials.token (authOf w) token call.pc := by
    rw [hpc]
    exact htoken
  refine (h.spawn hfirst).enterRequest ?_ (spawn_getElem? w call) hfirst
  intro c token hc hwant
  rw [spawn_getElem?, Option.some.injEq] at hc
  exact htoken token (hc ▸ hwant)

theorem Tracked.resumed (h : Tracked W w) (hcall : w.calls[i]? = some call) {outcome : Outcome}
    (hfresh : ∀ conn, call.pc = .authenticating conn → outcome = .authenticated → W.live →
      authOf w conn = some w.credentials.token) (hr : Resumed w i call a outcome v) :
    Tracked W v := by
  have hok := fun token => h.calls i call token hcall
  have howns := fun hpc => h.owns hcall hpc
  cases hr with
  | entered hpc => exact h.enterRequest (howns (by rw [hpc]; rfl)) hcall hok
  | found hpc hb => exact h.begins (howns (by rw [hpc]; rfl)) hb
  | locked hpc hfree hdead =>
    have ho := howns (by rw [hpc]; rfl)
    exact h.lock.setPc ho
  | connected hpc => exact h.connectOk (howns (by rw [hpc]; rfl))
  | published hpc hb =>
    have ho := howns (by rw [hpc]; rfl)
    exact (h.published (hfresh _ hpc rfl)).begins ho hb
  | enqueued hpc =>
    rw [hpc] at hok
    refine Tracked.setPc ?_ ?_
    · refine ⟨h.shared, h.current, h.calls, ?_⟩
      intro f hf
      simp only [List.append_assoc, List.mem_append, List.mem_singleton] at hf
      rcases hf with hf | rfl | hf
      · exact h.frames f (List.mem_append_left _ hf)
      · exact ⟨call, hcall, fun token hwant => (hok token hwant).2⟩
      · exact h.frames f (List.mem_append_right _ hf)
    · intro c token hc hwant
      obtain rfl := Option.some.inj (hcall.symm.trans hc)
      exact hok token hwant
  | looped hpc he => exact h.enters (howns (by rw [hpc]; rfl)) he
  | leaves houtcome hl => exact h.leaves hcall hl

end Updates

def awaitsAuth (w : World) (i : ℕ) : Option ℕ :=
  (w.calls[i]?).bind fun call =>
    match call.pc with
    | .authenticating conn => some conn
    | _ => none

theorem awaitsAuth_eq {w : World} {i conn : ℕ} {call : Call} (hcall : w.calls[i]? = some call)
    (hpc : call.pc = .authenticating conn) : awaitsAuth w i = some conn := by
  simp only [awaitsAuth, hcall, Option.bind_some, hpc]

/-- A connection becomes the current one only if its token is still the shared one. -/
def Publishes (w : World) : Label → Prop
  | .resume i .authenticated _ => ∀ conn ∈ awaitsAuth w i, authOf w conn = some w.credentials.token
  | _ => True

theorem Tracked.step {W : Watch} {w v : World} {l : Label} (h : Tracked W w)
    (hl : ∀ request a, l ≠ .call request a) (hfresh : W.live → Publishes w l)
    (hv : step w l = some v) : Tracked W v := by
  cases l with
  | call request a => exact absurd rfl (hl request a)
  | resume i outcome a =>
    obtain ⟨call, hcall, hv⟩ := Option.bind_eq_some_iff.mp hv
    refine h.resumed hcall (fun conn hpc hout hlive => ?_) (resume_resumed hv)
    subst hout
    exact hfresh hlive conn (awaitsAuth_eq hcall hpc)
  | drop i =>
    obtain ⟨call, hcall, hv⟩ := Option.bind_eq_some_iff.mp hv
    exact h.leaves hcall (dropCall_leaves hv)
  | write k =>
    obtain ⟨frame, hframe, rfl⟩ := Option.map_eq_some_iff.mp hv
    exact ⟨h.shared, h.current, h.calls, fun f hf => h.frames f (mem_of_written hframe f hf)⟩
  | lose conn =>
    cases hv
    exact h.closeConn conn
  | close =>
    have hclosed : Tracked W { w with closed := true } := ⟨h.shared, h.current, h.calls, h.frames⟩
    simp only [AccountClient.step, takeCurrent_none] at hv
    cases hcurrent : w.current with
    | none =>
      rw [hcurrent] at hv
      exact Option.some.inj hv ▸ hclosed.withoutCurrent.emit _
    | some published =>
      rw [hcurrent] at hv
      exact Option.some.inj hv ▸ (hclosed.withoutCurrent.emit _).closeConn _

theorem new_tracked {config : AccountConfig} {w : World} (h : AccountClient.new config = .ok w)
    {W : Watch} (hshared : W.shared = none) : Tracked W w := by
  unfold AccountClient.new at h
  split_ifs at h
  cases h
  exact ⟨by simp [hshared], by simp, by simp, by simp⟩

variable {w : World}

def everyCall : Watch where
  want _ call := some call.request.token
  live := True
  shared := none
  stable _ _ _ h := congrArg some h
  covers := Or.inl trivial

theorem consistent_iff : Consistent w ↔ Tracked everyCall w := by
  constructor
  · intro h
    refine ⟨fun _ hnone => (by cases hnone), fun _ => h.current, ?_, ?_⟩
    · intro i call token hcall hwant
      obtain rfl := Option.some.inj hwant
      exact h.calls call (List.mem_of_getElem? hcall)
    · intro f hf
      obtain ⟨call, hcall, hauth⟩ := h.frames f hf
      exact ⟨call, hcall, fun _ hwant => Option.some.inj hwant ▸ hauth⟩
  · intro h
    refine ⟨h.current trivial, ?_, ?_⟩
    · intro call hcall
      obtain ⟨i, hi⟩ := List.mem_iff_getElem?.mp hcall
      exact h.calls i call _ hi rfl
    · intro f hf
      obtain ⟨call, hcall, hauth⟩ := h.frames f hf
      exact ⟨call, hcall, hauth _ rfl⟩

theorem Consistent.replaceCredentials (h : Consistent w)
    (hidle : ∀ c ∈ w.calls, inFlight c.pc = false) (credentials : Credentials) :
    Consistent { w with credentials, current := none } := by
  refine ⟨fun _ _ hc => (by cases hc), ?_, h.frames⟩
  intro c hc
  have hdone := hidle c hc
  cases hpc : c.pc <;> simp_all [inFlight, PcOk]

theorem Consistent.startCall (h : Consistent w) (request : Request) {a : Ambient}
    (hallowed : Unhurried w (.call request a)) : Consistent (w.startCall request a) := by
  unfold World.startCall
  by_cases hchange : w.credentialsChange request.token = true
  · have hnew := consistent_iff.mp (h.replaceCredentials (hallowed hchange)
      { w.credentials with token := request.token, clientName := messengerName })
    simp only [hchange, ↓reduceIte, World.takeCurrent, Option.isSome_none, Bool.false_eq_true,
      false_and]
    rcases w.current with _ | ⟨generation, conn⟩
    · exact consistent_iff.mpr (hnew.spawnRequest (fun _ hwant => (Option.some.inj hwant).symm) rfl)
    · exact consistent_iff.mpr ((hnew.closeConn conn).spawn fun _ hwant => (Option.some.inj hwant).symm)
  · simp only [hchange, Bool.false_eq_true, ↓reduceIte]
    refine consistent_iff.mpr ((consistent_iff.mp h).spawnRequest (fun _ hwant => ?_) rfl)
    simp only [World.credentialsChange, decide_eq_true_eq, not_or, not_not] at hchange
    exact (Option.some.inj hwant).symm.trans hchange.1.symm

theorem step_consistent (w : World) (l : Label) (v : World) (h : Consistent w) (hl : Unhurried w l)
    (hv : step w l = some v) : Consistent v := by
  by_cases hcall : ∃ request a, l = .call request a
  · obtain ⟨request, a, rfl⟩ := hcall
    cases hv
    exact h.startCall request hl
  · have hother : ∀ request a, l ≠ .call request a := fun request a heq => hcall ⟨request, a, heq⟩
    refine consistent_iff.mpr ((consistent_iff.mp h).step hother (fun _ => ?_) hv)
    -- a call under way has the shared token
    cases l with
    | resume i outcome a =>
      cases outcome with
      | authenticated =>
        intro conn hconn
        obtain ⟨call, hget, hpc⟩ := Option.bind_eq_some_iff.mp hconn
        have hok := h.calls call (List.mem_of_getElem? hget)
        cases hp : call.pc <;> simp only [hp, Option.some.injEq, reduceCtorEq] at hpc
        subst hpc
        rw [hp] at hok
        exact hok.1 ▸ hok.2
      | _ => trivial
    | _ => trivial

theorem new_consistent {config : AccountConfig} {w : World} (h : AccountClient.new config = .ok w) :
    Consistent w :=
  consistent_iff.mpr (new_tracked h rfl)

/-- In every run in which credentials are replaced only while no other call is under way,
each frame travels under the token of its call, in every state reached. -/
theorem tokens_isolated {config : AccountConfig} {w₀ w : World} {labels : List Label}
    (hnew : AccountClient.new config = .ok w₀) (hallowed : Allows step Unhurried w₀ labels)
    (hrun : runFrom step w₀ labels = some w) : Isolated w := by
  have h := run_invariant step_consistent (new_consistent hnew) hallowed hrun
  intro f hf
  obtain ⟨call, hcall, hauth⟩ := h.frames f (List.mem_append_right _ hf)
  exact ⟨call.request.token, by rw [tokenOf, hcall]; rfl, hauth⟩

def sampleConfig : AccountConfig := ⟨"127.0.0.1:1", "", messengerName, "", 120000, 500, 60000⟩

def sampleAmbient : Ambient := ⟨0, 0, .ok (blockOf 16 [1]), none⟩

def query (token : String) : Request := ⟨token, kindQuery, 1, [], ⟨none, none⟩⟩

def sampleStart : World :=
  ⟨sampleConfig, ⟨"", messengerName, ""⟩, none, none, 0, false, [], [], [], [], []⟩

theorem sampleStart_new : AccountClient.new sampleConfig = .ok sampleStart := by rfl

def connectAndAsk (i : ℕ) : List Label :=
  [.resume i .acquired sampleAmbient, .resume i .connected sampleAmbient,
    .resume i .authenticated sampleAmbient, .resume i .enqueued sampleAmbient, .write 0,
    .resume i (.answered ⟨4, []⟩) sampleAmbient]

def sequential : List Label :=
  .call (query "a") sampleAmbient :: connectAndAsk 0 ++
    .call (query "b") sampleAmbient :: .resume 1 .finished sampleAmbient :: connectAndAsk 1

/-- Call 1 replaces the credentials while call 0 waits for its connection. -/
def crossing : List Label :=
  [.call (query "a") sampleAmbient, .resume 0 .acquired sampleAmbient,
    .call (query "b") sampleAmbient, .resume 0 .connected sampleAmbient,
    .resume 0 .authenticated sampleAmbient, .resume 0 .enqueued sampleAmbient, .write 0]

theorem tokens_isolated_sequential :
    ∃ w, runFrom step sampleStart sequential = some w ∧ Isolated w := by
  have hallowed : Allows step Unhurried sampleStart sequential := by decide +kernel
  have hruns : (runFrom step sampleStart sequential).isSome := by decide +kernel
  obtain ⟨w, hw⟩ := Option.isSome_iff_exists.mp hruns
  exact ⟨w, hw, tokens_isolated sampleStart_new hallowed hw⟩

/-- The query of the first call goes out on a connection authenticated for the second. -/
theorem tokens_cross :
    AccountClient.new sampleConfig = .ok sampleStart ∧
      ∃ w, runFrom step sampleStart crossing = some w ∧ ¬ Isolated w := by
  have hfacts : (runFrom step sampleStart crossing).map (fun w =>
      (w.sent.map (fun f => (f.call, f.conn)), tokenOf w 0, authOf w 0)) =
        some ([(0, 0)], some "a", some "b") := by
    decide +kernel
  obtain ⟨w, hw, hfacts⟩ := Option.map_eq_some_iff.mp hfacts
  refine ⟨sampleStart_new, w, hw, ?_⟩
  intro hisolated
  simp only [Prod.mk.injEq] at hfacts
  obtain ⟨hsent, htoken, hauth⟩ := hfacts
  obtain ⟨f, hf, hends⟩ := List.mem_map.mp (hsent ▸ List.mem_singleton_self (0, 0))
  simp only [Prod.mk.injEq] at hends
  obtain ⟨token, hcall, hconn⟩ := hisolated f hf
  rw [hends.1, htoken] at hcall
  rw [hends.2, hauth, ← hcall] at hconn
  exact absurd hconn (by decide)

end Mst5Client.AccountTokens
