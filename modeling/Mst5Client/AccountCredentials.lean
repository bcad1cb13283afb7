import Mst5Client.AccountTokens

set_option autoImplicit false

/-!
# When a change of credentials takes effect

A connection is authenticated with the credentials that `connected` read, and becomes the current
one only after the AUTH exchange.
-/
namespace Mst5Client.AccountCredentials
open AccountClient MachineRuns AccountTokens AccountTasks
open AccountMoves (invalidate_world withdrawn_current getElem?_concat_of_some)

def isTaking : SetterPc → Bool
  | .taking => true
  | _ => false

def hasReturned : SetterPc → Bool
  | .returned (.ok ()) => true
  | _ => false

/-- None of these `set_credentials` calls is between its two sections, where the connection that
stands for the old credentials is still the current one. -/
def Settled (s : Account) (among : ℕ → Prop) : Prop :=
  ∀ k x, among k → s.setters[k]? = some x → isTaking x.pc = false

/-- No credentials are replaced between the time `connected` reads them and the time it publishes
the connection, and a `set_credentials` that has nothing to change finds none half done. -/
def Steady (s : Account) : Action → Prop
  | .other l => Publishes s.world l
  | .setCredentials token clientName =>
      credentialsDiffer s.world token clientName = false → ∀ x ∈ s.setters, isTaking x.pc = false
  | _ => True

/-- The action does not replace the shared credentials. -/
def KeepsCredentials (_ : Account) : Action → Prop
  | .setCredentials _ _ => False
  | _ => True

def nobody (live : Prop) (shared : Option String) : Watch where
  want _ _ := none
  live := live
  shared := shared
  stable _ _ _ _ := rfl
  covers := Or.inr fun _ _ => rfl

def callsFrom (n : ℕ) (token : String) : Watch where
  want i _ := if n ≤ i then some token else none
  live := True
  shared := some token
  stable _ _ _ _ := rfl
  covers := Or.inl trivial

theorem tracked_nobody {W : Watch} {w : World} (h : Tracked W w) {live : Prop}
    {shared : Option String} (hlive : live → W.live ∨ w.current = none)
    (hshared : ∀ token, shared = some token → w.credentials.token = token) :
    Tracked (nobody live shared) w := by
  refine ⟨hshared, fun hl generation conn hc => ?_, fun _ _ _ _ hnone => (by cases hnone),
    fun f hf => ?_⟩
  · rcases hlive hl with hlive | hempty
    · exact h.current hlive generation conn hc
    · rw [hempty] at hc
      cases hc
  · obtain ⟨call, hcall, -⟩ := h.frames f hf
    exact ⟨call, hcall, fun _ hnone => (by cases hnone)⟩

theorem tracked_replaced {live : Prop} {shared : Option String} {w : World}
    (h : Tracked (nobody live shared) w) (credentials : Credentials) :
    Tracked (nobody False none) { w with credentials } :=
  ⟨fun _ hnone => (by cases hnone), fun hfalse => hfalse.elim,
    fun _ _ _ _ hnone => (by cases hnone), h.frames⟩

theorem tracked_callsFrom {w : World} {token : String} (h : Tracked (nobody True (some token)) w) :
    Tracked (callsFrom w.calls.length token) w := by
  refine ⟨h.shared, h.current, fun i call other hcall hwant => ?_, fun f hf => ?_⟩
  · have hlt := (List.getElem?_eq_some_iff.mp hcall).1
    simp only [callsFrom, if_neg (Nat.not_le.mpr hlt), reduceCtorEq] at hwant
  · obtain ⟨call, hcall, -⟩ := h.frames f hf
    have hlt := (List.getElem?_eq_some_iff.mp hcall).1
    refine ⟨call, hcall, fun other hwant => ?_⟩
    simp only [callsFrom, if_neg (Nat.not_le.mpr hlt), reduceCtorEq] at hwant

variable {W : Watch} {s s' : Account}
variable {action : Action}

theorem tracked_act (h : Tracked W s.world) (hkeeps : KeepsCredentials s action)
    (hsteady : W.live → Steady s action)
    (hwant : ∀ i call token, W.want i call = some token → W.shared = some token)
    (hstep : act s action = some s') : Tracked W s'.world := by
  cases action with
  | request request a =>
    obtain rfl := Option.some.inj hstep
    exact h.spawnRequest (fun token ht => (h.shared token (hwant _ _ _ ht)).symm) rfl
  | setCredentials token clientName => exact hkeeps.elim
  | takeCurrent k =>
    obtain ⟨x, -, hx⟩ := Option.bind_eq_some_iff.mp hstep
    cases hpc : x.pc <;> simp only [hpc, reduceCtorEq, Option.some.injEq] at hx
    rw [← hx, invalidate_world]
    exact h.withdrawn
  | closeFinished k =>
    obtain ⟨x, -, hx⟩ := Option.bind_eq_some_iff.mp hstep
    cases hpc : x.pc <;> simp only [hpc, reduceCtorEq, Option.some.injEq] at hx
    exact hx ▸ h
  | dropSetter k =>
    obtain ⟨x, -, hx⟩ := Option.bind_eq_some_iff.mp hstep
    cases hpc : x.pc <;> simp only [hpc, reduceCtorEq, Option.some.injEq] at hx
    exact hx ▸ h
  | other l =>
    have hother : ∀ request a, l ≠ .call request a := by
      rintro request a rfl
      cases hstep
    have hmap : (AccountClient.step s.world l).map (fun w => { s with world := w }) = some s' := by
      cases l <;> first | exact hstep | cases hstep
    obtain ⟨w, hw, rfl⟩ := Option.map_eq_some_iff.mp hmap
    exact h.step hother hsteady hw

theorem setters_step (hkeeps : KeepsCredentials s action) (hstep : act s action = some s') :
    s'.setters = s.setters ∨ ∃ k x pc, s.setters[k]? = some x ∧ isTaking pc = false ∧
      s'.setters = s.setters.modify k (fun x => { x with pc }) ∧
      (∀ e, x.pc ≠ .returned (.error e)) ∧ (isTaking x.pc = false ∨ s'.world.current = none) := by
  cases action with
  | request request a => exact Or.inl (Option.some.inj hstep ▸ rfl)
  | setCredentials token clientName => exact hkeeps.elim
  | takeCurrent k =>
    obtain ⟨x, hx, hpc⟩ := Option.bind_eq_some_iff.mp hstep
    have hcurrent : (s.invalidate k).world.current = none := by
      rw [invalidate_world, withdrawn_current]
    cases hp : x.pc <;> simp only [hp, reduceCtorEq, Option.some.injEq] at hpc
    subst hpc
    have hmodified : ∃ pc, isTaking pc = false ∧
        (s.invalidate k).setters = s.setters.modify k (fun x => { x with pc }) := by
      unfold Account.invalidate
      rcases s.world.takeCurrent none with ⟨w, _ | conn⟩
      · exact ⟨_, rfl, rfl⟩
      · exact ⟨_, rfl, rfl⟩
    obtain ⟨pc, hpc, hmod⟩ := hmodified
    exact Or.inr ⟨k, x, pc, hx, hpc, hmod, by simp [hp], Or.inr hcurrent⟩
  | closeFinished k =>
    obtain ⟨x, hx, hpc⟩ := Option.bind_eq_some_iff.mp hstep
    cases hp : x.pc <;> simp only [hp, reduceCtorEq, Option.some.injEq] at hpc
    subst hpc
    exact Or.inr ⟨k, x, _, hx, rfl, rfl, by simp [hp], Or.inl (by rw [hp]; rfl)⟩
  | dropSetter k =>
    obtain ⟨x, hx, hpc⟩ := Option.bind_eq_some_iff.mp hstep
    cases hp : x.pc <;> simp only [hp, reduceCtorEq, Option.some.injEq] at hpc
    subst hpc
    exact Or.inr ⟨k, x, _, hx, rfl, rfl, by simp [hp], Or.inl (by rw [hp]; rfl)⟩
  | other l =>
    left
    cases l <;> simp only [act, reduceCtorEq, Option.map_eq_some_iff] at hstep
    all_goals
      obtain ⟨w, -, rfl⟩ := hstep
      rfl

theorem settled_step (hkeeps : KeepsCredentials s action) (hstep : act s action = some s')
    {among : ℕ → Prop} (h : Settled s' among) : Settled s among ∨ s'.world.current = none := by
  rcases setters_step hkeeps hstep with hsame | ⟨k, x, pc, hx, -, hmod, -, hdone | hnone⟩
  · exact Or.inl fun j y hj hy => h j y hj (hsame ▸ hy)
  · left
    intro j y hj hy
    by_cases hjk : k = j
    · subst hjk
      rw [hx, Option.some.injEq] at hy
      exact hy ▸ hdone
    · refine h j y hj ?_
      rw [hmod, List.getElem?_modify, hy]
      simp [hjk]
  · exact Or.inr hnone

/-- The current connection stands for the shared credentials once the given setters are done. -/
def Standing (among : ℕ → Prop) (shared : Option String) (s : Account) : Prop :=
  Tracked (nobody (Settled s among) shared) s.world

theorem Standing.act {among : ℕ → Prop} {shared : Option String} (h : Standing among shared s)
    (hkeeps : KeepsCredentials s action) (hsteady : Steady s action)
    (hstep : act s action = some s') : Standing among shared s' := by
  have hnext := tracked_act h hkeeps (fun _ => hsteady) (fun _ _ _ hnone => (by cases hnone)) hstep
  exact tracked_nobody hnext (settled_step hkeeps hstep) hnext.shared

theorem setCredentials_cases (s : Account) (token clientName : String) :
    (∃ e, s.setCredentials token clientName =
        { s with setters := s.setters ++ [⟨token, clientName, .returned (.error e)⟩] }) ∨
      (∃ credentials : Credentials, credentials.token = token ∧ s.setCredentials token clientName =
        ⟨{ s.world with credentials }, s.setters ++ [⟨token, clientName, .taking⟩]⟩) ∨
      (credentialsDiffer s.world token clientName = false ∧ s.world.credentials.token = token ∧
        s.setCredentials token clientName =
          { s with setters := s.setters ++ [⟨token, clientName, .returned (.ok ())⟩] }) := by
  unfold Account.setCredentials
  dsimp only
  split_ifs with hname hdiffers
  · exact Or.inl ⟨_, rfl⟩
  · exact Or.inr (Or.inl ⟨_, rfl, rfl⟩)
  · have hsame : credentialsDiffer s.world token clientName = false := by simpa using hdiffers
    refine Or.inr (Or.inr ⟨hsame, ?_, rfl⟩)
    simp only [credentialsDiffer, decide_eq_false_iff_not, not_or, not_not] at hsame
    exact hsame.1

theorem standing_step (s : Account) (action : Action) (s' : Account)
    (h : Standing (fun _ => True) none s) (hsteady : Steady s action)
    (hstep : act s action = some s') : Standing (fun _ => True) none s' := by
  by_cases hset : ∃ token clientName, action = .setCredentials token clientName
  swap
  · refine h.act ?_ hsteady hstep
    cases action with
    | setCredentials token clientName => exact (hset ⟨token, clientName, rfl⟩).elim
    | _ => trivial
  obtain ⟨token, clientName, rfl⟩ := hset
  obtain rfl := Option.some.inj hstep
  rcases setCredentials_cases s token clientName with ⟨e, heq⟩ | ⟨credentials, -, heq⟩ | ⟨hsame, -, heq⟩
  · rw [heq]
    refine tracked_nobody h (fun hl => Or.inl fun k x _ hx => hl k x trivial ?_)
      (fun _ hnone => (by cases hnone))
    exact getElem?_concat_of_some hx _
  · rw [heq]
    refine tracked_nobody (tracked_replaced h credentials) (fun hl => ?_)
      (fun _ hnone => (by cases hnone))
    have htaking := hl s.setters.length ⟨token, clientName, .taking⟩ trivial (by simp)
    cases htaking
  · rw [heq]
    refine tracked_nobody h (fun _ => Or.inl fun k x _ hx => ?_) (fun _ hnone => (by cases hnone))
    exact hsteady hsame x (List.mem_of_getElem? hx)

def Replaced (k : ℕ) (token : String) (s : Account) : Prop :=
  (∃ x e, s.setters[k]? = some x ∧ x.pc = .returned (.error e)) ∨ Standing (· = k) (some token) s

theorem replaced_start {s : Account} (h : Standing (fun _ => True) none s)
    {token clientName : String} (hsteady : Steady s (.setCredentials token clientName)) :
    Replaced s.setters.length token (s.setCredentials token clientName) := by
  rcases setCredentials_cases s token clientName with ⟨e, heq⟩ | ⟨credentials, htoken, heq⟩ |
    ⟨hsame, htoken, heq⟩
  · exact Or.inl ⟨⟨token, clientName, .returned (.error e)⟩, e, by rw [heq]; simp, rfl⟩
  · right
    rw [heq]
    refine tracked_nobody (tracked_replaced h credentials) (fun hl => ?_)
      (fun t ht => Option.some.inj ht ▸ htoken)
    have htaking := hl s.setters.length ⟨token, clientName, .taking⟩ rfl (by simp)
    cases htaking
  · right
    rw [heq]
    refine tracked_nobody h (fun _ => Or.inl fun k x _ hx => ?_)
      (fun t ht => Option.some.inj ht ▸ htoken)
    exact hsteady hsame x (List.mem_of_getElem? hx)

theorem replaced_step {k : ℕ} {token : String} (s : Account) (action : Action) (s' : Account)
    (h : Replaced k token s) (hallowed : Steady s action ∧ KeepsCredentials s action)
    (hstep : act s action = some s') : Replaced k token s' := by
  rcases h with ⟨x, e, hx, hpc⟩ | h
  · left
    rcases setters_step hallowed.2 hstep with hsame | ⟨j, y, pc, hy, -, hmod, herror, -⟩
    · exact ⟨x, e, hsame ▸ hx, hpc⟩
    · have hjk : j ≠ k := by
        rintro rfl
        rw [hx, Option.some.injEq] at hy
        exact herror e (hy ▸ hpc)
      refine ⟨x, e, ?_, hpc⟩
      rw [hmod, List.getElem?_modify, hx]
      simp [hjk]
  · exact Or.inr (h.act hallowed.2 hallowed.1 hstep)

theorem callsFrom_step {n : ℕ} {token : String} (s : Account) (action : Action) (s' : Account)
    (h : Tracked (callsFrom n token) s.world)
    (hallowed : Steady s action ∧ KeepsCredentials s action) (hstep : act s action = some s') :
    Tracked (callsFrom n token) s'.world := by
  refine tracked_act h hallowed.2 (fun _ => hallowed.1) (fun i call t hwant => ?_) hstep
  simp only [callsFrom, Option.ite_none_right_eq_some, Option.some.injEq] at hwant
  exact congrArg some hwant.2

/-- In every run whose steps are steady: once a `set_credentials` call has returned and no later one
is made, the calls that start afterwards send their frames only on connections that were
authenticated with its token. -/
theorem credentials_take_effect {config : AccountConfig} {w₀ : World}
    (hnew : AccountClient.new config = .ok w₀) {before middle after : List Action}
    {token clientName : String} {s₁ s₃ s₄ : Account} (hbefore : runFrom act ⟨w₀, []⟩ before = some s₁)
    (hmiddle : runFrom act (s₁.setCredentials token clientName) middle = some s₃)
    (hreturned : ∃ x, s₃.setters[s₁.setters.length]? = some x ∧ x.pc = .returned (.ok ()))
    (hafter : runFrom act s₃ after = some s₄)
    (hlast : ∀ action ∈ middle ++ after, ∀ s, KeepsCredentials s action)
    (hsteady : Allows act Steady ⟨w₀, []⟩ (before ++ .setCredentials token clientName ::
      (middle ++ after))) :
    ∀ f ∈ s₄.world.sent, s₃.world.calls.length ≤ f.call → authOf s₄.world f.conn = some token := by
  obtain ⟨hsteady₁, hrest⟩ := allows_append hsteady
  obtain ⟨hset, hrest⟩ := hrest s₁ hbefore
  obtain ⟨hsteady₂, hrest⟩ := allows_append (hrest _ rfl)
  have hsteady₃ := hrest s₃ hmiddle
  have hstart : Standing (fun _ => True) none ⟨w₀, []⟩ := new_tracked hnew rfl
  have h₁ := run_invariant standing_step hstart hsteady₁ hbefore
  have h₂ := run_invariant replaced_step (replaced_start h₁ hset)
    (hsteady₂.and fun action ha => hlast action (List.mem_append_left _ ha)) hmiddle
  obtain ⟨x, hx, hpc⟩ := hreturned
  have h₃ : Tracked (nobody True (some token)) s₃.world := by
    rcases h₂ with ⟨y, e, hy, herror⟩ | h₂
    · rw [hx, Option.some.injEq] at hy
      rw [← hy, hpc] at herror
      cases herror
    · refine tracked_nobody h₂ (fun _ => Or.inl ?_) h₂.shared
      rintro _ y rfl hy
      rw [hx, Option.some.injEq] at hy
      rw [← hy, hpc]
      rfl
  have h₄ := run_invariant callsFrom_step (tracked_callsFrom h₃)
    (hsteady₃.and fun action ha => hlast action (List.mem_append_right _ ha)) hafter
  intro f hf hlate
  obtain ⟨call, -, hauth⟩ := h₄.frames f (List.mem_append_right _ hf)
  exact hauth token (if_pos hlate)

def sampleAccount : Account := ⟨sampleStart, []⟩

instance (s : Account) (action : Action) : Decidable (Steady s action) :=
  match action with
  | .other (.resume i .authenticated _) =>
    inferInstanceAs
      (Decidable (∀ conn ∈ awaitsAuth s.world i, authOf s.world conn = some s.world.credentials.token))
  | .other (.resume _ .finished _) | .other (.resume _ .acquired _) | .other (.resume _ .connected _)
  | .other (.resume _ .enqueued _) | .other (.resume _ (.answered _) _) | .other
      (.resume _ (.failed _) _)
  | .other (.call _ _) | .other (.drop _) | .other (.write _) | .other (.lose _)
  | .other .close => isTrue trivial
  | .setCredentials token clientName => inferInstanceAs (Decidable
      (credentialsDiffer s.world token clientName = false → ∀ x ∈ s.setters, isTaking x.pc = false))
  | .request _ _ | .takeCurrent _ | .closeFinished _ | .dropSetter _ => isTrue trivial

def connects (i : ℕ) : List Action :=
  [.other (.resume i .acquired sampleAmbient), .other (.resume i .connected sampleAmbient),
    .other (.resume i .authenticated sampleAmbient)]

def asks (i : ℕ) : List Action := [.other (.resume i .enqueued sampleAmbient), .other (.write 0)]

def beforeChange : List Action :=
  [.setCredentials "a" messengerName, .takeCurrent 0, .request (query "") sampleAmbient] ++ connects 0

def afterChange : List Action := .request (query "") sampleAmbient :: connects 1 ++ asks 1

theorem hasReturned_iff {pc : SetterPc} : hasReturned pc = true ↔ pc = .returned (.ok ()) := by
  rcases pc with _ | _ | (e | ⟨⟩) | _ <;> simp [hasReturned]

theorem credentials_take_effect_sample : ∃ s₃ s₄,
    runFrom act sampleAccount (beforeChange ++ [.setCredentials "b" messengerName, .takeCurrent 1,
      .closeFinished 1]) = some s₃ ∧
    runFrom act s₃ afterChange = some s₄ ∧ s₄.world.sent.map (fun f => (f.call, f.conn)) = [(1, 1)] ∧
    ∀ f ∈ s₄.world.sent, s₃.world.calls.length ≤ f.call → authOf s₄.world f.conn = some "b" := by
  have hfacts : ((runFrom act sampleAccount beforeChange).bind fun s₁ =>
      (runFrom act (s₁.setCredentials "b" messengerName) [.takeCurrent 1, .closeFinished 1]).bind
        fun s₃ =>
      (runFrom act s₃ afterChange).map fun s₄ =>
        ((s₃.setters[s₁.setters.length]?).map (fun x => hasReturned x.pc),
          s₄.world.sent.map (fun f => (f.call, f.conn)))) = some (some true, [(1, 1)]) := by
            decide +kernel
  have hsteady : Allows act Steady sampleAccount (beforeChange ++ .setCredentials "b" messengerName ::
      ([.takeCurrent 1, .closeFinished 1] ++ afterChange)) := by decide +kernel
  obtain ⟨s₁, h₁, hfacts⟩ := Option.bind_eq_some_iff.mp hfacts
  obtain ⟨s₃, h₃, hfacts⟩ := Option.bind_eq_some_iff.mp hfacts
  obtain ⟨s₄, h₄, hfacts⟩ := Option.map_eq_some_iff.mp hfacts
  obtain ⟨hdone, hsent⟩ := Prod.mk.inj hfacts
  obtain ⟨x, hx, hpc⟩ := Option.map_eq_some_iff.mp hdone
  have hlast : ∀ action ∈ [.takeCurrent 1, .closeFinished 1] ++ afterChange, ∀ s,
      KeepsCredentials s action := by
    simp [afterChange, connects, asks, KeepsCredentials]
  refine ⟨s₃, s₄, ?_, h₄, hsent, credentials_take_effect sampleStart_new h₁ h₃
    ⟨x, hx, hasReturned_iff.mp hpc⟩ h₄ hlast hsteady⟩
  rw [runFrom_append, h₁]
  exact h₃

/-- Call 0 authenticates with `a` when the credentials become `b`. Its connection is published
afterwards, and the next call uses it. -/
def overtaken : List Action :=
  [.setCredentials "a" messengerName, .takeCurrent 0, .request (query "") sampleAmbient,
    .other (.resume 0 .acquired sampleAmbient), .other (.resume 0 .connected sampleAmbient),
    .setCredentials "b" messengerName, .takeCurrent 1]

theorem old_credentials_survive : AccountClient.new sampleConfig = .ok sampleStart ∧ ∃ s₃ s₄,
    runFrom act sampleAccount overtaken = some s₃ ∧
    (s₃.setters[1]?).map (fun x => (x.token, hasReturned x.pc)) = some ("b", true) ∧
    runFrom act s₃ ([.other (.resume 0 .authenticated sampleAmbient),
      .request (query "") sampleAmbient] ++ asks 1) = some s₄ ∧
    ∃ f ∈ s₄.world.sent, s₃.world.calls.length ≤ f.call ∧ authOf s₄.world f.conn = some "a" := by
  have hfacts : ((runFrom act sampleAccount overtaken).bind fun s₃ =>
      (runFrom act s₃ ([.other (.resume 0 .authenticated sampleAmbient),
          .request (query "") sampleAmbient] ++ asks 1)).map fun s₄ =>
        ((s₃.setters[1]?).map (fun x => (x.token, hasReturned x.pc)), s₃.world.calls.length,
          s₄.world.sent.map (fun f => (f.call, f.conn)), authOf s₄.world 0)) =
        some (some ("b", true), 1, [(1, 0)], some "a") := by decide +kernel
  obtain ⟨s₃, h₃, hfacts⟩ := Option.bind_eq_some_iff.mp hfacts
  obtain ⟨s₄, h₄, hfacts⟩ := Option.map_eq_some_iff.mp hfacts
  simp only [Prod.mk.injEq] at hfacts
  obtain ⟨hdone, hcalls, hsent, hauth⟩ := hfacts
  obtain ⟨f, hf, hends⟩ := List.mem_map.mp (hsent ▸ List.mem_singleton_self (1, 0))
  obtain ⟨hcall, hconn⟩ := Prod.mk.inj hends
  exact ⟨sampleStart_new, s₃, s₄, h₃, hdone, h₄, f, hf, by rw [hcall, hcalls], hconn ▸ hauth⟩

end Mst5Client.AccountCredentials
