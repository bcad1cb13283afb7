import Mst5Client.AccountTokens

set_option autoImplicit false

/-!
# Generations of connections

The call that holds the connect lock is the only one that connects, and it numbers the connection it
publishes.
-/
namespace Mst5Client.AccountGenerations
open IoResult AccountClient AccountClosing AccountMoves AccountTokens MachineRuns

def announced (w : World) : List ℕ := w.events.filterMap announces

def publishes (w : World) (m : Move) : List (ℕ × ℕ) :=
  match resumes m with
  | some (i, .authenticated, _) => (awaitsAuth w i).toList.map fun conn =>
    ((w.generation + 1) % 2 ^ 32, conn)
  | _ => []

def publications : Closable → List Move → List (ℕ × ℕ)
  | _, [] => []
  | s, m :: moves => publishes s.world m ++ (move s m).elim [] fun t => publications t moves

def principalOf (w : World) (conn : ℕ) : Option Bool := (w.conns[conn]?).map Conn.principal

/-- The current connection, if there is one, is closed. -/
def Dead (w : World) : Prop :=
  ∀ generation conn, w.current = some (generation, conn) → w.openConn conn = false

def PcSound (log : List (ℕ × ℕ)) (w : World) (j : ℕ) : Pc → Prop
  | .closing => False
  | .connecting => w.connectLock = some j ∧ Dead w
  | .authenticating conn => w.connectLock = some j ∧ Dead w ∧ principalOf w conn = some false
  | .requesting generation conn _ _ _ => (generation, conn) ∈ log
  | _ => True

/-- The connections of `log` have been published, and every call but those of `skip` is sound. -/
structure Sound (log : List (ℕ × ℕ)) (skip : ℕ → Prop) (w : World) : Prop where
  calls : EachCall (fun j c => ¬ skip j → PcSound log w j c.pc) w
  current : ∀ p, w.current = some p → p ∈ log
  principal : ∀ p ∈ log, principalOf w p.2 = some true
  distinct : (log.map Prod.snd).Nodup
  generation : w.generation = log.length % 2 ^ 32
  numbered : log.map Prod.fst = (List.range log.length).map fun k => (k + 1) % 2 ^ 32
  announced : announced w = log.map Prod.fst

variable {log : List (ℕ × ℕ)} {skip : ℕ → Prop} {w v : World} {i : ℕ} {call : Call}

theorem Sound.told {u : World} (h : Sound log skip w) (hu : Told w u) : Sound log skip u := by
  cases hu with
  | nothing => exact h
  | @event e he =>
    refine { h with announced := ?_ }
    rw [← h.announced]
    simp only [AccountGenerations.announced, World.emit, List.filterMap_append, List.filterMap_cons, he,
      List.filterMap_nil, List.append_nil]

theorem Dead.closeConn (h : Dead w) (conn : ℕ) : Dead (w.closeConn conn) := by
  intro generation c hcurrent
  rw [openConn_closeConn, h generation c hcurrent, Bool.false_and]

theorem Sound.closeConn (h : Sound log skip w) (conn : ℕ) : Sound log skip (w.closeConn conn) := by
  have hprincipal : ∀ c, principalOf (w.closeConn conn) c = principalOf w c :=
    map_getElem?_modify (g := Conn.principal) (f := fun c => { c with closed := true })
      (fun _ => rfl) w.conns conn
  refine { h with calls := h.calls.imp ?_, principal := ?_ }
  · intro j c _ hc hskip
    have hsound := hc hskip
    generalize c.pc = pc at hsound ⊢
    cases pc with
    | connecting => exact ⟨hsound.1, hsound.2.closeConn conn⟩
    | authenticating conn' =>
      exact ⟨hsound.1, hsound.2.1.closeConn conn, (hprincipal conn').trans hsound.2.2⟩
    | _ => exact hsound
  · intro p hp
    exact (hprincipal p.2).trans (h.principal p hp)

theorem Sound.forget (h : Sound log skip w) : Sound log skip { w with current := none } := by
  refine { h with calls := h.calls.imp ?_, current := nofun }
  intro j c _ hc hskip
  have hsound := hc hskip
  generalize c.pc = pc at hsound ⊢
  cases pc with
  | connecting => exact ⟨hsound.1, nofun⟩
  | authenticating conn => exact ⟨hsound.1, nofun, hsound.2.2⟩
  | _ => exact hsound

theorem Sound.update {f : Call → Call} (h : Sound log (· = i) w)
    (hpc : ∀ c, w.calls[i]? = some c → PcSound log w i (f c).pc) :
    Sound log nobody (w.update i f) := by
  refine { h with calls := ?_ }
  refine EachCall.update (P := fun j c => ¬ False → PcSound log w j c.pc) ?_ fun c hc _ => hpc c hc
  exact h.calls.imp fun j c _ hc hj _ => hc hj

theorem Sound.setPc {pc : Pc} (h : Sound log (· = i) w) (hpc : PcSound log w i pc) :
    Sound log nobody (w.setPc i pc) :=
  h.update fun _ _ => hpc

theorem Sound.skipping (h : Sound log nobody w) : Sound log (· = i) w :=
  { h with calls := h.calls.imp fun _ _ _ hc _ => hc id }

theorem PcSound.unlocked {j : ℕ} {pc : Pc} (h : PcSound log w j pc) (hlock : w.connectLock ≠ some j)
    {log' : List (ℕ × ℕ)} (hlog : ∀ p ∈ log, p ∈ log') : PcSound log' v j pc := by
  cases pc with
  | connecting => exact absurd h.1 hlock
  | authenticating conn => exact absurd h.1 hlock
  | requesting generation conn nonce deadlineMs enqueued => exact hlog _ h
  | _ => trivial

theorem Sound.unlock (h : Sound log (· = i) w) (hlock : w.connectLock = some i) :
    Sound log (· = i) w.unlock := by
  refine { h with calls := h.calls.imp ?_ }
  intro j c _ hc hj
  exact (hc hj).unlocked (fun hheld => hj (Option.some.inj (hheld.symm.trans hlock))) fun p hp => hp

theorem Sound.lock (h : Sound log (· = i) w) (hfree : w.connectLock = none) :
    Sound log (· = i) (w.lock i) := by
  refine { h with calls := h.calls.imp ?_ }
  intro j c _ hc hj
  exact (hc hj).unlocked (fun hheld => by cases hfree.symm.trans hheld) fun p hp => hp

theorem Sound.lock_held (h : Sound log nobody w) (hcall : w.calls[i]? = some call)
    (hpc : connects call.pc = true) : w.connectLock = some i := by
  have hsound := h.calls i call hcall id
  generalize call.pc = pc at hsound hpc
  cases pc <;> first | exact hsound.1 | cases hpc

theorem Sound.withdrawn (h : Sound log skip w) : Sound log skip (withdrawn w) := by
  unfold AccountMoves.withdrawn
  split
  · exact (h.closeConn _).forget
  · exact h.forget

variable {a : Ambient}

theorem parked_sound {pc : Pc} (hpc : parked pc = true) : PcSound log w i pc := by
  cases pc <;> trivial

theorem Sound.ends {generation : Option ℕ} (h : Sound log (· = i) w) (hends : Ends w i generation v) :
    Sound log nobody v := by
  cases hends with
  | parks hu hf => exact (h.told hu).update fun c _ => parked_sound (hf c).2
  | invalidates hcurrent => exact (h.closeConn _).forget.setPc trivial

theorem Sound.begins (h : Sound log (· = i) w) (hbegins : Begins w i call a v) :
    Sound log nobody v := by
  cases hbegins with
  | asks hcurrent hprepare => exact h.setPc (h.current _ hcurrent)
  | fails hcurrent hends => exact h.ends hends

theorem Sound.enters (h : Sound log (· = i) w) (henters : Enters w i call a v) :
    Sound log nobody v := by
  cases henters with
  | ends hends => exact h.ends hends
  | begins hopen hbegins => exact h.begins hbegins
  | locks hopen => exact h.setPc trivial

theorem Sound.leaves (h : Sound log nobody w) (hcall : w.calls[i]? = some call)
    (hleaves : Leaves w i call v) : Sound log nobody v := by
  cases hleaves with
  | idle hpc hends => exact h.skipping.ends hends
  | connecting hpc hends => exact (h.skipping.unlock (h.lock_held hcall hpc)).ends hends

theorem Sound.connectOk (h : Sound log nobody w) (hcall : w.calls[i]? = some call)
    (hpc : call.pc = .connecting) : Sound log nobody (w.connectOk i) := by
  have hsound := h.calls i call hcall id
  rw [hpc] at hsound
  obtain ⟨hlock, hdead⟩ := hsound
  have hprincipal : ∀ conn b, principalOf w conn = some b →
      principalOf (w.connectOk i) conn = some b := by
    intro conn b hb
    obtain ⟨c, hc, rfl⟩ := Option.map_eq_some_iff.mp hb
    change ((w.conns ++ [_])[conn]?).map Conn.principal = _
    rw [getElem?_concat_of_some hc]
    rfl
  have hopen : ∀ conn, conn ≠ w.conns.length → (w.connectOk i).openConn conn = w.openConn conn := by
    intro conn hne
    change ((w.conns ++ [_])[conn]?).any _ = (w.conns[conn]?).any _
    rw [getElem?_concat_of_ne hne]
  refine { h with calls := ?_, principal := fun p hp => hprincipal _ _ (h.principal p hp) }
  · refine EachCall.update (P := fun j c => ¬ False → PcSound log (w.connectOk i) j c.pc) ?_ ?_
    · refine h.calls.imp fun j c _ hc hj _ => (hc id).unlocked ?_ fun p hp => hp
      exact fun hheld => hj (Option.some.inj (hheld.symm.trans hlock))
    · intro c _ _
      refine ⟨hlock, ?_, ?_⟩
      · intro generation conn hcurrent
        have hknown : principalOf w conn = some true := h.principal _ (h.current _ hcurrent)
        have hne : conn ≠ w.conns.length := by
          rintro rfl
          rw [principalOf, List.getElem?_eq_none (Nat.le_refl _)] at hknown
          cases hknown
        rw [hopen conn hne]
        exact hdead generation conn hcurrent
      · change ((w.conns ++ [_])[w.conns.length]?).map Conn.principal = _
        rw [List.getElem?_concat_length]
        rfl

theorem Sound.published {conn : ℕ} (h : Sound log nobody w) (hcall : w.calls[i]? = some call)
    (hpc : call.pc = .authenticating conn) :
    Sound (log ++ [((w.generation + 1) % 2 ^ 32, conn)]) (· = i) (published w conn) := by
  have hsound := h.calls i call hcall id
  rw [hpc] at hsound
  obtain ⟨hlock, hdead, hfresh⟩ := hsound
  have hothers : ∀ j, j ≠ i → w.connectLock ≠ some j :=
    fun j hj hheld => hj (Option.some.inj (hheld.symm.trans hlock))
  have hprincipal : ∀ c b, principalOf w c = some b → (c = conn ∨ b = true) →
      principalOf (AccountMoves.published w conn) c = some true := by
    intro c b hb hor
    obtain ⟨x, hx, rfl⟩ := Option.map_eq_some_iff.mp hb
    change ((w.conns.modify conn _)[c]?).map Conn.principal = _
    rw [List.getElem?_modify, hx]
    by_cases hc : conn = c
    · simp [hc]
    · simpa [hc, Ne.symm hc] using hor
  have hlength : (w.generation + 1) % 2 ^ 32 = (log.length + 1) % 2 ^ 32 := by
    rw [h.generation]
    omega
  refine ⟨?_, ?_, ?_, ?_, ?_, ?_, ?_⟩
  · exact h.calls.imp fun j c _ hc hj => (hc id).unlocked (hothers j hj) fun p hp =>
      List.mem_append_left _ hp
  · intro p hp
    cases hp
    exact List.mem_append_right _ (List.mem_singleton_self _)
  · intro p hp
    rcases List.mem_append.mp hp with hp | hp
    · exact hprincipal p.2 true (h.principal p hp) (.inr rfl)
    · obtain rfl := List.mem_singleton.mp hp
      exact hprincipal conn false hfresh (.inl rfl)
  · rw [List.map_append, List.map_singleton]
    refine List.nodup_append.mpr ⟨h.distinct, List.nodup_singleton _, ?_⟩
    rintro c hc _ hc' rfl
    obtain ⟨p, hp, rfl⟩ := List.mem_map.mp hc
    rw [List.mem_singleton] at hc'
    cases (hc' ▸ h.principal p hp).symm.trans hfresh
  · rw [List.length_append, List.length_singleton]
    exact hlength
  · rw [List.length_append, List.length_singleton, List.range_succ, List.map_append,
      List.map_append, h.numbered]
    exact congrArg _ (congrArg (fun k => [k]) hlength)
  · simp only [AccountGenerations.announced, AccountMoves.published, World.emit,
      List.filterMap_append, announces, List.filterMap_cons, List.filterMap_nil, List.map_append,
      List.map_cons, List.map_nil]
    rw [← h.announced]
    rfl

theorem Sound.resumed {outcome : Outcome} (h : Sound log nobody w) (hcall : w.calls[i]? = some call)
    (hresumed : Resumed w i call a outcome v) :
    Sound (log ++ publishes w (.other (.other (.resume i outcome a)))) nobody v := by
  have hquiet (houtcome : outcome ≠ .authenticated) :
      publishes w (.other (.other (.resume i outcome a))) = [] := by
    cases outcome <;> first | rfl | exact absurd rfl houtcome
  cases hresumed with
  | entered hclosing =>
    have hsound := h.calls i call hcall id
    rw [hclosing] at hsound
    exact hsound.elim
  | found hlocking hbegins =>
    rw [hquiet nofun, List.append_nil]
    exact h.skipping.begins hbegins
  | locked hlocking hfree hdead =>
    rw [hquiet nofun, List.append_nil]
    exact (h.skipping.lock hfree).setPc ⟨rfl, hdead⟩
  | connected hconnecting =>
    rw [hquiet nofun, List.append_nil]
    exact h.connectOk hcall hconnecting
  | @published conn _ hauthenticating hbegins =>
    have hlog : publishes w (.other (.other (.resume i .authenticated a))) =
        [((w.generation + 1) % 2 ^ 32, conn)] := by
      simp only [publishes, resumes, awaitsAuth_eq hcall hauthenticating]
      rfl
    rw [hlog]
    exact (h.published hcall hauthenticating).begins hbegins
  | enqueued hrequesting =>
    rw [hquiet nofun, List.append_nil]
    have hsound := h.calls i call hcall id
    rw [hrequesting] at hsound
    exact Sound.setPc { h.skipping with } hsound
  | looped hsleeping henters =>
    rw [hquiet nofun, List.append_nil]
    exact h.skipping.enters henters
  | leaves houtcome hleaves =>
    rw [hquiet houtcome, List.append_nil]
    exact h.leaves hcall hleaves

theorem Sound.spawn {skip : ℕ → Prop} (h : Sound log nobody w)
    (hcall : ¬ skip w.calls.length → PcSound log w w.calls.length call.pc) :
    Sound log skip (w.spawn call) := by
  refine { h with calls := ?_ }
  exact EachCall.spawn (P := fun j c => ¬ skip j → PcSound log w j c.pc) (h.calls.imp
    fun _ _ _ hc _ => hc id) hcall

theorem Sound.requested {request : Request} (h : Sound log nobody w)
    (hrequested : Requested w request a v) : Sound log nobody v := by
  cases hrequested with
  | failed => exact h.spawn fun _ => trivial
  | entered hkeeps hdrawn henters =>
    refine Sound.enters ?_ henters
    exact h.spawn fun hskip => absurd rfl hskip

theorem Sound.quietly (h : Sound log nobody w) (hquietly : Quietly w v) : Sound log nobody v := by
  cases hquietly with
  | idle => exact h
  | credentials credentials => exact { h with }
  | dropped hcall hleaves => exact h.leaves hcall hleaves
  | written hframe => exact { h with }
  | lost conn => exact h.closeConn conn
  | taken hu => exact (h.told hu).withdrawn
  | flagged => exact { h with }

variable {s t : Closable} {m : Move}

theorem Sound.change (h : Sound log nobody s.world) (hchange : Change s.world m t.world) :
    Sound (log ++ publishes s.world m) nobody t.world := by
  cases hchange with
  | requested hm hrequested =>
    subst hm
    exact (List.append_nil log).symm ▸ h.requested hrequested
  | resumed hm hcall hresumed =>
    subst hm
    exact h.resumed hcall hresumed
  | quietly hrequests hresumes hquietly =>
    have hnone : publishes s.world m = [] := by simp only [publishes, hresumes]
    rw [hnone, List.append_nil]
    exact h.quietly hquietly

theorem Sound.run {moves : List Move} (h : Sound log nobody s.world)
    (hrun : runFrom move s moves = some t) :
    Sound (log ++ publications s moves) nobody t.world := by
  induction moves generalizing s log with
  | nil =>
    rw [publications, List.append_nil]
    exact Option.some.inj hrun ▸ h
  | cons m moves ih =>
    obtain ⟨u, hu, htail⟩ := Option.bind_eq_some_iff.mp hrun
    have hnext := ih (h.change (move_change hu)) htail
    rw [publications, hu, ← List.append_assoc]
    exact hnext

theorem new_sound {config : AccountConfig} (h : AccountClient.new config = .ok w) :
    Sound [] nobody w := by
  unfold AccountClient.new at h
  split_ifs at h
  cases h
  exact ⟨fun _ _ hcall => (by cases hcall), nofun, nofun, .nil, rfl, rfl, rfl⟩

theorem Sound.increasing {skip : ℕ → Prop} (h : Sound log skip w) (hfew : log.length < 2 ^ 32 - 1) :
    (log.map Prod.fst).Pairwise (· < ·) := by
  rw [h.numbered, List.pairwise_map]
  refine List.pairwise_lt_range.imp_of_mem ?_
  intro j k hj hk hlt
  rw [List.mem_range] at hj hk
  omega

theorem ends_invalidates {i generation : ℕ} {v : World} (h : Ends w i (some generation) v) :
    (∀ g conn, w.current = some (g, conn) → g ≠ generation → v.current = w.current ∧
      v.conns = w.conns) ∧
    ∀ conn, w.openConn conn = true → v.openConn conn = false → w.current = some (generation, conn) := by
  cases h with
  | parks hu hf =>
    cases hu with
    | nothing => exact ⟨fun _ _ _ _ => ⟨rfl, rfl⟩,
      fun conn hopen hclosed => absurd hopen (Bool.eq_false_iff.mp hclosed)⟩
    | event he => exact ⟨fun _ _ _ _ => ⟨rfl, rfl⟩,
      fun conn hopen hclosed => absurd hopen (Bool.eq_false_iff.mp hclosed)⟩
  | @invalidates _ taken _ hcurrent =>
    refine ⟨?_, ?_⟩
    · intro g conn hg hne
      cases hcurrent.symm.trans hg
      exact absurd rfl hne
    · intro conn hopen hclosed
      change (World.closeConn { w with current := none } taken).openConn conn = false at hclosed
      rw [openConn_closeConn] at hclosed
      change (w.openConn conn && decide (conn ≠ taken)) = false at hclosed
      rw [hopen, Bool.true_and, decide_eq_false_iff_not, not_not] at hclosed
      rw [hclosed]
      exact hcurrent

/-- With fewer than `2 ^ 32 - 1` connections: the published ones are different connections with
growing generations, and those that are current or in use are among them; a failed request closes and
takes away at most the current connection with its own generation; and one call at most connects. -/
theorem stale_failures_harmless {config : AccountConfig} {w₀ : World} {moves : List Move}
    {s : Closable} (hnew : AccountClient.new config = .ok w₀)
    (hrun : runFrom move (opened w₀) moves = some s)
    (hfew : (publications (opened w₀) moves).length < 2 ^ 32 - 1) :
    (((publications (opened w₀) moves).map Prod.fst).Pairwise (· < ·) ∧
      ((publications (opened w₀) moves).map Prod.snd).Nodup ∧
      announced s.world = (publications (opened w₀) moves).map Prod.fst ∧
      (∀ p, s.world.current = some p → p ∈ publications (opened w₀) moves) ∧
      ∀ call ∈ s.world.calls, ∀ generation conn nonce deadlineMs enqueued,
        call.pc = .requesting generation conn nonce deadlineMs enqueued →
          (generation, conn) ∈ publications (opened w₀) moves) ∧
    (∀ i call a generation error v, v = s.world.requestFailed i call a generation error →
      (∀ g conn, s.world.current = some (g, conn) → g ≠ generation →
        v.current = s.world.current ∧ v.conns = s.world.conns) ∧
      ∀ conn, s.world.openConn conn = true → v.openConn conn = false →
        s.world.current = some (generation, conn) ∧
          (generation, conn) ∈ publications (opened w₀) moves) ∧
    ∀ (i j : ℕ) c d, s.world.calls[i]? = some c → s.world.calls[j]? = some d →
      connects c.pc = true → connects d.pc = true → i = j := by
  have h : Sound (publications (opened w₀) moves) nobody s.world :=
    (new_sound hnew).run (s := opened w₀) hrun
  refine ⟨⟨h.increasing hfew, h.distinct, h.announced, h.current, ?_⟩, ?_, ?_⟩
  · intro call hcall generation conn nonce deadlineMs enqueued hpc
    obtain ⟨j, hj⟩ := List.mem_iff_getElem?.mp hcall
    have hsound := h.calls j call hj id
    rw [hpc] at hsound
    exact hsound
  · rintro i call a generation error v rfl
    obtain ⟨hother, hown⟩ := ends_invalidates (requestFailed_ends (w := s.world) (i := i) (a := a)
      generation error)
    exact ⟨hother, fun conn hopen hclosed => ⟨hown conn hopen hclosed,
      h.current _ (hown conn hopen hclosed)⟩⟩
  · intro i j c d hi hj hc hd
    exact Option.some.inj ((h.lock_held hi hc).symm.trans (h.lock_held hj hd))

def go (i : ℕ) (outcome : Outcome) : Move := .other (.other (.resume i outcome sampleAmbient))

def reset : IoError := ⟨.connectionReset, "MST5 server closed the connection"⟩

def reconnected : List Move :=
  [.other (.request (query "") sampleAmbient), go 0 .acquired, go 0 .connected, go 0 .authenticated,
    .other (.request (query "") sampleAmbient), go 0 (.failed reset), go 0 .finished, go 0 .finished,
    go 0 .acquired, go 0 .connected, go 0 .authenticated]

/-- The failure of the second call, which comes now, leaves the new connection in place. -/
theorem stale_failures_harmless_sample :
    ∃ s call, runFrom move (opened sampleStart) reconnected = some s ∧
    s.world.current = some (2, 1) ∧ s.world.calls[1]? = some call ∧
    (s.world.requestFailed 1 call sampleAmbient 1 reset).current = some (2, 1) := by
  have hfacts : (runFrom move (opened sampleStart) reconnected).map (fun s =>
      (s.world.current, s.world.calls.length)) = some (some (2, 1), 2) := by decide +kernel
  have hfew : (publications (opened sampleStart) reconnected).length < 2 ^ 32 - 1 := by decide +kernel
  obtain ⟨s, hrun, hfacts⟩ := Option.map_eq_some_iff.mp hfacts
  obtain ⟨hcurrent, hlength⟩ := Prod.mk.inj hfacts
  obtain ⟨call, hcall⟩ : ∃ call, s.world.calls[1]? = some call :=
    ⟨_, List.getElem?_eq_getElem (by omega)⟩
  have hstale := (stale_failures_harmless sampleStart_new hrun hfew).2.1 1 call sampleAmbient 1
    reset _ rfl
  exact ⟨s, call, hrun, hcurrent, hcall, (hstale.1 2 1 hcurrent (by decide)).1.trans hcurrent⟩

end Mst5Client.AccountGenerations
