import Mst5Client.ConnectionHistory
import Mst5Client.ResponseRouting

set_option autoImplicit false

/-!
# Closing the connection notifies the pending requests

The task that sets `closed` takes the pending requests once and sends a failure to each of them.
-/
namespace Mst5Client.ConnectionClosure
open MachineRuns TaskPrograms TaskTraces ConnectionState ConnectionCalls ConnectionPrograms
open ConnectionEffects ConnectionHistory

/-- How far a task is with closing the connection. -/
inductive Closing where
  | idle
  | draining
  | telling (entries : List (ℕ × ℕ))
deriving DecidableEq

def tell : List (ℕ × ℕ) → Closing
  | [] => .idle
  | entries => .telling entries

def pre (r : Closing) : Op → Prop
  | .swapClosed => r = .idle
  | .takePending => r = .draining
  | .sendChannel channel (.failed _) => ∃ id rest, r = .telling ((id, channel) :: rest)
  | _ => True

def post (r : Closing) : (op : Op) → Ans op → Closing
  | .swapClosed, false => .draining
  | .takePending, entries => tell entries
  | .sendChannel _ (.failed _), _ =>
    match r with
    | .telling entries => tell entries.tail
    | r => r
  | _, _ => r

def protocol : Protocol Op Ans Name Closing where
  pre
  post
  idle := .idle
  ready := fun _ r => r = .idle
  start := fun _ => .idle
  first := fun _ => .idle

theorem plain_of_area {op : Op} (h : area op ≠ .closing) (r : Closing) :
    pre r op ∧ ∀ a, post r op a = r := by
  cases op with
  | sendChannel channel item =>
    cases item with
    | frame a => exact ⟨trivial, fun _ => rfl⟩
    | failed message => exact absurd rfl h
  | swapClosed => exact absurd rfl h
  | takePending => exact absurd rfl h
  | _ => exact ⟨trivial, fun _ => rfl⟩

theorem neutral_area {a : Area} (h : a ≠ .closing) :
    CoversArea (fun _ p => Neutral protocol.toDiscipline p) a := by
  rintro op rfl
  exact Neutral.perform (fun r => (plain_of_area h r).1) fun r => (plain_of_area h r).2

theorem neutral_calls : Covers fun _ p => Neutral protocol.toDiscipline p :=
  ⟨neutral_compositional _, neutral_area nofun⟩

def Through (α : Type) (p : Call α) : Prop :=
  Verified protocol.toDiscipline .idle (fun r _ => r = .idle) p

theorem through_area {a : Area} (h : a ≠ .closing) : CoversArea Through a :=
  fun op hop => neutral_area h op hop .idle

theorem through_calls : Covers Through := ⟨stays_compositional _ _, through_area nofun⟩

theorem verified_failAll (message : String) (entries : List (ℕ × ℕ)) :
    Verified protocol.toDiscipline (tell entries) (fun r _ => r = .idle) (failAll message entries) := by
  induction entries with
  | nil => exact rfl
  | cons e entries ih => exact ⟨⟨e.1, entries, rfl⟩, fun _ => ih⟩

theorem verified_failPending (message : String) :
    Verified protocol.toDiscipline .draining (fun r _ => r = .idle) (failPending message) :=
  ⟨rfl, fun entries => verified_failAll message entries⟩

theorem through_fail : CoversFail Through := by
  intro message
  refine ⟨rfl, fun closed => ?_⟩
  cases closed with
  | true => exact rfl
  | false => exact verified_failPending message

theorem through_close : Through _ close.run := by
  refine ⟨rfl, fun closed => ?_⟩
  cases closed with
  | true => exact rfl
  | false =>
    refine Neutral.liftThen neutral_calls.calling.quiet.enqueueClose fun result => ?_
    refine Verified.bind (Q := fun r _ => r = .idle) ?_ ?_
    · exact (verified_failPending _).bind fun _ _ hr => hr
    · rintro _ x rfl
      cases x with
      | ok _ => exact rfl
      | error _ => exact rfl

theorem verified_code (n : Name) (r : Closing) (h : protocol.ready n r) :
    Obeys protocol.toDiscipline r (code n) := by
  have hthrough : Through _ (code n) := by
    by_cases hn : n = .writer
    · subst hn
      exact through_calls.calling.quiet.writerLoop (through_area nofun) through_fail
    · exact through_calls.code (through_area nofun) (through_area nofun) through_fail through_close hn
  rw [show r = .idle from h]
  exact hthrough.mono fun _ _ hr _ _ => hr

def takenBy : Entry Op Ans Name → List (ℕ × ℕ)
  | .performed _ .takePending entries => entries
  | _ => []

def taken (log : Log) : List (ℕ × ℕ) := log.flatMap takenBy

def takes : Entry Op Ans Name → Bool
  | .performed _ .takePending _ => true
  | _ => false

def drained (log : Log) : Bool := log.any takes

def notifies (channel : ℕ) : Entry Op Ans Name → Bool
  | .performed _ (.sendChannel other (.failed _)) _ => other = channel
  | _ => false

/-- A failure has been sent to the channel. -/
def Notified (log : Log) (channel : ℕ) : Prop := ∃ entry ∈ log, notifies channel entry = true

instance (log : Log) (channel : ℕ) : Decidable (Notified log channel) := by
  unfold Notified
  infer_instance

def settles (id : ℕ) : Entry Op Ans Name → Bool
  | .performed _ (.removePending other) _ => other = id
  | .performed _ (.lookupPending a true) _ => a.frame.id = id
  | _ => false

/-- The request was answered for good or given up. -/
def Settled (log : Log) (id : ℕ) : Prop := ∃ entry ∈ log, settles id entry = true

/-- No request is registered after the pending ones were taken, and nobody is dropped while closing. -/
def orderly (_ : Connection) (log : Log) : Entry Op Ans Name → Bool
  | .performed _ (.insertPending _ _) _ => !drained log
  | .dropped i => protocol.held log i = .idle
  | _ => true

variable {c c' : Connection} {log : Log} {rs : ℕ → Closing} {i : ℕ} {entry : Entry Op Ans Name}
variable {channel id : ℕ}

structure Invariant (c : Connection) (log : Log) (rs : ℕ → Closing) : Prop where
  untouched : c.closed = false → drained log = false ∧ ∀ i, rs i = .idle
  draining : c.closed = true → drained log = false → ∃ i, rs i = .draining
  waiting : ∀ i, rs i = .draining → drained log = false
  unique : ∀ i j, rs i = .draining → rs j = .draining → i = j
  empty : drained log = true → c.pending = []
  told : ∀ e ∈ taken log, Notified log e.2 ∨ ∃ i entries, rs i = .telling entries ∧ e ∈ entries
  registered : (c.registered.map Prod.fst).Nodup → ∀ e ∈ c.registered,
    e ∈ c.pending ∨ e ∈ taken log ∨ Settled log e.1

theorem taken_concat (log : Log) (entry : Entry Op Ans Name) :
    taken (log ++ [entry]) = taken log ++ takenBy entry := by
  rw [taken, List.flatMap_append, List.flatMap_singleton]
  rfl

theorem drained_concat (log : Log) (entry : Entry Op Ans Name) :
    drained (log ++ [entry]) = (drained log || takes entry) := by
  rw [drained, List.any_append, List.any_cons, List.any_nil, Bool.or_false]
  rfl

theorem takenBy_quiet (h : takes entry = false) : takenBy entry = [] := by
  cases entry with
  | performed i op answer =>
    cases op with
    | takePending => cases h
    | _ => rfl
  | _ => rfl

theorem Notified.mono (h : Notified log channel) : Notified (log ++ [entry]) channel := by
  obtain ⟨other, hmem, hother⟩ := h
  exact ⟨other, List.mem_append_left _ hmem, hother⟩

theorem Settled.mono (h : Settled log id) : Settled (log ++ [entry]) id := by
  obtain ⟨other, hmem, hother⟩ := h
  exact ⟨other, List.mem_append_left _ hmem, hother⟩

theorem tell_ne_draining (entries : List (ℕ × ℕ)) : tell entries ≠ .draining := by
  cases entries <;> nofun

theorem tell_of_mem {e : ℕ × ℕ} {entries : List (ℕ × ℕ)} (h : e ∈ entries) :
    tell entries = .telling entries := by
  cases entries with
  | nil => cases h
  | cons _ _ => rfl

theorem Invariant.note (h : Invariant c log rs) (htakes : takes entry = false)
    (hclosed : c'.closed = c.closed) (hempty : drained log = true → c'.pending = [])
    (hregistered : (c'.registered.map Prod.fst).Nodup → ∀ e ∈ c'.registered,
      e ∈ c'.pending ∨ e ∈ taken log ∨ Settled (log ++ [entry]) e.1) :
    Invariant c' (log ++ [entry]) rs := by
  have hdrained : drained (log ++ [entry]) = drained log := by
    rw [drained_concat, htakes, Bool.or_false]
  have htaken : taken (log ++ [entry]) = taken log := by
    rw [taken_concat, takenBy_quiet htakes, List.append_nil]
  refine ⟨?_, ?_, ?_, h.unique, ?_, ?_, ?_⟩
  · rw [hclosed, hdrained]
    exact h.untouched
  · rw [hclosed, hdrained]
    exact h.draining
  · rw [hdrained]
    exact h.waiting
  · rw [hdrained]
    exact hempty
  · rw [htaken]
    exact fun e he => (h.told e he).imp_left Notified.mono
  · rw [htaken]
    exact hregistered

theorem Invariant.same (h : Invariant c log rs) (hclosed : Part.closed.Same c c')
    (hpending : Part.pending.Same c c') (hregistered : Part.registered.Same c c') :
    Invariant c' log rs := by
  have hclosed : c'.closed = c.closed := hclosed
  have hpending : c'.pending = c.pending := hpending
  have hregistered : c'.registered = c.registered := hregistered
  refine ⟨?_, ?_, h.waiting, h.unique, ?_, h.told, ?_⟩
  · rw [hclosed]
    exact h.untouched
  · rw [hclosed]
    exact h.draining
  · rw [hpending]
    exact h.empty
  · rw [hpending, hregistered]
    exact h.registered

theorem Invariant.quiet (h : Invariant c log rs) (htakes : takes entry = false)
    (hclosed : Part.closed.Same c c') (hpending : Part.pending.Same c c')
    (hregistered : Part.registered.Same c c') : Invariant c' (log ++ [entry]) rs := by
  have hsame := h.same hclosed hpending hregistered
  refine hsame.note htakes rfl hsame.empty ?_
  exact fun hnodup e he => (hsame.registered hnodup e he).imp_right (Or.imp_right Settled.mono)

theorem Invariant.remove (h : Invariant c log rs) (htakes : takes entry = false)
    (hclosed : Part.closed.Same c c') (hpending : c'.pending = without id c.pending)
    (hregistered : Part.registered.Same c c') (hsettles : settles id entry = true) :
    Invariant c' (log ++ [entry]) rs := by
  have hregistered : c'.registered = c.registered := hregistered
  have hsettled : Settled (log ++ [entry]) id :=
    ⟨entry, List.mem_append_right _ (List.mem_singleton_self _), hsettles⟩
  refine h.note htakes hclosed ?_ ?_
  · intro hdrained
    rw [hpending, h.empty hdrained]
    rfl
  · rw [hpending, hregistered]
    intro hnodup e he
    obtain hwaiting | hold := h.registered hnodup e he
    · by_cases hid : e.1 = id
      · exact .inr (.inr (hid ▸ hsettled))
      · exact .inl (FrameRouting.mem_without.mpr ⟨hwaiting, hid⟩)
    · exact .inr (hold.imp_right Settled.mono)

theorem Invariant.insert (h : Invariant c log rs) (htakes : takes entry = false)
    (hdrained : drained log = false) (hclosed : Part.closed.Same c c')
    (hpending : c'.pending = without id c.pending ++ [(id, channel)])
    (hregistered : c'.registered = c.registered ++ [(id, channel)]) :
    Invariant c' (log ++ [entry]) rs := by
  refine h.note htakes hclosed ?_ ?_
  · rw [hdrained]
    nofun
  · rw [hpending, hregistered, List.map_append]
    intro hnodup e he
    obtain hold | hnew := List.mem_append.mp he
    · obtain hwaiting | hgone := h.registered (List.nodup_append.mp hnodup).1 e hold
      · refine .inl (List.mem_append_left _ (FrameRouting.mem_without.mpr ⟨hwaiting, ?_⟩))
        intro hid
        exact List.disjoint_of_nodup_append hnodup (List.mem_map_of_mem (f := Prod.fst) hold)
          (List.mem_singleton.mpr hid)
      · exact .inr (hgone.imp_right Settled.mono)
    · exact .inl (List.mem_append_right _ hnew)

theorem Invariant.close (h : Invariant c log rs) (hopen : c.closed = false)
    (hclosed : c'.closed = true) (htakes : takes entry = false) (hpending : Part.pending.Same c c')
    (hregistered : Part.registered.Same c c') :
    Invariant c' (log ++ [entry]) (Function.update rs i .draining) := by
  obtain ⟨hdrained, hidle⟩ := h.untouched hopen
  have hdrained' : drained (log ++ [entry]) = false := by
    rw [drained_concat, hdrained, htakes]
    rfl
  have hrest : Invariant { c' with closed := c.closed } (log ++ [entry]) rs :=
    h.quiet htakes rfl hpending hregistered
  have hothers : ∀ j, Function.update rs i Closing.draining j = .draining → j = i := by
    intro j hj
    by_contra hji
    rw [Function.update_of_ne hji, hidle j] at hj
    cases hj
  refine ⟨?_, fun _ _ => ⟨i, Function.update_self ..⟩, fun _ _ => hdrained', ?_, ?_, ?_,
    hrest.registered⟩
  · rw [hclosed]
    nofun
  · exact fun j k hj hk => (hothers j hj).trans (hothers k hk).symm
  · rw [hdrained']
    nofun
  · intro e he
    obtain hnotified | ⟨j, entries, hj, -⟩ := hrest.told e he
    · exact .inl hnotified
    · rw [hidle j] at hj
      cases hj

theorem Invariant.take (h : Invariant c log rs) {entries : List (ℕ × ℕ)} (hr : rs i = .draining)
    (htakes : takes entry = true) (htaken : takenBy entry = entries)
    (hperm : entries.Perm c.pending) (hclosed : Part.closed.Same c c') (hpending : c'.pending = [])
    (hregistered : Part.registered.Same c c') :
    Invariant c' (log ++ [entry]) (Function.update rs i (tell entries)) := by
  have hclosed : c'.closed = c.closed := hclosed
  have hregistered : c'.registered = c.registered := hregistered
  have hdrained : drained (log ++ [entry]) = true := by rw [drained_concat, htakes, Bool.or_true]
  have htaken : taken (log ++ [entry]) = taken log ++ entries := by rw [taken_concat, htaken]
  have hnone : ∀ j, Function.update rs i (tell entries) j ≠ .draining := by
    intro j hj
    by_cases hji : j = i
    · rw [hji, Function.update_self] at hj
      exact tell_ne_draining entries hj
    · rw [Function.update_of_ne hji] at hj
      exact hji (h.unique j i hj hr)
  refine ⟨?_, ?_, fun j hj => absurd hj (hnone j), fun j _ hj => absurd hj (hnone j),
    fun _ => hpending, ?_, ?_⟩
  · rw [hclosed]
    intro hopen
    rw [(h.untouched hopen).2 i] at hr
    cases hr
  · rw [hdrained]
    nofun
  · rw [htaken]
    intro e he
    obtain hold | hnew := List.mem_append.mp he
    · refine (h.told e hold).imp Notified.mono ?_
      rintro ⟨j, others, hj, hmem⟩
      refine ⟨j, others, ?_, hmem⟩
      rw [Function.update_of_ne]
      · exact hj
      · rintro rfl
        rw [hr] at hj
        cases hj
    · refine .inr ⟨i, entries, ?_, hnew⟩
      rw [Function.update_self]
      exact tell_of_mem hnew
  · rw [htaken, hregistered]
    intro hnodup e he
    obtain hwaiting | hgone := h.registered hnodup e he
    · exact .inr (.inl (List.mem_append_right _ (hperm.mem_iff.mpr hwaiting)))
    · exact .inr (hgone.imp (List.mem_append_left _) Settled.mono)

theorem Invariant.tellOne (h : Invariant c log rs) {rest : List (ℕ × ℕ)}
    (hr : rs i = .telling ((id, channel) :: rest)) (htakes : takes entry = false)
    (hnotifies : notifies channel entry = true) (hclosed : Part.closed.Same c c')
    (hpending : Part.pending.Same c c') (hregistered : Part.registered.Same c c') :
    Invariant c' (log ++ [entry]) (Function.update rs i (tell rest)) := by
  have hrest : Invariant c' (log ++ [entry]) rs := h.quiet htakes hclosed hpending hregistered
  have hsame : ∀ j, Function.update rs i (tell rest) j = .draining ↔ rs j = .draining := by
    intro j
    by_cases hji : j = i
    · rw [hji, Function.update_self, hr]
      exact ⟨fun hj => absurd hj (tell_ne_draining rest), nofun⟩
    · rw [Function.update_of_ne hji]
  refine ⟨?_, ?_, ?_, ?_, hrest.empty, ?_, hrest.registered⟩
  · intro hopen
    rw [(hrest.untouched hopen).2 i] at hr
    cases hr
  · intro hclosed hdrained
    obtain ⟨j, hj⟩ := hrest.draining hclosed hdrained
    exact ⟨j, (hsame j).mpr hj⟩
  · exact fun j hj => hrest.waiting j ((hsame j).mp hj)
  · exact fun j k hj hk => hrest.unique j k ((hsame j).mp hj) ((hsame k).mp hk)
  · intro e he
    obtain hold | ⟨j, entries, hj, hmem⟩ := hrest.told e he
    · exact .inl hold
    · by_cases hji : j = i
      · rw [hji, hr] at hj
        cases hj
        obtain rfl | hmem := List.mem_cons.mp hmem
        · exact .inl ⟨entry, List.mem_append_right _ (List.mem_singleton_self _), hnotifies⟩
        · refine .inr ⟨i, rest, ?_, hmem⟩
          rw [Function.update_self]
          exact tell_of_mem hmem
      · refine .inr ⟨j, entries, ?_, hmem⟩
        rw [Function.update_of_ne hji]
        exact hj

theorem invariant_perform (h : Invariant c log rs) {l : Locals} {op : Op} {choice : Choice}
    {e : Performed (Ans op)} (hpre : pre (rs i) op) (he : perform c l op choice = some e)
    (hguard : orderly c log (.performed i op e.answer) = true) :
    Invariant e.shared (log ++ [.performed i op e.answer])
    (Function.update rs i (post (rs i) op e.answer)) := by
  have hframe := (perform_frames choice e he).same
  have hkept : ∀ {c' : Connection} {log' : Log}, Invariant c' log' rs →
      Invariant c' log' (Function.update rs i (rs i)) := by
    intro c' log' h
    rw [Function.update_eq_self]
    exact h
  cases op with
  | swapClosed =>
    obtain ⟨hanswer, hclosed⟩ := swapClosed_effect he
    cases hopen : c.closed with
    | true =>
      rw [show e.answer = true from hanswer.trans hopen]
      exact hkept (h.quiet rfl (hclosed.trans hopen.symm) (hframe .pending rfl)
        (hframe .registered rfl))
    | false =>
      rw [show e.answer = false from hanswer.trans hopen]
      exact h.close hopen hclosed rfl (hframe .pending rfl) (hframe .registered rfl)
  | insertPending id channel =>
    obtain ⟨hpending, hregistered⟩ := insertPending_effect he
    have hdrained : drained log = false := by simpa only [orderly, Bool.not_eq_true'] using hguard
    exact hkept (h.insert rfl hdrained (hframe .closed rfl) hpending hregistered)
  | removePending id =>
    refine hkept (h.remove rfl (hframe .closed rfl) (removePending_effect he)
      (hframe .registered rfl) ?_)
    exact decide_eq_true rfl
  | lookupPending a remove =>
    have hpending := lookupPending_effect he
    cases remove with
    | true =>
      refine hkept (h.remove rfl (hframe .closed rfl) hpending (hframe .registered rfl) ?_)
      exact decide_eq_true rfl
    | false => exact hkept (h.quiet rfl (hframe .closed rfl) hpending (hframe .registered rfl))
  | takePending =>
    obtain ⟨hperm, hpending⟩ := takePending_effect he
    exact h.take hpre rfl rfl hperm (hframe .closed rfl) hpending (hframe .registered rfl)
  | sendChannel channel item =>
    cases item with
    | frame a => exact hkept (h.quiet rfl (hframe .closed rfl) (hframe .pending rfl)
      (hframe .registered rfl))
    | failed message =>
      obtain ⟨id, rest, hr⟩ := hpre
      rw [hr]
      refine h.tellOne hr rfl ?_ (hframe .closed rfl) (hframe .pending rfl) (hframe .registered rfl)
      exact decide_eq_true rfl
  | _ => exact hkept (h.quiet rfl (hframe .closed rfl) (hframe .pending rfl) (hframe .registered rfl))

theorem maintains_invariant :
    Maintains system protocol (fun c log entry => orderly c log entry = true) Invariant where
  code := verified_code
  perform := fun _ _ _ _ _ _ _ _ h hpre he hguard =>
    ⟨invariant_perform h hpre he hguard, fun _ _ => rfl⟩
  discard := fun c _ _ l h =>
    ⟨h.same (discard_same c l .closed) (discard_same c l .pending) (discard_same c l .registered),
      fun _ _ => rfl⟩
  started := by
    intro c log rs i n h hidle
    rw [show protocol.start n = rs i from hidle.symm, Function.update_eq_self]
    exact h.quiet rfl rfl rfl rfl
  dropped := fun _ _ _ _ h _ => h.quiet rfl rfl rfl rfl
  external := fun _ _ => rfl

theorem accounted_initial (now : ℕ) :
    Accounted protocol Invariant (Traced.begin (initial now)) := by
  refine ⟨?_, fun _ _ => ⟨rfl, rfl, rfl⟩, ?_⟩
  · exact initial_tasks now (verified_code .reader _ rfl) (verified_code .writer _ rfl)
      (verified_code .keepalive _ rfl)
  · exact ⟨fun _ => ⟨rfl, fun _ => rfl⟩, nofun, fun _ => nofun, fun _ _ => nofun, nofun, fun _ => nofun,
      fun _ _ => nofun⟩

/-- Nobody is closing the connection any more: no task is between its `swap` of `closed` and the end
of its `fail_pending`, unless it was dropped. -/
def Over (t : Run) : Prop :=
  ∀ i < t.pool.tasks.length, .dropped i ∈ t.history ∨ protocol.held t.history i = .idle

/-- If no request is registered after the pending ones were taken, and no task is dropped while it
closes the connection, then closing it notifies every request that was not over. -/
theorem closure_notifies_all {now : ℕ} {labels : Schedule} {t : Run}
    (hrun : Reaches now labels t)
    (hmeets : Allows (traced system) (Meets system fun c log entry => orderly c log entry = true)
      (Traced.begin (initial now)) labels)
    (hclosed : t.pool.shared.closed = true) (hover : Over t) :
    t.pool.shared.pending = [] ∧
      ∀ request ∈ t.pool.shared.registered,
        Notified t.history request.2 ∨ Settled t.history request.1 := by
  have haccounted := maintains_invariant.run (accounted_initial now) hmeets hrun
  have hinvariant := haccounted.invariant
  -- who was dropped was not closing the connection
  have hinert := inert_of_dropped (D := protocol) (P := (· = .idle))
    (fun _ _ _ h => of_decide_eq_true h)
    (fun _ h => absurd h List.not_mem_nil) hmeets hrun
  have hidle : ∀ i, protocol.held t.history i = .idle := by
    intro i
    by_cases hi : i < t.pool.tasks.length
    · obtain hdropped | hidle := hover i hi
      · exact (hinert i hdropped).held
      · exact hidle
    · exact (haccounted.fresh i (Nat.le_of_not_lt hi)).held
  have hdrained : drained t.history = true := by
    by_contra hnot
    obtain ⟨i, hi⟩ := hinvariant.draining hclosed (Bool.eq_false_iff.mpr hnot)
    rw [hidle i] at hi
    cases hi
  have hempty := hinvariant.empty hdrained
  refine ⟨hempty, ?_⟩
  intro request hrequest
  obtain ⟨_, hrouting⟩ := ResponseRouting.invariant_run (run_of_traced hrun)
  have hnodup := hrouting.registry.ids.used_nodup
  obtain hpending | htaken | hsettled := hinvariant.registered hnodup request hrequest
  · rw [hempty] at hpending
    cases hpending
  · obtain hnotified | ⟨i, entries, hi, -⟩ := hinvariant.told request htaken
    · exact .inl hnotified
    · rw [hidle i] at hi
      cases hi
  · exact .inr hsettled

def queryCall : Name := .begin 3 1 zeroNonce 0 []

def brokenAfter : Schedule :=
  .start queryCall :: beginOne 3 ++ writeOne ++ List.replicate 3 (.step 3 .proceed) ++
    [.step 0 (.read (.error "connection reset")), .step 0 .proceed, .step 0 .proceed,
      .step 0 (.order [(1, 0)]), .step 0 .proceed]

theorem closure_notifies_all_sample : ∃ t, Reaches 0 brokenAfter t ∧
    t.pool.shared.registered = [(1, 0)] ∧ t.pool.shared.pending = [] ∧
    ∀ request ∈ t.pool.shared.registered, Notified t.history request.2 ∨
      Settled t.history request.1 := by
  have hfacts : ((runFrom (traced system) (Traced.begin (initial 0)) brokenAfter).map fun t : Run =>
      decide (t.pool.shared.registered = [(1, 0)] ∧ t.pool.shared.closed = true ∧
        ∀ i < t.pool.tasks.length, protocol.held t.history i = .idle)) = some true := by decide +kernel
  obtain ⟨t, hrun, hfacts⟩ := Option.map_eq_some_iff.mp hfacts
  obtain ⟨hregistered, hclosed, hidle⟩ := of_decide_eq_true hfacts
  have hover : Over t := fun i hi => .inr (hidle i hi)
  exact ⟨t, hrun, hregistered, closure_notifies_all hrun (by decide +kernel) hclosed hover⟩

/-- The connection breaks after `begin` has looked at `closed` and before it registers its request. -/
def brokenBefore : Schedule :=
  .start queryCall :: (beginOne 3).take 8 ++
    [.step 0 (.read (.error "connection reset")), .step 0 .proceed, .step 0 .proceed,
      .step 0 (.order [])] ++
    (beginOne 3).drop 8 ++ writeOne ++ List.replicate 4 (.step 3 .proceed)

theorem request_is_stranded : ∃ t, Reaches 0 brokenBefore t ∧ t.pool.shared.closed = true ∧ Over t ∧
    t.pool.shared.pending = [(1, 0)] ∧ ¬ Notified t.history 0 ∧
    t.pool.shared.handles.map (fun h => (h.id, h.channel, h.active, h.dropped)) =
      [(1, 0, true, false)] := by
  have hfacts : ((runFrom (traced system) (Traced.begin (initial 0)) brokenBefore).map fun t : Run =>
      decide (t.pool.shared.closed = true ∧
        (∀ i < t.pool.tasks.length, protocol.held t.history i = .idle) ∧
        t.pool.shared.pending = [(1, 0)] ∧ ¬ Notified t.history 0 ∧
        t.pool.shared.handles.map (fun h => (h.id, h.channel, h.active, h.dropped)) =
          [(1, 0, true, false)])) =
      some true := by decide +kernel
  obtain ⟨t, hrun, hfacts⟩ := Option.map_eq_some_iff.mp hfacts
  obtain ⟨hclosed, hidle, hrest⟩ := of_decide_eq_true hfacts
  exact ⟨t, hrun, hclosed, fun i hi => .inr (hidle i hi), hrest⟩

end Mst5Client.ConnectionClosure
