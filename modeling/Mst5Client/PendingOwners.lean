import Mst5Client.PendingDuties
import Mst5Client.ResponseRouting

set_option autoImplicit false

/-!
# Every pending id has somebody to see to it

An id in `pending` belongs to a handle whose drop removes it, or to a task that has yet to make such
a handle or to remove the id.
-/
namespace Mst5Client.PendingOwners
open MachineRuns TaskPrograms TaskTraces ConnectionState ConnectionCalls ConnectionEffects
  ConnectionHistory
open ConnectionPrograms PendingDuties

section Facts
variable {c c' : Connection} {id channel : ℕ}
variable {handle : ℕ} {l : Locals} {op : Op} {choice : Choice} {e : Performed (Ans op)}

def Gone (c : Connection) (id : ℕ) : Prop :=
  id ∈ c.registered.map Prod.fst ∧ id ∉ c.pending.map Prod.fst

def Hung (c : Connection) (channel : ℕ) : Prop :=
  channel ∈ c.registered.map Prod.snd ∧ channel ∉ c.pending.map Prod.snd

/-- What an operation can do to the registry: it only grows, and what becomes pending is new. -/
structure Later (c c' : Connection) : Prop where
  registered : ∀ e ∈ c.registered, e ∈ c'.registered
  pending : ∀ e ∈ c'.pending, e ∈ c.pending ∨
    e.1 ∉ c.registered.map Prod.fst ∧ e.2 ∉ c.registered.map Prod.snd
  ids : ∃ more, handleIds c' = handleIds c ++ more

theorem Later.hasId (h : Later c c') (hid : HasId (handleIds c) handle id) :
    HasId (handleIds c') handle id := by
  obtain ⟨more, hmore⟩ := h.ids
  rw [hmore]
  exact hid.mono

theorem Later.gone (h : Later c c') (hid : Gone c id) : Gone c' id := by
  obtain ⟨e, he, rfl⟩ := List.mem_map.mp hid.1
  refine ⟨List.mem_map_of_mem (h.registered e he), ?_⟩
  intro hpending
  obtain ⟨e', he', hsame⟩ := List.mem_map.mp hpending
  obtain hold | ⟨hnew, -⟩ := h.pending e' he'
  · exact hid.2 (hsame ▸ List.mem_map_of_mem hold)
  · exact hnew (hsame ▸ hid.1)

theorem Later.hung (h : Later c c') (hchannel : Hung c channel) : Hung c' channel := by
  obtain ⟨e, he, rfl⟩ := List.mem_map.mp hchannel.1
  refine ⟨List.mem_map_of_mem (h.registered e he), ?_⟩
  intro hpending
  obtain ⟨e', he', hsame⟩ := List.mem_map.mp hpending
  obtain hold | ⟨-, hnew⟩ := h.pending e' he'
  · exact hchannel.2 (hsame ▸ List.mem_map_of_mem hold)
  · exact hnew (hsame ▸ hchannel.1)

theorem later_of_same (hpending : ∀ e ∈ c'.pending, e ∈ c.pending)
    (hregistered : Part.registered.Same c c') (hids : ∃ more, handleIds c' = handleIds c ++ more) :
    Later c c' := by
  refine ⟨fun e he => ?_, fun e he => .inl (hpending e he), hids⟩
  rw [show c'.registered = c.registered from hregistered]
  exact he

theorem later_discard (c : Connection) (l : Locals) : Later c (c.discard l).1 := by
  refine later_of_same (fun e he => ?_) (discard_same c l .registered) ⟨[], ?_⟩
  · rwa [show (c.discard l).1.pending = c.pending from discard_same c l .pending] at he
  · rw [List.append_nil]
    exact discard_same c l .handleIds

def Routed (c : Connection) : Entry Op Ans Name → Prop
  | .performed i op _ => ∃ rs, ResponseRouting.Invariant c rs ∧ RoutingDiscipline.pre (rs i) op
  | _ => True

theorem later_perform {i : ℕ} (hrouted : Routed c (.performed i op e.answer))
    (he : perform c l op choice = some e) : Later c e.shared := by
  have hsame := (perform_frames choice e he).same
  have hids := handleIds_grow he
  cases op with
  | insertPending id channel =>
    obtain ⟨rs, hrouting, hid, hchannel⟩ := hrouted
    obtain ⟨hpending, hregistered⟩ := insertPending_effect he
    refine ⟨?_, ?_, hids⟩
    · rw [hregistered]
      exact fun e he => List.mem_append_left _ he
    · intro entry hentry
      rw [hpending] at hentry
      obtain hold | hnew := List.mem_append.mp hentry
      · exact .inl (FrameRouting.mem_without.mp hold).1
      · obtain rfl := List.mem_singleton.mp hnew
        exact .inr ⟨hrouting.registry.ids.held_unused i id hid,
          hrouting.registry.channels.held_unused i channel hchannel⟩
  | removePending id =>
    refine later_of_same (fun entry hentry => ?_) (hsame .registered rfl) hids
    rw [removePending_effect he] at hentry
    exact (FrameRouting.mem_without.mp hentry).1
  | lookupPending a remove =>
    refine later_of_same (fun entry hentry => ?_) (hsame .registered rfl) hids
    rw [lookupPending_effect he] at hentry
    split_ifs at hentry
    · exact (FrameRouting.mem_without.mp hentry).1
    · exact hentry
  | takePending =>
    refine later_of_same (fun entry hentry => ?_) (hsame .registered rfl) hids
    rw [(takePending_effect he).2] at hentry
    cases hentry
  | _ =>
    refine later_of_same (fun entry hentry => ?_) (hsame .registered rfl) hids
    rwa [show e.shared.pending = c.pending from hsame .pending rfl] at hentry

variable {r : Upkeep} {rs : ℕ → RoutingDiscipline.Owned}

/-- What a task has found out is true. -/
structure Known (c : Connection) (r : Upkeep) : Prop where
  drained : ∀ channel ∈ r.drained, Hung c channel
  gone : ∀ handle ∈ r.gone, ∃ id, HasId (handleIds c) handle id ∧ Gone c id
  ids : ∀ known ∈ r.ids, HasId (handleIds c) known.1 known.2
  loop : r.loop = true → r.owes = none

theorem Known.later (h : Known c r) (hlater : Later c c') : Known c' r where
  drained := fun channel hchannel => hlater.hung (h.drained channel hchannel)
  gone := by
    intro handle hhandle
    obtain ⟨id, hid, hgone⟩ := h.gone handle hhandle
    exact ⟨id, hlater.hasId hid, hlater.gone hgone⟩
  ids := fun known hknown => hlater.hasId (h.ids known hknown)
  loop := h.loop

theorem known_of_empty (hdrained : r.drained = []) (hgone : r.gone = []) (hids : r.ids = [])
    (hloop : r.loop = true → r.owes = none) : Known c r where
  drained := by
    rw [hdrained]
    exact fun _ h => absurd h List.not_mem_nil
  gone := by
    rw [hgone]
    exact fun _ h => absurd h List.not_mem_nil
  ids := by
    rw [hids]
    exact fun _ h => absurd h List.not_mem_nil
  loop := hloop

theorem known_start (c : Connection) (n : Name) : Known c (start n) := by
  cases n <;> exact known_of_empty rfl rfl rfl Bool.noConfusion

/-- Why an item is in the queue of a channel. -/
def Explained (c : Connection) (channel : ℕ) (log : List Arrived) : Item → Prop
  | .frame a => a ∈ log
  | .failed _ => Hung c channel

def Queued (c : Connection) : Prop :=
  ∀ channel queue log, (mail c)[channel]? = some (queue, log) →
    ∀ item ∈ queue, Explained c channel log item

theorem Explained.later {channel : ℕ} {log : List Arrived} {item : Item}
    (h : Explained c channel log item) (hlater : Later c c') : Explained c' channel log item := by
  cases item with
  | frame a => exact h
  | failed message => exact hlater.hung h

theorem Explained.append {channel : ℕ} {log : List Arrived} {item : Item}
    (h : Explained c channel log item) (more : List Arrived) :
    Explained c channel (log ++ more) item := by
  cases item with
  | frame a => exact List.mem_append_left _ h
  | failed message => exact h

theorem Queued.later (h : Queued c) (hlater : Later c c') (hmail : mail c' = mail c) :
    Queued c' := by
  intro channel queue log hmailed item hitem
  rw [hmail] at hmailed
  exact (h channel queue log hmailed item hitem).later hlater

theorem Queued.modify (h : Queued c) (hlater : Later c c') {n : ℕ}
    {f : List Item × List Arrived → List Item × List Arrived}
    (hmail : mail c' = (mail c).modify n f) (hf : ∀ queue log, (mail c)[n]? = some (queue, log) →
      ∀ item ∈ (f (queue, log)).1, Explained c' n (f (queue, log)).2 item) : Queued c' := by
  intro channel queue log hmailed item hitem
  rw [hmail, List.getElem?_modify] at hmailed
  obtain ⟨⟨queue', log'⟩, hold, hchanged⟩ := Option.map_eq_some_iff.mp hmailed
  by_cases hn : n = channel
  · rw [if_pos hn] at hchanged
    subst hn
    have hexplained := hf queue' log' hold
    rw [hchanged] at hexplained
    exact hexplained item hitem
  · rw [if_neg hn] at hchanged
    cases hchanged
    exact (h channel queue log hold item hitem).later hlater

theorem registered_of_hasId (hrouting : ResponseRouting.Invariant c rs) {id : ℕ}
    (hid : HasId (handleIds c) handle id) : id ∈ c.registered.map Prod.fst := by
  obtain ⟨x, hx, rfl⟩ := List.mem_map.mp (List.mem_of_getElem? hid)
  exact List.mem_map_of_mem (f := Prod.fst) (hrouting.handle_registered hx)

theorem hasId_of_handle {x : Handle} (hx : c.handles[handle]? = some x) :
    HasId (handleIds c) handle x.id := by
  rw [HasId, handleIds, List.getElem?_map, hx]
  rfl

theorem gone_of_channel (hrouting : ResponseRouting.Invariant c rs) {x : Handle}
    (hx : x ∈ c.handles) (hchannel : x.channel ∉ c.pending.map Prod.snd) : Gone c x.id := by
  have hregistered := hrouting.handle_registered hx
  refine ⟨List.mem_map_of_mem (f := Prod.fst) hregistered, ?_⟩
  intro hpending
  obtain ⟨e, he, hsame⟩ := List.mem_map.mp hpending
  obtain rfl : e = ResponseRouting.key x := List.inj_on_of_nodup_map hrouting.registry.ids.used_nodup
    (hrouting.registry.pending e he) hregistered hsame
  exact hchannel (List.mem_map_of_mem (f := Prod.snd) he)

theorem gone_of_received (hrouting : ResponseRouting.Invariant c rs) (hqueued : Queued c)
    {received : Received} {left : List (List Item × List Arrived)}
    (h : Receives c handle received left) (hends : ends received = true) :
    ∃ id, HasId (handleIds c) handle id ∧ Gone c id := by
  cases h with
  | timedOut => cases hends
  | @closed x hx hchannel =>
    exact ⟨x.id, hasId_of_handle hx, gone_of_channel hrouting (List.mem_of_getElem? hx) hchannel⟩
  | @item x item queue log hx hmail =>
    have hmem := List.mem_of_getElem? hx
    refine ⟨x.id, hasId_of_handle hx, ?_⟩
    have hexplained := hqueued x.channel _ log hmail item List.mem_cons_self
    cases item with
    | failed message => exact gone_of_channel hrouting hmem hexplained.2
    | frame a =>
      obtain ⟨ch, hch, hframes, -⟩ := hrouting.handle_log hmem
      have hlog : a ∈ ch.log := by
        rw [mail, List.getElem?_map, hch] at hmail
        rw [show ch.log = log from congrArg Prod.snd (Option.some.inj hmail)]
        exact hexplained
      refine ⟨List.mem_map_of_mem (f := Prod.fst) (hrouting.handle_registered hmem), ?_⟩
      rw [← (hframes a hlog).1]
      exact (hrouting.log hch).ended a hlog hends

theorem known_post (hrouting : ResponseRouting.Invariant c rs) (h : Known c r) (hqueued : Queued c)
    (hpre : pre r op) (he : perform c l op choice = some e) (hlater : Later c e.shared) :
    Known e.shared (post r op e.answer) := by
  have hknown := h.later hlater
  cases op with
  | insertPending id channel =>
    exact { hknown with loop := fun hloop => absurd (hpre.2.symm.trans hloop) Bool.false_ne_true }
  | newHandle stream id channel => exact { hknown with loop := fun _ => rfl }
  | swapActive handle =>
    cases hanswer : e.answer with
    | false => exact hknown
    | true =>
      change Known e.shared (if handle ∈ r.gone then r else _)
      split_ifs
      · exact hknown
      · exact { hknown with loop := fun hloop => absurd (hpre.2.symm.trans hloop) Bool.false_ne_true }
  | handleId handle =>
    refine { hknown with ids := fun known hmem => ?_, loop := fun hloop => ?_ }
    · obtain rfl | hold := List.mem_cons.mp hmem
      · exact says_perform he
      · exact hknown.ids known hold
    · simp [post, h.loop hloop]
  | removePending id =>
    refine { hknown with gone := fun handle hmem => ?_, loop := fun hloop => ?_ }
    · obtain hnew | hold := List.mem_append.mp hmem
      · obtain ⟨known, hfilter, rfl⟩ := List.mem_map.mp hnew
        obtain ⟨hids, hid⟩ := List.mem_filter.mp hfilter
        obtain rfl := of_decide_eq_true hid
        refine ⟨known.2, hknown.ids known hids, ?_, ?_⟩
        · obtain ⟨entry, hentry, hsame⟩ :=
            List.mem_map.mp (registered_of_hasId hrouting (h.ids known hids))
          exact List.mem_map.mpr ⟨entry, hlater.registered entry hentry, hsame⟩
        · rw [removePending_effect he]
          intro hpending
          obtain ⟨entry, hentry, hsame⟩ := List.mem_map.mp hpending
          exact (FrameRouting.mem_without.mp hentry).2 hsame
      · exact hknown.gone handle hold
    · simp [post, h.loop hloop]
  | recvHandle handle =>
    change Known e.shared (if ends e.answer = true then _ else r)
    split_ifs with hends
    · refine { hknown with gone := fun other hmem => ?_ }
      obtain rfl | hold := List.mem_cons.mp hmem
      · obtain ⟨id, hid, hgone⟩ := gone_of_received hrouting hqueued (recvHandle_effect he).2 hends
        exact ⟨id, hlater.hasId hid, hlater.gone hgone⟩
      · exact hknown.gone other hold
    · exact hknown
  | takePending =>
    obtain ⟨hperm, hempty⟩ := takePending_effect he
    refine { hknown with drained := fun channel hmem => ?_ }
    obtain hnew | hold := List.mem_append.mp hmem
    · obtain ⟨entry, hentry, rfl⟩ := List.mem_map.mp hnew
      have hregistered := hrouting.registry.pending entry (hperm.mem_iff.mp hentry)
      refine ⟨List.mem_map_of_mem (hlater.registered entry hregistered), ?_⟩
      rw [hempty]
      exact List.not_mem_nil
    · exact hknown.drained channel hold
  | _ => exact hknown

theorem mail_of_apart {ω : Type} {e : Performed ω} (h : Apart c e) : mail e.shared = mail c := by
  rw [mail, h.1]
  rfl

theorem queued_perform (hqueued : Queued c) (h : Known c r) (hpre : pre r op)
    (he : perform c l op choice = some e) (hlater : Later c e.shared) : Queued e.shared := by
  cases op with
  | newChannel =>
    intro channel queue log hmail item hitem
    rw [(newChannel_effect he).1] at hmail
    obtain hlt | hge := Nat.lt_or_ge channel (mail c).length
    · rw [List.getElem?_append_left hlt] at hmail
      exact (hqueued channel queue log hmail item hitem).later hlater
    · rw [List.getElem?_append_right hge] at hmail
      cases List.mem_singleton.mp (List.mem_of_getElem? hmail)
      cases hitem
  | sendChannel channel item =>
    obtain hsame | hpushed := (sendChannel_effect he).2
    · exact hqueued.later hlater hsame
    · refine hqueued.modify hlater hpushed ?_
      intro queue log hmail item' hitem
      obtain hold | hnew := List.mem_append.mp hitem
      · exact ((hqueued channel queue log hmail item' hold).later hlater).append _
      · obtain rfl := List.mem_singleton.mp hnew
        cases item' with
        | frame a => exact List.mem_append_right _ (List.mem_singleton_self a)
        | failed message => exact hlater.hung (h.drained channel hpre)
  | recvHandle handle =>
    obtain ⟨-, hreceives⟩ := recvHandle_effect he
    generalize e.answer = received at hreceives
    generalize hmail : mail e.shared = mail at hreceives
    cases hreceives with
    | timedOut => exact hqueued.later hlater hmail
    | closed hx hchannel => exact hqueued.later hlater hmail
    | item hx hqueue =>
      refine hqueued.modify hlater hmail ?_
      intro queue log hold item hitem
      cases hqueue.symm.trans hold
      exact (hqueued _ _ _ hold item (List.mem_cons_of_mem _ hitem)).later hlater
  | newHandle stream id channel => exact hqueued.later hlater (newHandle_handles he).1
  | swapActive handle => exact hqueued.later hlater (swapActive_effect he).1
  | dropHandle handle =>
    refine hqueued.later hlater ?_
    rw [(dropHandle_effect he).1]
    exact dropHandle_mail handle
  | _ => exact hqueued.later hlater (mail_of_apart (perform_apart rfl e he))

end Facts

variable {c : Connection} {log : Log} {rs : ℕ → Upkeep} {i : ℕ}

structure Invariant (c : Connection) (_ : Log) (rs : ℕ → Upkeep) : Prop where
  known : ∀ i, Known c (rs i)
  queued : Queued c
  loops : ∀ i < 3, (rs i).loop = true

/-- A stream is opened with a payload that fits into a frame, and nobody is dropped who has yet to
see to an id. -/
def careful (_ : Connection) (log : Log) : Entry Op Ans Name → Bool
  | .started _ n => fits n
  | .dropped i => (protocol.held log i).owes = none
  | _ => true

def Guard (c : Connection) (log : Log) (entry : Entry Op Ans Name) : Prop :=
  careful c log entry = true ∧ Routed c entry

theorem post_loop (r : Upkeep) (op : Op) (answer : Ans op) : (post r op answer).loop = r.loop := by
  cases op with
  | swapActive handle =>
    cases answer with
    | false => rfl
    | true =>
      change (if handle ∈ r.gone then r else _).loop = r.loop
      split_ifs <;> rfl
  | recvHandle handle =>
    change (if ends answer = true then _ else r).loop = r.loop
    split_ifs <;> rfl
  | _ => rfl

theorem invariant_perform (h : Invariant c log rs) {l : Locals} {op : Op} {choice : Choice}
    {e : Performed (Ans op)} {log' : Log} (hpre : pre (rs i) op)
    (he : perform c l op choice = some e) (hrouted : Routed c (.performed i op e.answer)) :
    Invariant e.shared log' (Function.update rs i (post (rs i) op e.answer)) := by
  have hlater := later_perform hrouted he
  obtain ⟨_, hrouting, -⟩ := hrouted
  refine ⟨?_, queued_perform h.queued (h.known i) hpre he hlater, ?_⟩
  · intro j
    by_cases hj : j = i
    · rw [hj, Function.update_self]
      exact known_post hrouting (h.known i) h.queued hpre he hlater
    · rw [Function.update_of_ne hj]
      exact (h.known j).later hlater
  · intro j hj
    by_cases hji : j = i
    · rw [hji, Function.update_self, post_loop]
      exact h.loops i (hji ▸ hj)
    · rw [Function.update_of_ne hji]
      exact h.loops j hj

theorem dutiful_aftermath {handle : ℕ} {n : Name} (h : Aftermath c handle n) :
    Dutiful (start n) (code n) := by
  obtain ⟨id, -, rfl | rfl⟩ := h
  · exact dutiful_cancelRequest id
  · exact dutiful_abortStream id

theorem upholds_invariant : Upholds system protocol Guard Dutiful Invariant where
  call := fun _ _ _ h => h
  resumed := fun _ _ h => dutiful_resumed h
  cut := fun _ _ _ h => ⟨of_decide_eq_true h.1, fun _ hm => by cases hm⟩
  perform := by
    intro c log rs i l op choice e h hpre he hguard
    refine ⟨invariant_perform h hpre he hguard.2, fun n hn => ?_⟩
    obtain ⟨_, -, haftermath⟩ := (perform_frames choice e he).spawned n hn
    exact dutiful_aftermath haftermath
  discard := by
    intro c log rs l h
    have hlater := later_discard c l
    refine ⟨⟨fun i => (h.known i).later hlater, h.queued.later hlater (discard_mail l), h.loops⟩,
      fun n hn => ?_⟩
    obtain ⟨_, -, haftermath⟩ := discard_aftermath c l n hn
    exact dutiful_aftermath haftermath
  started := by
    intro c log rs i n h hidle
    refine ⟨fun j => ?_, h.queued, fun j hj => ?_⟩
    · by_cases hji : j = i
      · rw [hji, Function.update_self]
        exact known_start c n
      · rw [Function.update_of_ne hji]
        exact h.known j
    · by_cases hji : j = i
      · have hloop := h.loops i (hji ▸ hj)
        rw [hidle] at hloop
        cases hloop
      · rw [Function.update_of_ne hji]
        exact h.loops j hj
  dropped := fun _ _ _ _ h _ => ⟨h.known, h.queued, h.loops⟩
  external := fun _ _ _ _ _ h => dutiful_start h.1

variable {c' : Connection} {ids : List ℕ} {r : Upkeep} {id : ℕ}
variable {op : Op} {l : Locals} {choice : Choice} {e : Performed (Ans op)}

/-- The drop of a handle removes the id. -/
def Kept (c : Connection) (id : ℕ) : Prop :=
  ∃ x ∈ c.handles, x.id = id ∧ x.active = true ∧ x.dropped = false

def settles (id : ℕ) : Op → Prop
  | .removePending other => other = id
  | .newHandle _ other _ => other = id
  | _ => False

def Possible (ids : List ℕ) : (op : Op) → Ans op → Prop
  | .handleId handle, answer => ∀ id, HasId ids handle id → answer = id
  | _, _ => True

/-- However it goes on, the program comes to see to the id. -/
def Settles (ids : List ℕ) (id : ℕ) (prog : Call (Option Name)) : Prop :=
  Performs (Possible ids) (settles id) prog

/-- What the task owes is to see to the id. -/
def Answers (ids : List ℕ) (r : Upkeep) (id : ℕ) : Prop :=
  r.owes = some (.id id) ∨ ∃ handle, r.owes = some (.handle handle) ∧ HasId ids handle id

theorem Answers.owes_ne (h : Answers ids r id) : r.owes ≠ none := by
  obtain h | ⟨handle, h, -⟩ := h <;>
  · rw [h]
    exact Option.some_ne_none _

theorem Answers.later (h : Answers (handleIds c) r id) (hlater : Later c c') :
    Answers (handleIds c') r id :=
  h.imp_right fun ⟨handle, howes, hid⟩ => ⟨handle, howes, hlater.hasId hid⟩

theorem Answers.persist (h : Answers ids r id) {answer : Ans op} (hpre : pre r op)
    (hnot : ¬ settles id op) (hpossible : Possible ids op answer) :
    Answers ids (post r op answer) id := by
  cases op with
  | insertPending other channel => exact absurd hpre.1 h.owes_ne
  | swapActive handle => exact absurd hpre.1 h.owes_ne
  | newHandle stream other channel =>
    obtain h | ⟨handle, h, -⟩ := h
    · cases h.symm.trans hpre
      exact absurd rfl hnot
    · cases h.symm.trans hpre
  | handleId handle =>
    obtain h | ⟨other, h, hid⟩ := h
    · exact .inl (by simp [post, h])
    · by_cases hsame : other = handle
      · subst hsame
        obtain rfl : answer = id := hpossible id hid
        exact .inl (by simp [post, h])
      · exact .inr ⟨other, by simp [post, h, hsame], hid⟩
  | removePending other =>
    obtain h | ⟨handle, h, hid⟩ := h
    · have hother : id ≠ other := fun heq => hnot heq.symm
      exact .inl (by simp [post, h, hother])
    · exact .inr ⟨handle, by simp [post, h], hid⟩
  | recvHandle handle =>
    change Answers ids (if ends answer = true then _ else r) id
    split_ifs <;> exact h
  | _ => exact h

theorem settles_of_answers {prog : Call (Option Name)} (hdutiful : Dutiful r prog)
    (h : Answers ids r id) : Settles ids id prog := by
  induction prog generalizing r with
  | ret next => exact absurd hdutiful.1 h.owes_ne
  | call op k ih =>
    by_cases hsettles : settles id op
    · exact .inl hsettles
    · exact .inr fun answer hpossible =>
        ih answer (hdutiful.2 answer) (h.persist hdutiful.1 hsettles hpossible)

/-- Somebody sees to the id: a handle, a task, or one of those that are about to be spawned. -/
def Attended (c : Connection) (rs : ℕ → Upkeep) (names : List Name) (id : ℕ) : Prop :=
  Kept c id ∨ (∃ i, Answers (handleIds c) (rs i) id) ∨ ∃ n ∈ names, (start n).owes = some (.id id)

theorem Kept.subset (h : Kept c id) (hhandles : ∀ x ∈ c.handles, x ∈ c'.handles) : Kept c' id := by
  obtain ⟨x, hx, hfacts⟩ := h
  exact ⟨x, hhandles x hx, hfacts⟩

theorem Kept.dropHandle (h : Kept c id) (n : ℕ) :
    Kept (c.dropHandle n).1 id ∨ ∃ m ∈ (c.dropHandle n).2, (start m).owes = some (.id id) := by
  obtain ⟨x, hx, hid, hactive, hlive⟩ := h
  obtain ⟨k, hk⟩ := List.mem_iff_getElem?.mp hx
  unfold Connection.dropHandle
  split
  · exact .inl ⟨x, hx, hid, hactive, hlive⟩
  · rename_i y hy
    split
    · exact .inl ⟨x, hx, hid, hactive, hlive⟩
    · by_cases hkn : n = k
      · subst hkn
        cases hk.symm.trans hy
        right
        rw [if_pos hactive]
        refine ⟨_, List.mem_singleton_self _, ?_⟩
        split_ifs <;> exact congrArg (fun id => some (Duty.id id)) hid
      · left
        refine ⟨x, List.mem_of_getElem? (i := k) ?_, hid, hactive, hlive⟩
        exact (List.getElem?_modify_ne _ _ hkn).trans hk

theorem Kept.discard (h : Kept c id) (l : Locals) :
    Kept (c.discard l).1 id ∨ ∃ m ∈ (c.discard l).2, (start m).owes = some (.id id) := by
  have hreleased : Kept (c.release l) id := h.subset fun x hx => by rwa [release_handles]
  unfold Connection.discard
  split
  · exact .inl hreleased
  · exact hreleased.dropHandle _

theorem kept_perform (h : Kept c id) (he : perform c l op choice = some e) (hknown : Known c r)
    (hpending : id ∈ c.pending.map Prod.fst) :
    Kept e.shared id ∨ Answers (handleIds c) (post r op e.answer) id ∨
      ∃ m ∈ e.spawned, (start m).owes = some (.id id) := by
  cases op with
  | dropHandle handle =>
    obtain ⟨hshared, hspawned⟩ := dropHandle_effect he
    rw [hshared, hspawned]
    exact (h.dropHandle handle).imp_right .inr
  | swapActive handle =>
    obtain ⟨-, hhandles, x, hx, hanswer⟩ := swapActive_effect he
    obtain ⟨y, hy, hid, hactive, hlive⟩ := h
    obtain ⟨k, hk⟩ := List.mem_iff_getElem?.mp hy
    by_cases hkn : handle = k
    · subst hkn
      cases hk.symm.trans hx
      have hhas : HasId (handleIds c) handle id := hid ▸ hasId_of_handle hx
      refine .inr (.inl ?_)
      rw [show e.answer = true from hanswer.trans hactive]
      -- a handle whose id is still pending is not among those that are over
      have hnot : handle ∉ r.gone := by
        intro hgone
        obtain ⟨other, hother, hover⟩ := hknown.gone handle hgone
        cases hhas.symm.trans hother
        exact hover.2 hpending
      change Answers _ (if handle ∈ r.gone then r else _) id
      rw [if_neg hnot]
      exact .inr ⟨handle, rfl, hhas⟩
    · refine .inl ⟨y, List.mem_of_getElem? (i := k) ?_, hid, hactive, hlive⟩
      rw [hhandles]
      exact (List.getElem?_modify_ne _ _ hkn).trans hk
  | newChannel => exact .inl (h.subset fun x hx => by rwa [(newChannel_effect he).2])
  | sendChannel channel item => exact .inl (h.subset fun x hx => by rwa [(sendChannel_effect he).1])
  | recvHandle handle => exact .inl (h.subset fun x hx => by rwa [(recvHandle_effect he).1])
  | newHandle stream other channel =>
    refine .inl (h.subset fun x hx => ?_)
    rw [(newHandle_handles he).2]
    exact List.mem_append_left _ hx
  | _ => exact .inl (h.subset fun x hx => by rwa [(perform_apart rfl e he).2])

theorem possible_perform (he : perform c l op choice = some e) :
    Possible (handleIds c) op e.answer := by
  cases op with
  | handleId handle =>
    intro id hid
    exact Option.some.inj ((handleId_effect he).1.symm.trans hid)
  | _ => trivial

theorem kept_of_settles (he : perform c l op choice = some e) (hsettles : settles id op)
    (hpending : id ∈ e.shared.pending.map Prod.fst) : Kept e.shared id := by
  cases op with
  | removePending other =>
    obtain rfl : other = id := hsettles
    rw [removePending_effect he] at hpending
    obtain ⟨entry, hentry, hsame⟩ := List.mem_map.mp hpending
    exact absurd hsame (FrameRouting.mem_without.mp hentry).2
  | newHandle stream other channel =>
    obtain rfl : other = id := hsettles
    refine ⟨⟨stream, other, channel, true, false⟩, ?_, rfl, rfl, rfl⟩
    rw [(newHandle_handles he).2]
    exact List.mem_append_right _ (List.mem_singleton_self _)
  | _ => exact hsettles.elim

theorem pending_before (he : perform c l op choice = some e)
    (hpending : id ∈ e.shared.pending.map Prod.fst) :
    id ∈ c.pending.map Prod.fst ∨ ∃ channel, op = .insertPending id channel := by
  have hsame := (perform_frames choice e he).same
  have hwithout : ∀ other, id ∈ (without other c.pending).map Prod.fst →
      id ∈ c.pending.map Prod.fst := by
    intro other h
    obtain ⟨entry, hentry, hid⟩ := List.mem_map.mp h
    exact List.mem_map.mpr ⟨entry, (FrameRouting.mem_without.mp hentry).1, hid⟩
  cases op with
  | insertPending other channel =>
    rw [(insertPending_effect he).1, List.map_append] at hpending
    obtain hold | hnew := List.mem_append.mp hpending
    · exact .inl (hwithout other hold)
    · obtain rfl : id = other := List.mem_singleton.mp hnew
      exact .inr ⟨channel, rfl⟩
  | removePending other =>
    rw [removePending_effect he] at hpending
    exact .inl (hwithout other hpending)
  | lookupPending a remove =>
    rw [lookupPending_effect he] at hpending
    split_ifs at hpending
    · exact .inl (hwithout _ hpending)
    · exact .inl hpending
  | takePending =>
    rw [(takePending_effect he).2] at hpending
    cases hpending
  | _ =>
    rw [show e.shared.pending = c.pending from hsame .pending rfl] at hpending
    exact .inl hpending

theorem attended_perform {log : Log} {rs : ℕ → Upkeep} {i : ℕ} (h : Invariant c log rs)
    (hattended : ∀ id ∈ c.pending.map Prod.fst, Attended c rs [] id) (hpre : pre (rs i) op)
    (he : perform c l op choice = some e) (hlater : Later c e.shared) :
    ∀ id ∈ e.shared.pending.map Prod.fst,
      Attended e.shared (Function.update rs i (post (rs i) op e.answer)) e.spawned id := by
  intro id hpending
  have hself : Answers (handleIds c) (post (rs i) op e.answer) id →
      Attended e.shared (Function.update rs i (post (rs i) op e.answer)) e.spawned id := by
    intro hanswers
    refine .inr (.inl ⟨i, ?_⟩)
    rw [Function.update_self]
    exact hanswers.later hlater
  obtain hold | ⟨channel, rfl⟩ := pending_before he hpending
  · obtain hkept | ⟨j, hanswers⟩ | ⟨n, hn, -⟩ := hattended id hold
    · obtain hkept | hanswers | hspawned := kept_perform hkept he (h.known i) hold
      · exact .inl hkept
      · exact hself hanswers
      · exact .inr (.inr hspawned)
    · by_cases hji : j = i
      · subst hji
        by_cases hsettles : settles id op
        · exact .inl (kept_of_settles he hsettles hpending)
        · exact hself (hanswers.persist hpre hsettles (possible_perform he))
      · refine .inr (.inl ⟨j, ?_⟩)
        rw [Function.update_of_ne hji]
        exact hanswers.later hlater
    · cases hn
  · exact hself (.inl rfl)

theorem attended_discard {rs : ℕ → Upkeep} (l : Locals)
    (hattended : ∀ id ∈ c.pending.map Prod.fst, Attended c rs [] id) :
    ∀ id ∈ (c.discard l).1.pending.map Prod.fst, Attended (c.discard l).1 rs (c.discard l).2 id := by
  intro id hpending
  rw [show (c.discard l).1.pending = c.pending from discard_same c l .pending] at hpending
  obtain hkept | ⟨j, hanswers⟩ | ⟨n, hn, -⟩ := hattended id hpending
  · exact (hkept.discard l).imp_right .inr
  · exact .inr (.inl ⟨j, hanswers.later (later_discard c l)⟩)
  · cases hn

variable {t u : Run} {label : Label Name Choice}

def Owned (t : Run) : Prop :=
  ∀ id ∈ t.pool.shared.pending.map Prod.fst, Attended t.pool.shared (protocol.held t.history) [] id

theorem attended_spawn {c : Connection} {log : Log} {names : List Name} {k id : ℕ}
    (hfresh : ∀ j, k ≤ j → Fresh protocol log j) (h : Attended c (protocol.held log) names id) :
    Attended c (protocol.held (log ++ startedFrom k names)) [] id := by
  obtain hkept | ⟨j, hanswers⟩ | ⟨n, hn, howes⟩ := h
  · exact .inl hkept
  · refine .inr (.inl ⟨j, ?_⟩)
    obtain hlt | hge := Nat.lt_or_ge j k
    · rwa [held_startedFrom hlt]
    · rw [(hfresh j hge).held] at hanswers
      exact absurd rfl hanswers.owes_ne
  · obtain ⟨j, hj⟩ := held_spawned hn hfresh
    refine .inr (.inl ⟨j, .inl ?_⟩)
    rw [hj]
    exact howes

theorem owned_step (hupheld : Upheld protocol Dutiful Invariant t) (h : Owned t)
    (hmeets : Meets system Guard t label) (hstep : traced system t label = some u) : Owned u := by
  cases moves_of_traced hstep with
  | @performed i choice op k l e htask he =>
    have hguard : Guard t.pool.shared t.history (.performed i op e.answer) := by
      refine hmeets _ ?_
      simp only [entries, htask, he]
      exact List.mem_cons_self
    have hi := (List.getElem?_eq_some_iff.mp htask).1
    have hnext := attended_perform hupheld.invariant h (hupheld.programs i _ htask).1 he
      (later_perform hguard.2 he)
    intro id hid
    have hattended := hnext id hid
    rw [show Function.update (protocol.held t.history) i
      (post (protocol.held t.history i) op e.answer) =
      protocol.held (t.history ++ [.performed i op e.answer])
        from (held_performed i op e.answer).symm] at hattended
    have hspawned := attended_spawn (k := t.pool.tasks.length) ?_ hattended
    · rwa [List.append_assoc] at hspawned
    · exact fun j hj => (hupheld.fresh j hj).performed (by omega) op e.answer
  | ended htask => exact fun id hid => attended_spawn hupheld.fresh (attended_discard _ h id hid)
  | resumed htask => exact fun id hid => attended_spawn hupheld.fresh (attended_discard _ h id hid)
  | @dropped i task htask =>
    intro id hid
    have hattended := attended_discard task.locals h id hid
    rw [← held_dropped (D := protocol) i] at hattended
    have hspawned := attended_spawn (k := t.pool.tasks.length) ?_ hattended
    · rwa [List.append_assoc] at hspawned
    · exact fun j hj => (hupheld.fresh j hj).dropped i
  | @started n hexternal =>
    intro id hid
    have hattended : Attended t.pool.shared (protocol.held t.history) [n] id :=
      (h id hid).imp_right (Or.imp_right fun hspawned => absurd hspawned.choose_spec.1 List.not_mem_nil)
    exact attended_spawn hupheld.fresh hattended

structure Sound (t : Run) : Prop where
  routed : ∃ hs, Backed system RoutingDiscipline.discipline
    (fun c hs => ResponseRouting.Invariant c (Prod.fst ∘ hs)) t.pool hs
  upheld : Upheld protocol Dutiful Invariant t
  owned : Owned t

theorem sound_initial (now : ℕ) : Sound (Traced.begin (initial now)) := by
  have hloop : ∀ n, looping n = true → Dutiful { Upkeep.nothing with loop := true } (code n) :=
    fun n hn => dutiful_of_calm (calm_loop true hn) rfl rfl
  refine ⟨⟨_, ResponseRouting.backed_initial now⟩, ⟨?_, ?_, ?_⟩,
    fun id hid => absurd hid List.not_mem_nil⟩
  · exact initial_tasks now (hloop .reader rfl) (hloop .writer rfl) (hloop .keepalive rfl)
  · intro i hi
    refine ⟨rfl, rfl, if_neg ?_⟩
    simp only [Traced.begin, initial, List.length_cons, List.length_nil] at hi
    omega
  · have hheld : ∀ i, protocol.held [] i = if i < 3 then { Upkeep.nothing with loop := true }
      else Upkeep.nothing :=
      fun _ => rfl
    refine ⟨fun i => ?_, ?_, fun i hi => ?_⟩
    · rw [Traced.begin, hheld]
      split_ifs <;> exact known_of_empty rfl rfl rfl fun _ => rfl
    · intro channel queue log hmail
      simp [mail, Traced.begin, initial, Connection.start] at hmail
    · rw [Traced.begin, hheld, if_pos hi]

theorem Sound.step (h : Sound t)
    (hmeets : Meets system (fun c log entry => careful c log entry = true) t label)
    (hstep : traced system t label = some u) : Sound u := by
  obtain ⟨hs, hrouted⟩ := h.routed
  have hguard : Meets system Guard t label := by
    intro entry hentry
    refine ⟨hmeets entry hentry, ?_⟩
    cases entry with
    | performed i op answer =>
      obtain ⟨k, l, htask⟩ := call_of_performed hentry
      exact ⟨_, hrouted.invariant, (hrouted.verified i _ htask).2.1⟩
    | started i n => trivial
    | dropped i => trivial
  have hrun : runFrom (traced system) t [label] = some u := Option.bind_eq_some_iff.mpr ⟨u, hstep, rfl⟩
  exact ⟨ResponseRouting.sustains_invariant.run hrouted (fun _ _ => trivial) (run_of_traced hrun),
    upholds_invariant.step h.upheld hguard hstep, owned_step h.upheld h.owned hguard hstep⟩

def finished : Call (Option Name) → Bool
  | .ret _ => true
  | .call _ _ => false

/-- No handle is alive, and every call and every cleanup has come to its end. -/
def Deserted (t : Run) : Prop :=
  (∀ x ∈ t.pool.shared.handles, x.dropped = true) ∧ ∀ task ∈ t.pool.tasks.drop 3,
    finished task.prog = true

instance (t : Run) : Decidable (Deserted t) := by
  unfold Deserted
  infer_instance

/-- If no stream is opened with a payload that is too large, and nobody is dropped who has yet to
see to an id, then every pending id belongs to a live handle or to a call or cleanup that goes on to
make one or to remove the id. -/
theorem pending_ids_owned {now : ℕ} {labels : Schedule} {t : Run} (hrun : Reaches now labels t)
    (hmeets : Allows (traced system) (Meets system fun c log entry => careful c log entry = true)
      (Traced.begin (initial now)) labels) :
    (∀ e ∈ t.pool.shared.pending, Kept t.pool.shared e.1 ∨
      ∃ task ∈ t.pool.tasks.drop 3, Settles (handleIds t.pool.shared) e.1 task.prog) ∧
    (Deserted t → t.pool.shared.pending = []) := by
  have hsound : Sound t :=
    run_invariant (fun _ _ _ h hmeets hstep => h.step hmeets hstep) (sound_initial now) hmeets hrun
  have howner : ∀ e ∈ t.pool.shared.pending, Kept t.pool.shared e.1 ∨
      ∃ task ∈ t.pool.tasks.drop 3, Settles (handleIds t.pool.shared) e.1 task.prog := by
    intro e he
    obtain hkept | ⟨i, hanswers⟩ | ⟨n, hn, -⟩ := hsound.owned e.1 (List.mem_map_of_mem he)
    · exact .inl hkept
    · refine .inr ?_
      -- the loops owe nothing, and nobody who is not there yet does
      have hloop : 3 ≤ i := by
        by_contra hlt
        have hloop := hsound.upheld.invariant.loops i (Nat.lt_of_not_le hlt)
        exact hanswers.owes_ne ((hsound.upheld.invariant.known i).loop hloop)
      have hlt : i < t.pool.tasks.length := by
        by_contra hge
        rw [(hsound.upheld.fresh i (Nat.le_of_not_lt hge)).held] at hanswers
        exact hanswers.owes_ne rfl
      have htask := List.getElem?_eq_getElem hlt
      refine ⟨t.pool.tasks[i], ?_, settles_of_answers (hsound.upheld.programs i _ htask) hanswers⟩
      refine List.mem_of_getElem? (i := i - 3) ?_
      rw [List.getElem?_drop, Nat.add_sub_cancel' hloop]
      exact htask
    · cases hn
  refine ⟨howner, ?_⟩
  rintro ⟨hhandles, hfinished⟩
  refine List.eq_nil_iff_forall_not_mem.mpr fun e he => ?_
  obtain ⟨x, hx, -, -, hlive⟩ | ⟨task, htask, hsettles⟩ := howner e he
  · rw [hhandles x hx] at hlive
    cases hlive
  · have hdone := hfinished task htask
    cases hprog : task.prog with
    | ret next =>
      rw [hprog] at hsettles
      exact hsettles
    | call op k =>
      rw [hprog] at hdone
      cases hdone

def opening : Name := .beginStream 9 [] 0

def openOne (i : ℕ) : Schedule :=
  .step i (.clock 0) :: List.replicate 3 (.step i .proceed) ++ .step i (.clock 0) ::
    List.replicate 6 (.step i .proceed)

def opened : Schedule :=
  .start opening :: openOne 3 ++ writeOne ++ List.replicate 5 (.step 3 .proceed)

def cleanedUp : Schedule :=
  opened ++ .start (.dropHandle 0) :: .step 4 .proceed :: List.replicate 3 (.step 5 .proceed) ++
    writeOne ++ List.replicate 2 (.step 5 .proceed)

theorem pending_ids_owned_sample : ∃ t, Reaches 0 cleanedUp t ∧ t.pool.shared.registered = [(1, 0)] ∧
    Deserted t ∧ t.pool.shared.pending = [] := by
  have hfacts : ((runFrom (traced system) (Traced.begin (initial 0)) cleanedUp).map fun t : Run =>
      decide (t.pool.shared.registered = [(1, 0)] ∧ Deserted t)) = some true := by decide +kernel
  obtain ⟨t, hrun, hfacts⟩ := Option.map_eq_some_iff.mp hfacts
  obtain ⟨hregistered, hdeserted⟩ := of_decide_eq_true hfacts
  exact ⟨t, hrun, hregistered, hdeserted, (pending_ids_owned hrun (by decide +kernel)).2 hdeserted⟩

/-- `begin_stream` is dropped while it waits for its frame to be written. -/
def droppedOpening : Schedule := .start opening :: openOne 3 ++ [.drop 3]

/-- `close` is dropped while it waits for its frame to be written, and then its handle is. -/
def droppedClosing : Schedule :=
  opened ++ .start (.streamClose 0) :: List.replicate 5 (.step 4 .proceed) ++
    [.drop 4, .start (.dropHandle 0), .step 5 .proceed]

theorem pending_id_leaks :
    (∃ t, Reaches 0 droppedOpening t ∧ Deserted t ∧ t.pool.shared.pending = [(1, 0)]) ∧
      ∃ t, Reaches 0 droppedClosing t ∧ Deserted t ∧ t.pool.shared.pending = [(1, 0)] := by
  have hfacts : ∀ labels ∈ [droppedOpening, droppedClosing],
      ((runFrom (traced system) (Traced.begin (initial 0)) labels).map fun t : Run =>
        decide (Deserted t ∧ t.pool.shared.pending = [(1, 0)])) = some true := by decide +kernel
  have hleaks : ∀ labels ∈ [droppedOpening, droppedClosing],
      ∃ t, Reaches 0 labels t ∧ Deserted t ∧ t.pool.shared.pending = [(1, 0)] := by
    intro labels hlabels
    obtain ⟨t, hrun, hleak⟩ := Option.map_eq_some_iff.mp (hfacts labels hlabels)
    exact ⟨t, hrun, of_decide_eq_true hleak⟩
  exact ⟨hleaks _ List.mem_cons_self, hleaks _ (List.mem_cons_of_mem _ List.mem_cons_self)⟩

end Mst5Client.PendingOwners
