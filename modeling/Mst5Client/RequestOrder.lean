import Mst5Client.OrderDiscipline
import Mst5Client.WriterHistory

set_option autoImplicit false

/-!
# The order of request ids on the wire

The order lock has at most one holder, the holder queues an opening frame only under the last id
that was allocated, and the writer takes the control queue in order.
-/
namespace Mst5Client.RequestOrder
open IoResult MachineRuns TaskPrograms TaskTraces ConnectionState ConnectionCalls ConnectionPrograms
open ConnectionEffects ConnectionHistory WriterHistory OrderDiscipline

variable {locked : Bool} {turn : ℕ → Turn} {order : ℕ → Bool}

/-- At most one task has the lock, and only that task has a turn. -/
structure Lock (locked : Bool) (turn : ℕ → Turn) (order : ℕ → Bool) : Prop where
  owner : ∀ i, turn i ≠ .none → order i = true
  locked : ∀ i, order i = true → locked = true
  alone : ∀ i j, order i = true → order j = true → i = j

theorem Lock.others (h : Lock locked turn order) {i j : ℕ} (hi : turn i ≠ .none) (hj : j ≠ i) :
    turn j = .none := by
  by_contra hturn
  exact hj (h.alone j i (h.owner j hturn) (h.owner i hi))

theorem Lock.goesOn (h : Lock locked turn order) {i : ℕ} {r : Turn}
    (hr : r ≠ .none → turn i ≠ .none) : Lock locked (Function.update turn i r) order := by
  refine ⟨fun j hj => ?_, h.locked, h.alone⟩
  by_cases hji : j = i
  · subst hji
    rw [Function.update_self] at hj
    exact h.owner j (hr hj)
  · rw [Function.update_of_ne hji] at hj
    exact h.owner j hj

theorem Lock.acquire (h : Lock false turn order) (i : ℕ) (r : Turn) :
    Lock true (Function.update turn i r) (Function.update order i true) := by
  have hfree : ∀ j, order j ≠ true := fun j hj => Bool.false_ne_true (h.locked j hj)
  have hholder : ∀ j, Function.update order i true j = true → j = i := by
    intro j hj
    by_contra hji
    rw [Function.update_of_ne hji] at hj
    exact hfree j hj
  refine ⟨fun j hj => ?_, fun _ _ => rfl, fun j k hj hk => (hholder j hj).trans (hholder k hk).symm⟩
  by_cases hji : j = i
  · rw [hji, Function.update_self]
  · rw [Function.update_of_ne hji] at hj
    exact absurd (h.owner j hj) (hfree j)

theorem Lock.release (h : Lock locked turn order) (i : ℕ) :
    Lock (locked && !order i) (Function.update turn i .none) (Function.update order i false) := by
  have hrest : ∀ j, Function.update order i false j = true → j ≠ i ∧ order j = true := by
    intro j hj
    by_cases hji : j = i
    · rw [hji, Function.update_self] at hj
      cases hj
    · rw [Function.update_of_ne hji] at hj
      exact ⟨hji, hj⟩
  refine ⟨fun j hj => ?_, fun j hj => ?_, fun j k hj hk => h.alone j k (hrest j hj).2 (hrest k hk).2⟩
  · by_cases hji : j = i
    · rw [hji, Function.update_self] at hj
      exact absurd rfl hj
    · rw [Function.update_of_ne hji] at hj ⊢
      exact h.owner j hj
  · obtain ⟨hji, hj⟩ := hrest j hj
    have hi : order i = false := Bool.eq_false_iff.mpr fun hi => hji (h.alone j i hj hi)
    rw [hi, h.locked j hj]
    rfl

variable {next : ℕ} {ids ids' : List ℕ} {i : ℕ}

structure Numbers (next : ℕ) (ids : List ℕ) (turn : ℕ → Turn) : Prop where
  counter : 1 ≤ next ∧ next ≤ 2 ^ 64 - 1
  increasing : ids.Pairwise (· < ·)
  bounds : ∀ id ∈ ids, 1 ≤ id ∧ id < next
  unused : ∀ i id, turn i = .numbered id → (1 ≤ id ∧ id < next) ∧ ∀ x ∈ ids, x < id

theorem Numbers.sublist (h : Numbers next ids turn) (hids : ids'.Sublist ids) :
    Numbers next ids' turn where
  counter := h.counter
  increasing := h.increasing.sublist hids
  bounds := fun id hid => h.bounds id (hids.subset hid)
  unused := fun i id hi => ⟨(h.unused i id hi).1, fun x hx => (h.unused i id hi).2 x (hids.subset hx)⟩

theorem Numbers.turns (h : Numbers next ids turn) {r : Turn}
    (hr : ∀ id, r = .numbered id → turn i = .numbered id) :
    Numbers next ids (Function.update turn i r) := by
  refine ⟨h.counter, h.increasing, h.bounds, fun j id hj => ?_⟩
  by_cases hji : j = i
  · rw [hji, Function.update_self] at hj
    exact h.unused i id (hr id hj)
  · rw [Function.update_of_ne hji] at hj
    exact h.unused j id hj

theorem Numbers.leave (h : Numbers next ids turn) (i : ℕ) :
    Numbers next ids (Function.update turn i .none) := by
  refine h.turns ?_
  intro id hid
  cases hid

theorem Numbers.allocate (h : Numbers next ids turn) (hnext : next ≠ 2 ^ 64 - 1) (i : ℕ) :
    Numbers (next + 1) ids (Function.update turn i (.numbered next)) := by
  have hcounter := h.counter
  refine ⟨by omega, h.increasing, fun id hid => ⟨(h.bounds id hid).1, ?_⟩, fun j id hj => ?_⟩
  · exact Nat.lt_succ_of_lt (h.bounds id hid).2
  · by_cases hji : j = i
    · rw [hji, Function.update_self] at hj
      cases hj
      exact ⟨⟨hcounter.1, Nat.lt_succ_self next⟩, fun x hx => (h.bounds x hx).2⟩
    · rw [Function.update_of_ne hji] at hj
      obtain ⟨⟨hpos, hlt⟩, hids⟩ := h.unused j id hj
      exact ⟨⟨hpos, Nat.lt_succ_of_lt hlt⟩, hids⟩

theorem Numbers.use (h : Numbers next ids turn) {id : ℕ} (hid : turn i = .numbered id)
    (hothers : ∀ j ≠ i, turn j = .none) :
    Numbers next (ids ++ [id]) (Function.update turn i .locked) := by
  obtain ⟨hbounds, hlast⟩ := h.unused i id hid
  refine ⟨h.counter, ?_, ?_, ?_⟩
  · refine List.pairwise_append.mpr ⟨h.increasing, List.pairwise_singleton _ _, fun x hx y hy => ?_⟩
    rw [List.mem_singleton.mp hy]
    exact hlast x hx
  · intro x hx
    obtain hx | hx := List.mem_append.mp hx
    · exact h.bounds x hx
    · rw [List.mem_singleton.mp hx]
      exact hbounds
  · intro j x hj
    by_cases hji : j = i
    · rw [hji, Function.update_self] at hj
      cases hj
    · rw [Function.update_of_ne hji, hothers j hji] at hj
      cases hj

variable {c : Connection} {l : Locals} {op : Op}

/-- The operation leaves the lock and the counter alone. -/
structure Undisturbed (c : Connection) (l : Locals) (op : Op) (e : Performed (Ans op)) : Prop where
  locked : e.shared.orderLocked = c.orderLocked
  next : e.shared.nextId = c.nextId
  order : e.locals.order = l.order

theorem dropHandle_order (c : Connection) (n : ℕ) :
    (c.dropHandle n).1.orderLocked = c.orderLocked ∧ (c.dropHandle n).1.nextId = c.nextId := by
  unfold Connection.dropHandle
  split
  · exact ⟨rfl, rfl⟩
  · split
    · exact ⟨rfl, rfl⟩
    · exact ⟨rfl, rfl⟩

theorem discard_order (c : Connection) (l : Locals) :
    (c.discard l).1.orderLocked = (c.orderLocked && !l.order) ∧ (c.discard l).1.nextId = c.nextId := by
  have hrelease : (c.release l).orderLocked = (c.orderLocked && !l.order) ∧
      (c.release l).nextId = c.nextId := by
    obtain ⟨order, permit, budget, receiver, handle⟩ := l
    cases order <;> cases permit <;> cases receiver <;>
      simp [Connection.release, Connection.hangUp, Connection.setChannel]
  unfold Connection.discard
  split
  · exact hrelease
  · obtain ⟨hlocked, hnext⟩ := dropHandle_order (c.release l) _
    exact ⟨hlocked.trans hrelease.1, hnext.trans hrelease.2⟩

theorem perform_undisturbed (hop : unordered op = true ∨ ∃ frame, op = .sendWriter frame)
    (choice : Choice) : Always (Undisturbed c l op) (perform c l op choice) := by
  intro e he
  obtain ⟨hshared, hlocals, -⟩ := perform_writes choice e he
  obtain hop | ⟨frame, rfl⟩ := hop
  · refine ⟨?_, ?_, ?_⟩
    · rw [hshared]
      cases op <;> first | rfl | cases hop
    · rw [hshared]
      cases op <;> first | rfl | cases hop
    · rw [hlocals]
      cases op <;> first | rfl | cases hop
  · refine ⟨?_, ?_, ?_⟩
    · rw [hshared]
      rfl
    · rw [hshared]
      rfl
    · rw [hlocals]
      rfl

def frameOf : WriterCommand → Option Frame
  | .frame frame _ _ => some frame
  | .close _ => none

def queued (c : Connection) (hand : Option Hand) : List Frame :=
  c.wire ++ (Hand.commands hand ++ c.control).filterMap frameOf

def openIds (frames : List Frame) : List ℕ := (frames.filter opens).map Frame.id

theorem openIds_append (frames frames' : List Frame) :
    openIds (frames ++ frames') = openIds frames ++ openIds frames' := by
  rw [openIds, List.filter_append, List.map_append]
  rfl

theorem openIds_sublist {frames frames' : List Frame} (h : frames.Sublist frames') :
    (openIds frames).Sublist (openIds frames') := (h.filter opens).map Frame.id

theorem openIds_singleton (frame : Frame) :
    openIds [frame] = if opens frame then [frame.id] else [] := by
  rw [openIds, List.filter_singleton]
  cases opens frame <;> rfl

variable {c' : Connection} {command : WriterCommand}

theorem queued_wire (c : Connection) (hand : Option Hand) : c.wire.Sublist (queued c hand) :=
  List.sublist_append_left _ _

theorem queued_enqueue (hand : Option Hand) (hwire : c'.wire = c.wire)
    (hcontrol : c'.control = c.control ++ [command]) :
    queued c' hand = queued c hand ++ (frameOf command).toList := by
  rw [queued, queued, hwire, hcontrol, ← List.append_assoc, List.filterMap_append, ← List.append_assoc]
  cases h : frameOf command <;> simp [h]

theorem queued_take (hwire : c'.wire = c.wire) (hcontrol : c.control = command :: c'.control) :
    queued c' (some (.holding command)) = queued c (some .empty) := by
  rw [queued, queued, hwire, hcontrol, commands_holding, commands_empty]
  rfl

theorem queued_write {result : Except IoError Unit} (hcontrol : c'.control = c.control)
    (hwire : c'.wire = c.wire ++ ((delivered command result).map Prod.snd).toList) :
    (queued c' (some (.wrote command result))).Sublist (queued c (some (.holding command))) := by
  rw [queued, queued, hwire, hcontrol, commands_wrote, commands_holding, List.nil_append,
    List.filterMap_append, List.append_assoc]
  refine (List.Sublist.refl _).append (List.Sublist.append ?_ (List.Sublist.refl _))
  cases command with
  | close complete => exact List.nil_sublist _
  | frame frame complete budget =>
    cases result with
    | ok _ => exact List.Sublist.refl _
    | error _ => exact List.nil_sublist _

abbrev Held := (Option Hand × Turn) × Locals

def turns (hs : ℕ → Held) : ℕ → Turn := (fun h => h.1.2) ∘ hs

def orders (hs : ℕ → Held) : ℕ → Bool := (fun h => h.2.order) ∘ hs

theorem turns_update (hs : ℕ → Held) (i : ℕ) (h : Held) :
    turns (Function.update hs i h) = Function.update (turns hs) i h.1.2 :=
  Function.comp_update _ hs i h

theorem orders_update (hs : ℕ → Held) (i : ℕ) (h : Held) :
    orders (Function.update hs i h) = Function.update (orders hs) i h.2.order :=
  Function.comp_update _ hs i h

/-- Task `1` is the writer. -/
structure Invariant (c : Connection) (hs : ℕ → Held) : Prop where
  writer : ∀ i ≠ 1, (hs i).1.1 = none
  media : ∀ command ∈ c.media, ∀ frame ∈ frameOf command, opens frame = false
  lock : Lock c.orderLocked (turns hs) (orders hs)
  numbers : Numbers c.nextId (openIds (queued c (hs 1).1.1)) (turns hs)

variable {hs : ℕ → Held}

theorem Invariant.writer_eq (h : Invariant c hs) {hand : Hand} (hi : (hs i).1.1 = some hand) :
    i = 1 := by
  by_contra hne
  rw [h.writer i hne] at hi
  cases hi

theorem Invariant.aside (h : Invariant c hs) {r : Turn}
    (hmedia : ∀ command ∈ c'.media, ∀ frame ∈ frameOf command, opens frame = false)
    (hlock : Lock c'.orderLocked (Function.update (turns hs) i r)
      (Function.update (orders hs) i l.order))
    (hnumbers : Numbers c'.nextId (openIds (queued c' (hs 1).1.1)) (Function.update (turns hs) i r)) :
    Invariant c' (Function.update hs i (((hs i).1.1, r), l)) := by
  have hhand : ∀ j, (Function.update hs i (((hs i).1.1, r), l) j).1.1 = (hs j).1.1 := by
    intro j
    by_cases hj : j = i
    · rw [hj, Function.update_self]
    · rw [Function.update_of_ne hj]
  refine ⟨fun j hj => (hhand j).trans (h.writer j hj), hmedia, ?_, ?_⟩
  · rw [turns_update, orders_update]
    exact hlock
  · rw [turns_update, hhand]
    exact hnumbers

theorem Invariant.writes (h : Invariant c hs) {hand : Option Hand}
    (hmedia : ∀ command ∈ c'.media, command ∈ c.media)
    (hundisturbed : c'.orderLocked = c.orderLocked ∧ c'.nextId = c.nextId ∧ l.order = (hs 1).2.order)
    (hids : (openIds (queued c' hand)).Sublist (openIds (queued c (hs 1).1.1))) :
    Invariant c' (Function.update hs 1 ((hand, (hs 1).1.2), l)) := by
  obtain ⟨hlocked, hnext, horder⟩ := hundisturbed
  have hturns : turns (Function.update hs 1 ((hand, (hs 1).1.2), l)) = turns hs := by
    rw [turns_update]
    exact Function.update_eq_self 1 (turns hs)
  have horders : orders (Function.update hs 1 ((hand, (hs 1).1.2), l)) = orders hs := by
    rw [orders_update, horder]
    exact Function.update_eq_self 1 (orders hs)
  refine ⟨fun j hj => ?_, fun command hcommand => h.media command (hmedia command hcommand), ?_, ?_⟩
  · rw [Function.update_of_ne hj]
    exact h.writer j hj
  · rw [hturns, horders, hlocked]
    exact h.lock
  · rw [hturns, hnext, Function.update_self]
    exact h.numbers.sublist hids

theorem Invariant.unmoved (h : Invariant c hs) (hlocked : c'.orderLocked = c.orderLocked)
    (hnext : c'.nextId = c.nextId) (horder : l.order = (hs i).2.order)
    (hmedia : ∀ command ∈ c'.media, ∀ frame ∈ frameOf command, opens frame = false)
    (hids : openIds (queued c' (hs 1).1.1) = openIds (queued c (hs 1).1.1)) :
    Invariant c' (Function.update hs i (hs i |>.1, l)) := by
  refine h.aside hmedia ?_ ?_
  · rw [hlocked, horder]
    have hlock := h.lock.goesOn (i := i) (r := (hs i).1.2) fun hr => hr
    have hsame : Function.update (orders hs) i (hs i).2.order = orders hs :=
      Function.update_eq_self i (orders hs)
    rw [hsame]
    exact hlock
  · rw [hnext, hids]
    exact h.numbers.turns fun _ hr => hr

theorem queued_same {hand : Option Hand} (hqueues : Part.queues.Same c c')
    (hwire : Part.wire.Same c c') : queued c' hand = queued c hand := by
  obtain ⟨hcontrol, -, -⟩ := queues_same hqueues
  rw [queued, queued, hcontrol, show c'.wire = c.wire from hwire]

theorem Invariant.still (h : Invariant c hs) {op : Op} {e : Performed (Ans op)}
    (hundisturbed : Undisturbed c (hs i).2 op e) (hqueues : Part.queues.Same c e.shared)
    (hwire : Part.wire.Same c e.shared) :
    Invariant e.shared (Function.update hs i ((hs i).1, e.locals)) := by
  refine h.unmoved hundisturbed.locked hundisturbed.next hundisturbed.order ?_ ?_
  · rw [(queues_same hqueues).2.1]
    exact h.media
  · rw [queued_same hqueues hwire]

variable {choice : Choice}

abbrev rules : Discipline Op Ans Name (Option Hand × Turn) := protocol.toDiscipline.prod discipline

/-- What the tasks hold when task `i` has performed the operation. -/
abbrev after (hs : ℕ → Held) (i : ℕ) (op : Op) (e : Performed (Ans op)) : ℕ → Held :=
  Function.update hs i (rules.post (hs i).1 op e.answer, e.locals)

theorem invariant_lockOrder (h : Invariant c hs) {e : Performed Bool}
    (he : perform c (hs i).2 .lockOrder choice = some e) :
    Invariant e.shared (after hs i .lockOrder e) := by
  cases choice with
  | timedOut =>
    cases he
    exact h.unmoved rfl rfl rfl h.media rfl
  | proceed =>
    simp only [perform] at he
    split_ifs at he with hlocked
    cases he
    have hlock := h.lock
    rw [Bool.eq_false_iff.mpr hlocked] at hlock
    refine h.aside h.media (hlock.acquire i .locked) (h.numbers.turns ?_)
    intro id hid
    cases hid
  | _ => cases he

theorem invariant_unlockOrder (h : Invariant c hs) {e : Performed Unit} (hpre : (hs i).1.2 ≠ .none)
    (he : perform c (hs i).2 .unlockOrder choice = some e) :
    Invariant e.shared (after hs i .unlockOrder e) := by
  cases choice with
  | proceed =>
    cases he
    refine h.aside h.media ?_ (h.numbers.leave i)
    have hlock := h.lock.release i
    rw [h.lock.owner i hpre, Bool.not_true, Bool.and_false] at hlock
    exact hlock
  | _ => cases he

theorem invariant_allocateId (h : Invariant c hs) {e : Performed (Option ℕ)}
    (hpre : (hs i).1.2 ≠ .none) (he : perform c (hs i).2 .allocateId choice = some e) :
    Invariant e.shared (after hs i .allocateId e) := by
  cases choice with
  | proceed =>
    simp only [perform, done] at he
    split_ifs at he with hnext <;> cases he
    · exact h.unmoved rfl rfl rfl h.media rfl
    · refine h.aside h.media ?_ (h.numbers.allocate (fun hlast => hnext (.inr hlast)) i)
      rw [show Function.update (orders hs) i (hs i).2.order = orders hs from Function.update_eq_self
        i (orders hs)]
      exact h.lock.goesOn fun _ => hpre
  | _ => cases he

theorem invariant_sendWriter (h : Invariant c hs) {frame : Frame}
    {e : Performed (Ans (.sendWriter frame))}
    (hpre : opens frame = true → (hs i).1.2 = .numbered frame.id)
    (he : perform c (hs i).2 (.sendWriter frame) choice = some e) :
    Invariant e.shared (after hs i (.sendWriter frame) e) := by
  have hundisturbed := perform_undisturbed (.inr ⟨frame, rfl⟩) choice e he
  have hwire := (perform_frames choice e he).same .wire rfl
  have horders : Function.update (orders hs) i e.locals.order = orders hs := by
    rw [hundisturbed.order]
    exact Function.update_eq_self i (orders hs)
  obtain ⟨budget, hanswer, henqueued⟩ | ⟨hanswer, hqueues⟩ := sendWriter_effect he
  · have hmedia := henqueued.media
    have hcontrol := henqueued.control
    rw [after, show rules.post (hs i).1 (.sendWriter frame) e.answer =
      ((hs i).1.1, if opens frame then Turn.locked else (hs i).1.2) by rw [hanswer]; rfl]
    by_cases hkind : frame.kind = kindStreamData
    · -- a `STREAM_DATA` frame opens nothing
      have hopens : opens frame = false := opens_routine frame (.inl (by rw [hkind]; decide))
      rw [if_pos (decide_eq_true hkind)] at hmedia hcontrol
      rw [hopens, if_neg Bool.false_ne_true]
      refine h.unmoved hundisturbed.locked hundisturbed.next hundisturbed.order ?_ ?_
      · intro command hcommand
        rw [hmedia] at hcommand
        obtain hold | hnew := List.mem_append.mp hcommand
        · exact h.media command hold
        · rw [List.mem_singleton.mp hnew]
          rintro _ ⟨⟩
          exact hopens
      · rw [queued, queued, hcontrol, show e.shared.wire = c.wire from hwire]
    · rw [if_neg (by simpa using hkind)] at hmedia hcontrol
      have hqueued := queued_enqueue (hs 1).1.1 hwire hcontrol
      have hmedia' : ∀ command ∈ e.shared.media, ∀ frame ∈ frameOf command, opens frame = false := by
        rw [hmedia]
        exact h.media
      cases hopens : opens frame with
      | false =>
        rw [if_neg Bool.false_ne_true]
        refine h.unmoved hundisturbed.locked hundisturbed.next hundisturbed.order hmedia' ?_
        rw [hqueued, openIds_append]
        exact (congrArg _ ((openIds_singleton frame).trans (by rw [hopens]; rfl))).trans
          (List.append_nil _)
      | true =>
        have hturn := hpre hopens
        have hnone : (hs i).1.2 ≠ .none := by rw [hturn]; nofun
        rw [if_pos rfl]
        refine h.aside hmedia' ?_ ?_
        · rw [hundisturbed.locked, horders]
          exact h.lock.goesOn fun _ => hnone
        · rw [hundisturbed.next, hqueued, openIds_append]
          have hids : openIds (frameOf (.frame frame c.completions.length budget)).toList =
            [frame.id] :=
            (openIds_singleton frame).trans (by rw [hopens]; rfl)
          rw [hids]
          exact h.numbers.use hturn fun j hj => h.lock.others hnone hj
  · rw [after, show rules.post (hs i).1 (.sendWriter frame) e.answer = (hs i).1 by
      obtain hanswer | hanswer := hanswer <;> rw [hanswer] <;> rfl]
    exact h.still hundisturbed hqueues hwire

theorem invariant_recvWriter (h : Invariant c hs) {e : Performed (Ans .recvWriter)}
    (hpre : (hs i).1.1 = some .empty) (he : perform c (hs i).2 .recvWriter choice = some e) :
    Invariant e.shared (after hs i .recvWriter e) := by
  obtain rfl := h.writer_eq hpre
  have hundisturbed := perform_undisturbed (.inl rfl) choice e he
  have hwire := (perform_frames choice e he).same .wire rfl
  obtain ⟨hanswer, hqueues⟩ | ⟨command, hanswer, -, hqueues⟩ := recvWriter_effect he
  · rw [after, show rules.post (hs 1).1 .recvWriter e.answer = (hs 1).1 by rw [hanswer]; rfl]
    exact h.still hundisturbed hqueues hwire
  · rw [after, show rules.post (hs 1).1 .recvWriter e.answer = (some (.holding command), (hs 1).1.2) by
      rw [hanswer]; rfl]
    obtain ⟨hcontrol, hmedia⟩ | ⟨hnone, hcontrol, hmedia⟩ := hqueues
    · refine h.writes ?_ ⟨hundisturbed.locked, hundisturbed.next, hundisturbed.order⟩ ?_
      · rw [hmedia]
        exact fun _ hcommand => hcommand
      · rw [hpre, queued_take hwire hcontrol]
    · refine h.writes ?_ ⟨hundisturbed.locked, hundisturbed.next, hundisturbed.order⟩ ?_
      · rw [hmedia]
        exact fun _ hcommand => List.mem_cons_of_mem command hcommand
      · -- media frames open nothing
        have hquiet : openIds (frameOf command).toList = [] := by
          have hopens := h.media command (hmedia ▸ List.mem_cons_self)
          cases hframe : frameOf command with
          | none => rfl
          | some frame => exact (openIds_singleton frame).trans (by rw [hopens frame hframe]; rfl)
        have hqueued : queued e.shared (some (.holding command)) =
            queued c (some .empty) ++ (frameOf command).toList := by
          rw [queued, queued, hnone, hcontrol, show e.shared.wire = c.wire from hwire, commands_holding,
            commands_empty]
          cases hframe : frameOf command <;> simp [hframe]
        rw [hpre, hqueued, openIds_append, hquiet, List.append_nil]

theorem invariant_write (h : Invariant c hs) {command : WriterCommand}
    {e : Performed (Ans (.write command))} (hpre : (hs i).1.1 = some (.holding command))
    (he : perform c (hs i).2 (.write command) choice = some e) :
    Invariant e.shared (after hs i (.write command) e) := by
  obtain rfl := h.writer_eq hpre
  have hundisturbed := perform_undisturbed (.inl rfl) choice e he
  obtain ⟨hcontrol, hmedia, -⟩ := queues_same ((perform_frames choice e he).same .queues rfl)
  refine h.writes ?_ ⟨hundisturbed.locked, hundisturbed.next, hundisturbed.order⟩ ?_
  · rw [hmedia]
    exact fun _ hcommand => hcommand
  · rw [hpre]
    exact openIds_sublist (queued_write hcontrol (write_effect he))

theorem invariant_sendClose (h : Invariant c hs) {e : Performed (Ans .sendClose)}
    (he : perform c (hs i).2 .sendClose choice = some e) :
    Invariant e.shared (after hs i .sendClose e) := by
  have hundisturbed := perform_undisturbed (.inl rfl) choice e he
  have hwire := (perform_frames choice e he).same .wire rfl
  obtain ⟨-, henqueued⟩ | ⟨-, hqueues⟩ := sendClose_effect he
  · refine h.unmoved hundisturbed.locked hundisturbed.next hundisturbed.order ?_ ?_
    · rw [henqueued.media]
      exact h.media
    · rw [queued_enqueue _ hwire henqueued.control]
      exact congrArg openIds (List.append_nil _)
  · exact h.still hundisturbed hqueues hwire

theorem invariant_complete (h : Invariant c hs) {command : WriterCommand}
    {result : Except IoError Unit} {e : Performed (Ans (.complete command result))}
    (hpre : (hs i).1.1 = some (.wrote command result))
    (he : perform c (hs i).2 (.complete command result) choice = some e) :
    Invariant e.shared (after hs i (.complete command result) e) := by
  obtain rfl := h.writer_eq hpre
  have hundisturbed := perform_undisturbed (.inl rfl) choice e he
  have hwire := (perform_frames choice e he).same .wire rfl
  obtain ⟨-, hcontrol, hmedia⟩ := complete_effect he
  refine h.writes ?_ ⟨hundisturbed.locked, hundisturbed.next, hundisturbed.order⟩ ?_
  · rw [hmedia]
    exact fun _ hcommand => hcommand
  · rw [hpre, queued, queued, hcontrol, show e.shared.wire = c.wire from hwire, commands_wrote]
    exact List.Sublist.refl _

theorem invariant_perform (h : Invariant c hs) {op : Op} {e : Performed (Ans op)}
    (hpre : rules.pre (hs i).1 op) (he : perform c (hs i).2 op choice = some e) :
    Invariant e.shared (after hs i op e) := by
  obtain ⟨hhand, hturn⟩ := hpre
  have hundisturbed := fun hop : unordered op = true => perform_undisturbed (.inl hop) choice e he
  have hframe := (perform_frames choice e he).same
  cases op with
  | lockOrder => exact invariant_lockOrder h he
  | unlockOrder => exact invariant_unlockOrder h hturn he
  | allocateId => exact invariant_allocateId h hturn he
  | sendWriter frame => exact invariant_sendWriter h hturn he
  | sendClose => exact invariant_sendClose h he
  | recvWriter => exact invariant_recvWriter h hhand he
  | write command => exact invariant_write h hhand he
  | complete command result => exact invariant_complete h hhand he
  | _ => exact h.still (hundisturbed rfl) (hframe .queues rfl) (hframe .wire rfl)

theorem invariant_discard (h : Invariant c hs) (i : ℕ) {hand : Option Hand}
    (hhand : hand = none ∨ hand = (hs i).1.1) :
    Invariant (c.discard (hs i).2).1 (Function.update hs i ((hand, .none), Locals.none)) := by
  obtain ⟨hlocked, hnext⟩ := discard_order c (hs i).2
  have hqueues := discard_same c (hs i).2 .queues
  have hsame : ∀ hand, queued (c.discard (hs i).2).1 hand = queued c hand :=
    fun hand => queued_same hqueues (discard_same c (hs i).2 .wire)
  have hmedia : ∀ command ∈ (c.discard (hs i).2).1.media, ∀ frame ∈ frameOf command,
      opens frame = false := by
    rw [(queues_same hqueues).2.1]
    exact h.media
  refine ⟨fun j hj => ?_, hmedia, ?_, ?_⟩
  · by_cases hji : j = i
    · subst hji
      rw [Function.update_self]
      exact hhand.elim id fun hkept => hkept.trans (h.writer j hj)
    · rw [Function.update_of_ne hji]
      exact h.writer j hj
  · rw [turns_update, orders_update, hlocked]
    exact h.lock.release i
  · rw [turns_update, hnext, hsame]
    refine (h.numbers.leave i).sublist (openIds_sublist ?_)
    by_cases hi : 1 = i
    · subst hi
      rw [Function.update_self]
      obtain rfl | rfl := hhand
      · refine (List.Sublist.refl _).append (List.Sublist.filterMap _ ?_)
        exact List.sublist_append_right _ _
      · exact List.Sublist.refl _
    · rw [Function.update_of_ne hi]

theorem ready_spawned {P : ℕ → Prop} {n : Name} (h : ∃ handle, P handle ∧ Aftermath c handle n) :
    rules.ready n rules.idle := by
  refine ⟨ready_aftermath h _, rfl, ?_⟩
  obtain ⟨_, -, id, -, rfl | rfl⟩ := h <;> trivial

theorem sustains_invariant : Sustains system rules admitted Invariant where
  code := by
    intro n r hready
    refine ((WriterHistory.verified_code n r.1 hready.1).prod
      (OrderDiscipline.verified_code n r.2 hready.2)).mono ?_
    exact fun r next hnext m hm => ⟨hnext.1 m hm, hnext.2 m hm⟩
  perform := fun _ _ _ _ choice e h hpre he =>
    ⟨invariant_perform h hpre he, fun n hn => ready_spawned ((perform_frames choice e he).spawned n hn)⟩
  ended := fun _ _ i h => invariant_discard h i (.inl rfl)
  resumed := by
    intro c hs i n h hready
    rw [show (hs i).1 = ((hs i).1.1, Turn.none) from Prod.ext rfl hready.2.1]
    exact invariant_discard h i (.inr rfl)
  spawned := fun c _ _ _ n hn => ready_spawned (discard_aftermath c _ n hn)
  external := by
    intro n hn hadmitted
    refine ⟨?_, rfl, hadmitted⟩
    rintro rfl
    cases hn

def atStart (i : ℕ) : Held := ((protocol.first i, .none), Locals.none)

theorem invariant_start (now : ℕ) : Invariant (Connection.start now) atStart where
  writer := fun _ hi => if_neg hi
  media := nofun
  lock := ⟨fun _ hi => absurd rfl hi, nofun, nofun⟩
  numbers := ⟨(by decide : 1 ≤ 1 ∧ 1 ≤ 2 ^ 64 - 1), List.Pairwise.nil, nofun, nofun⟩

theorem backed_initial (now : ℕ) : Backed system rules Invariant (initial now) atStart := by
  have hcode : ∀ i n, rules.ready n (atStart i).1 → (atStart i).2 = (system.task n).locals ∧
      Obeys rules (atStart i).1 (system.task n).prog :=
    fun i n hready => ⟨rfl, sustains_invariant.code n _ hready⟩
  refine ⟨?_, ?_, invariant_start now⟩
  · exact initial_tasks now (hcode 0 .reader ⟨nofun, rfl, trivial⟩)
      (hcode 1 .writer ⟨fun _ => rfl, rfl, trivial⟩)
      (hcode 2 .keepalive ⟨nofun, rfl, trivial⟩)
  · intro i hi
    have hne : i ≠ 1 := by
      rintro rfl
      exact absurd hi (by simp [initial])
    rw [atStart, show protocol.first i = none from if_neg hne]
    rfl

/-- The ids of the frames that open requests are written in increasing order, and none of them is `0` or
the largest 64-bit number. -/
theorem request_ids_increase {now : ℕ} {labels : Schedule} {t : Run} (hrun : Reaches now labels t)
    (hsends : ∀ handle kind code payload, .start (.send handle kind code payload) ∈ labels →
      kind ∉ openingKinds) :
    ((t.pool.shared.wire.filter opens).map Frame.id).Pairwise (· < ·) ∧
      ∀ id ∈ (t.pool.shared.wire.filter opens).map Frame.id, 1 ≤ id ∧ id < 2 ^ 64 - 1 := by
  have hadmitted : ∀ n, .start n ∈ labels → admitted n := by
    intro n hn
    cases n with
    | send handle kind code payload => exact hsends handle kind code payload hn
    | _ => trivial
  obtain ⟨hs, hbacked⟩ := sustains_invariant.run (backed_initial now) hadmitted (run_of_traced hrun)
  have hnumbers := hbacked.invariant.numbers.sublist (openIds_sublist (queued_wire _ _))
  refine ⟨hnumbers.increasing, fun id hid => ?_⟩
  obtain ⟨hpos, hlt⟩ := hnumbers.bounds id hid
  exact ⟨hpos, Nat.lt_of_lt_of_le hlt hnumbers.counter.2⟩

/-- A command is dropped while its frame waits in the queue, and a stream is opened after it. -/
def droppedCommand : Schedule :=
  .start (.begin AccountClient.kindCommand 7 zeroNonce 0 []) :: beginOne 3 ++ .drop 3 ::
    .start (.beginStream 9 [] 0) :: .step 5 (.clock 0) :: List.replicate 3 (.step 5 .proceed) ++
    .step 5 (.clock 0) :: List.replicate 6 (.step 5 .proceed) ++ writeOne ++ writeOne

theorem request_ids_increase_sample : ∃ t, Reaches 0 droppedCommand t ∧
    (t.pool.shared.wire.filter opens).map Frame.id = [1, 2] ∧
    ((t.pool.shared.wire.filter opens).map Frame.id).Pairwise (· < ·) ∧
      ∀ id ∈ (t.pool.shared.wire.filter opens).map Frame.id, 1 ≤ id ∧ id < 2 ^ 64 - 1 := by
  have hfacts : ((runFrom (traced system) (Traced.begin (initial 0)) droppedCommand).map fun t : Run =>
      (t.pool.shared.wire.filter opens).map Frame.id) = some [1, 2] := by decide +kernel
  obtain ⟨t, hrun, hids⟩ := Option.map_eq_some_iff.mp hfacts
  refine ⟨t, hrun, hids, request_ids_increase hrun ?_⟩
  intro handle kind code payload hsend
  simp [droppedCommand, beginOne, writeOne] at hsend

end Mst5Client.RequestOrder
