import Mst5Client.ConnectionCalls

set_option autoImplicit false

/-!
# What the operations of the connection change

Each operation touches few parts of the connection.
-/
namespace Mst5Client.ConnectionEffects
open IoResult TaskPrograms ConnectionState ConnectionCalls

def Always {α : Type} (P : α → Prop) (x : Option α) : Prop := ∀ a, x = some a → P a

section Always
variable {α β : Type} {P : α → Prop}

theorem always_none : Always P none := nofun

theorem always_bind {f : β → Option α} (h : ∀ b, Always P (f b)) (x : Option β) :
    Always P (x.bind f) := by
  cases x with
  | none => exact always_none
  | some b => exact h b

theorem always_ite {p : Prop} [Decidable p] {x y : Option α} (hx : Always P x) (hy : Always P y) :
    Always P (if p then x else y) := by
  split_ifs
  · exact hx
  · exact hy

end Always

theorem map_modify_eq {α β : Type} {f : α → α} {g : α → β} (h : ∀ x, g (f x) = g x) (l : List α)
    (n : ℕ) : (l.modify n f).map g = l.map g := by
  apply List.ext_getElem?
  intro i
  rw [List.getElem?_map, List.getElem?_modify, List.getElem?_map]
  by_cases hn : n = i
  · simp [hn, Function.comp_def, h]
  · simp [hn]

inductive Part where
  | closed
  | pending
  | registered
  | handleIds
  | routing
  | queues
  | wire

def handleIds (c : Connection) : List ℕ := c.handles.map Handle.id

def Part.Value : Part → Type
  | .closed => Bool
  | .pending | .registered => List (ℕ × ℕ)
  | .handleIds => List ℕ
  | .routing => ℕ × List (ℕ × ℕ) × List (List Arrived) × List Frame × List (Arrived × Option ℕ) ×
    List Arrived
  | .queues => List WriterCommand × List WriterCommand × List (Option (Except IoError Unit))
  | .wire => List Frame

def Part.read (c : Connection) : (part : Part) → part.Value
  | .closed => c.closed
  | .pending => c.pending
  | .registered => c.registered
  | .handleIds => ConnectionEffects.handleIds c
  | .routing => (c.nextId, c.handles.map fun h => (h.id, h.channel), c.channels.map Channel.log,
    c.arrived, c.routes, c.events)
  | .queues => (c.control, c.media, c.completions)
  | .wire => c.wire

def Part.Same (part : Part) (c c' : Connection) : Prop := part.read c' = part.read c

def Item.isFrame : Item → Bool
  | .frame _ => true
  | .failed _ => false

def touches : Op → Part → Bool
  | .swapClosed, .closed => true
  | .insertPending _ _, .pending | .removePending _, .pending | .lookupPending _ _, .pending
  | .takePending, .pending | .insertPending _ _, .registered => true
  | .newHandle _ _ _, .handleIds => true
  | .newChannel, .routing | .allocateId, .routing | .newHandle _ _ _, .routing | .readFrame, .routing
  | .lookupPending _ _, .routing | .broadcast _, .routing => true
  | .sendChannel _ item, .routing => Item.isFrame item
  | .sendWriter _, .queues | .sendClose, .queues | .recvWriter, .queues | .complete _ _, .queues => true
  | .write _, .wire => true
  | _, _ => false

def Aftermath (c : Connection) (handle : ℕ) (n : Name) : Prop :=
  ∃ id, (handleIds c)[handle]? = some id ∧ (n = .cancelRequest id ∨ n = .abortStream id)

section Dropping
variable (c : Connection)

theorem setHandle_same (n : ℕ) {f : Handle → Handle} (hid : ∀ h, (f h).id = h.id)
    (hchannel : ∀ h, (f h).channel = h.channel) (part : Part) : part.Same c (c.setHandle n f) := by
  have hkey : ∀ h, ((f h).id, (f h).channel) = (h.id, h.channel) :=
    fun h => Prod.ext (hid h) (hchannel h)
  cases part with
  | handleIds => exact map_modify_eq hid c.handles n
  | routing =>
    have hkeys := map_modify_eq (g := fun h => (h.id, h.channel)) hkey c.handles n
    simp only [Part.Same, Part.read, Connection.setHandle, hkeys]
    rfl
  | _ => rfl

theorem setChannel_same (n : ℕ) {f : Channel → Channel} (hf : ∀ ch, (f ch).log = ch.log)
    (part : Part) : part.Same c (c.setChannel n f) := by
  cases part with
  | routing =>
    simp only [Part.Same, Part.read, Connection.setChannel, map_modify_eq hf]
    rfl
  | _ => rfl

theorem hangUp_same (n : ℕ) (part : Part) : part.Same c (c.hangUp n) :=
  setChannel_same c n (f := fun ch => { ch with receiverAlive := false }) (fun _ => rfl) part

theorem dropHandle_same (n : ℕ) (part : Part) : part.Same c (c.dropHandle n).1 := by
  unfold Connection.dropHandle
  split
  · rfl
  · rename_i h _
    split
    · rfl
    · have hset := setHandle_same c n (f := fun h => { h with active := false, dropped := true })
        (fun _ => rfl) (fun _ => rfl) part
      have hgone := (hangUp_same _ h.channel part).trans hset
      cases part <;> exact hgone

theorem dropHandle_aftermath (n : ℕ) : ∀ m ∈ (c.dropHandle n).2, Aftermath c n m := by
  unfold Connection.dropHandle
  split
  · exact fun _ => nofun
  · rename_i h hh
    have hid : (handleIds c)[n]? = some h.id := by
      rw [handleIds, List.getElem?_map, hh]
      rfl
    dsimp only
    split_ifs
    · exact fun _ => nofun
    · intro m hm
      exact ⟨h.id, hid, .inr (List.mem_singleton.mp hm)⟩
    · intro m hm
      exact ⟨h.id, hid, .inl (List.mem_singleton.mp hm)⟩
    · exact fun _ => nofun

theorem release_same (l : Locals) (part : Part) : part.Same c (c.release l) := by
  obtain ⟨order, permit, budget, receiver, handle⟩ := l
  cases receiver with
  | none => cases order <;> cases permit <;> cases part <;> rfl
  | some n => cases order <;> cases permit <;> cases part <;> exact hangUp_same _ n _

theorem discard_same (l : Locals) (part : Part) : part.Same c (c.discard l).1 := by
  unfold Connection.discard
  split
  · exact release_same c l part
  · exact (dropHandle_same _ _ part).trans (release_same c l part)

theorem discard_aftermath (l : Locals) :
    ∀ m ∈ (c.discard l).2, ∃ handle, l.handle = some handle ∧ Aftermath c handle m := by
  unfold Connection.discard
  split
  · exact fun _ => nofun
  · rename_i handle hhandle
    intro m hm
    obtain ⟨id, hid, hm⟩ := dropHandle_aftermath _ _ m hm
    rw [show handleIds (c.release l) = handleIds c from release_same c l .handleIds] at hid
    exact ⟨handle, hhandle, id, hid, hm⟩

end Dropping

section Writing

def overwritten : Op → Connection → Connection → Connection
  | .stageTimeout _, c, c' => { c with now := c'.now }
  | .acquirePermit, c, c' => { c with inflight := c'.inflight }
  | .swapClosed, c, c' => { c with closed := c'.closed }
  | .newChannel, c, c' | .sendChannel _ _, c, c' | .recvHandle _, c, c' =>
    { c with channels := c'.channels }
  | .lockOrder, c, c' | .unlockOrder, c, c' => { c with orderLocked := c'.orderLocked }
  | .allocateId, c, c' => { c with nextId := c'.nextId }
  | .insertPending _ _, c, c' => { c with pending := c'.pending, registered := c'.registered }
  | .removePending _, c, c' | .takePending, c, c' => { c with pending := c'.pending }
  | .lookupPending _ _, c, c' => { c with pending := c'.pending, routes := c'.routes }
  | .newHandle _ _ _, c, c' | .swapActive _, c, c' => { c with handles := c'.handles }
  | .dropHandle _, c, c' => { c with
      inflight := c'.inflight, channels := c'.channels, handles := c'.handles }
  | .acquireBudget _, c, c' | .dropCommand _, c, c' => { c with writerBudget := c'.writerBudget }
  | .sendWriter _, c, c' => { c with
      control := c'.control, media := c'.media, completions := c'.completions, writerBudget :=
        c'.writerBudget }
  | .sendClose, c, c' => { c with control := c'.control, completions := c'.completions }
  | .broadcast _, c, c' => { c with events := c'.events }
  | .readFrame, c, c' => { c with arrived := c'.arrived }
  | .recvWriter, c, c' => { c with control := c'.control, media := c'.media }
  | .write _, c, c' => { c with wire := c'.wire }
  | .complete _ _, c, c' => { c with completions := c'.completions }
  | .endWriter, c, c' => { c with writerDone := c'.writerDone, writerBudget := c'.writerBudget }
  | _, c, _ => c

def overwrittenLocals : Op → Locals → Locals → Locals
  | .acquirePermit, l, l' => { l with permit := l'.permit }
  | .newChannel, l, l' => { l with receiver := l'.receiver }
  | .lockOrder, l, l' | .unlockOrder, l, l' => { l with order := l'.order }
  | .newHandle _ _ _, l, l' =>
    { l with permit := l'.permit, receiver := l'.receiver, handle := l'.handle }
  | .giveHandle, l, l' => { l with handle := l'.handle }
  | .acquireBudget _, l, l' | .sendWriter _, l, l' => { l with budget := l'.budget }
  | _, l, _ => l

variable {c : Connection} {l : Locals} {op : Op}

/-- An operation writes its own fields only, and spawns nothing unless it drops a handle. -/
structure Writes (c : Connection) (l : Locals) (op : Op) (e : Performed (Ans op)) : Prop where
  shared : e.shared = overwritten op c e.shared
  locals : e.locals = overwrittenLocals op l e.locals
  spawned : ∀ n ∈ e.spawned, ∃ handle, op = .dropHandle handle

theorem writes_done {c' : Connection} {l' : Locals} (answer : Ans op)
    (hshared : c' = overwritten op c c' := by rfl)
    (hlocals : l' = overwrittenLocals op l l' := by rfl) :
    Always (Writes c l op) (done c' l' answer) := by
  rintro _ ⟨⟩
  exact ⟨hshared, hlocals, fun _ => nofun⟩

theorem dropHandle_writes (c : Connection) (n : ℕ) :
    (c.dropHandle n).1 = overwritten (.dropHandle n) c (c.dropHandle n).1 := by
  unfold Connection.dropHandle
  split
  · rfl
  · split
    · rfl
    · rfl

theorem perform_writes (choice : Choice) : Always (Writes c l op) (perform c l op choice) := by
  cases op with
  | dropHandle handle =>
    cases choice with
    | proceed =>
      rintro _ ⟨⟩
      exact ⟨dropHandle_writes c handle, rfl, fun _ _ => ⟨handle, rfl⟩⟩
    | _ => exact always_none
  | sendWriter frame =>
    refine always_ite ?_ ?_
    all_goals
      cases choice with
      | timedOut => exact writes_done _
      | _ => exact always_ite (writes_done _) (always_ite (writes_done _) always_none)
  | awaitComplete complete timed =>
    cases timed <;> cases choice <;> first | exact always_none | exact writes_done _ | skip
    all_goals
      simp only [perform]
      split
      · exact writes_done _
      · exact always_ite (writes_done _) always_none
  | recvWriter =>
    cases choice with
    | hangUp => exact writes_done _
    | proceed =>
      simp only [perform]
      split
      · exact writes_done _
      · exact writes_done _
      · exact always_none
    | _ => exact always_none
  | write command =>
    cases choice with
    | written result =>
      simp only [perform]
      split <;> exact writes_done _
    | _ => exact always_none
  | recvHandle handle =>
    cases choice with
    | timedOut => exact writes_done _
    | hangUp =>
      exact always_bind (fun h => always_bind (fun ch => always_ite (writes_done _) always_none) _) _
    | proceed =>
      refine always_bind (fun h => always_bind (fun ch => ?_) _) _
      split
      · exact always_none
      · exact writes_done _
    | _ => exact always_none
  | readFrame =>
    cases choice with
    | read result => rcases result with message | _ | frame <;> exact writes_done _
    | _ => exact always_none
  | sendChannel channel item =>
    cases choice with
    | proceed =>
      exact always_bind (fun ch => always_ite (writes_done _) (always_ite (writes_done _) always_none)) _
    | _ => exact always_none
  -- the others answer under at most two conditions
  | _ =>
    cases choice <;> first
      | exact always_none
      | exact writes_done _
      | exact always_bind (fun h => writes_done _) _
      | exact always_ite (writes_done _) always_none
      | exact always_ite always_none (writes_done _)
      | exact always_ite (writes_done _) (writes_done _)
      | exact always_ite (writes_done _) (always_ite (writes_done _) always_none)

structure Frames (c : Connection) (l : Locals) (op : Op) (e : Performed (Ans op)) : Prop where
  same : ∀ part, touches op part = false → part.Same c e.shared
  handle : touches op .handleIds = false → ∀ handle, e.locals.handle = some handle →
    l.handle = some handle
  spawned : ∀ n ∈ e.spawned, ∃ handle, op = .dropHandle handle ∧ Aftermath c handle n

theorem sendChannel_same {channel : ℕ} {item : Item} {choice : Choice} {e : Performed Unit}
    (he : perform c l (.sendChannel channel item) choice = some e) {part : Part}
    (hpart : touches (.sendChannel channel item) part = false) : part.Same c e.shared := by
  cases choice with
  | proceed =>
    obtain ⟨ch, -, hsent⟩ := Option.bind_eq_some_iff.mp he
    split_ifs at hsent
    · cases hsent
      rfl
    · cases hsent
      cases item with
      | frame a => cases part <;> first | rfl | cases hpart
      | failed message =>
        exact setChannel_same c channel
          (f := fun ch => { ch with queue := ch.queue ++ [.failed message] })
          (fun _ => rfl) part
  | _ => cases he

theorem recvHandle_same {handle : ℕ} {choice : Choice} {e : Performed Received}
    (he : perform c l (.recvHandle handle) choice = some e) (part : Part) :
    part.Same c e.shared := by
  cases choice with
  | timedOut =>
    cases he
    rfl
  | hangUp =>
    obtain ⟨h, -, hfound⟩ := Option.bind_eq_some_iff.mp he
    obtain ⟨ch, -, hclosed⟩ := Option.bind_eq_some_iff.mp hfound
    split_ifs at hclosed
    cases hclosed
    rfl
  | proceed =>
    obtain ⟨h, -, hfound⟩ := Option.bind_eq_some_iff.mp he
    obtain ⟨ch, -, hitem⟩ := Option.bind_eq_some_iff.mp hfound
    split at hitem
    · cases hitem
    · rename_i queue _
      cases hitem
      exact setChannel_same c h.channel (f := fun ch => { ch with queue }) (fun _ => rfl) part
  | _ => cases he

theorem perform_same {choice : Choice} {e : Performed (Ans op)}
    (he : perform c l op choice = some e) {part : Part} (hpart : touches op part = false) :
    part.Same c e.shared := by
  cases op with
  | dropHandle handle =>
    cases choice with
    | proceed =>
      cases he
      exact dropHandle_same c handle part
    | _ => cases he
  | swapActive handle =>
    cases choice with
    | proceed =>
      obtain ⟨h, -, hswapped⟩ := Option.bind_eq_some_iff.mp he
      cases hswapped
      exact setHandle_same c handle (f := fun h => { h with active := false }) (fun _ => rfl)
        (fun _ => rfl) part
    | _ => cases he
  | recvHandle handle => exact recvHandle_same he part
  | sendChannel channel item => exact sendChannel_same he hpart
  -- the others write no field of a part that they do not touch
  | _ =>
    rw [Part.Same, (perform_writes choice e he).shared]
    cases part <;> first | rfl | cases hpart

theorem perform_frames (choice : Choice) : Always (Frames c l op) (perform c l op choice) := by
  intro e he
  obtain ⟨-, hlocals, hspawned⟩ := perform_writes choice e he
  refine ⟨fun part hpart => perform_same he hpart, ?_, ?_⟩
  · intro hmade handle hhandle
    cases op with
    | newHandle stream id channel => cases hmade
    | giveHandle =>
      cases choice with
      | proceed =>
        cases he
        cases hhandle
      | _ => cases he
    | _ =>
      rw [hlocals] at hhandle
      exact hhandle
  · intro n hn
    obtain ⟨handle, rfl⟩ := hspawned n hn
    cases choice with
    | proceed =>
      cases he
      exact ⟨handle, rfl, dropHandle_aftermath c handle n hn⟩
    | _ => cases he

variable {choice : Choice}
variable {e : Performed Unit}

theorem swapClosed_effect {e : Performed Bool} (h : perform c l .swapClosed choice = some e) :
    e.answer = c.closed ∧ e.shared.closed = true := by
  cases choice with
  | proceed =>
    cases h
    exact ⟨rfl, rfl⟩
  | _ => cases h

theorem insertPending_effect {id channel : ℕ}
    (h : perform c l (.insertPending id channel) choice = some e) :
    e.shared.pending = without id c.pending ++ [(id, channel)] ∧
      e.shared.registered = c.registered ++ [(id, channel)] := by
  cases choice with
  | proceed =>
    cases h
    exact ⟨rfl, rfl⟩
  | _ => cases h

theorem removePending_effect {id : ℕ} (h : perform c l (.removePending id) choice = some e) :
    e.shared.pending = without id c.pending := by
  cases choice with
  | proceed =>
    cases h
    rfl
  | _ => cases h

theorem lookupPending_effect {a : Arrived} {remove : Bool} {e : Performed (Option ℕ)}
    (h : perform c l (.lookupPending a remove) choice = some e) :
    e.shared.pending = if remove then without a.frame.id c.pending else c.pending := by
  cases choice with
  | proceed =>
    cases h
    rfl
  | _ => cases h

theorem takePending_effect {e : Performed (List (ℕ × ℕ))}
    (h : perform c l .takePending choice = some e) :
    e.answer.Perm c.pending ∧ e.shared.pending = [] := by
  cases choice with
  | order entries =>
    simp only [perform] at h
    split_ifs at h with hperm
    cases h
    exact ⟨List.isPerm_iff.mp hperm, rfl⟩
  | _ => cases h

end Writing

section Handles
variable {c : Connection} {l : Locals} {choice : Choice}
variable {e : Performed ℕ}

theorem newHandle_effect {stream : Bool} {id channel : ℕ}
    (h : perform c l (.newHandle stream id channel) choice = some e) :
    e.answer = (handleIds c).length ∧ handleIds e.shared = handleIds c ++ [id] ∧
      e.locals.handle = some e.answer := by
  cases choice with
  | proceed =>
    cases h
    exact ⟨(List.length_map _).symm, List.map_append, rfl⟩
  | _ => cases h

theorem handleId_effect {handle : ℕ} (h : perform c l (.handleId handle) choice = some e) :
    (handleIds c)[handle]? = some e.answer ∧
      handleIds e.shared = handleIds c := by
  cases choice with
  | proceed =>
    obtain ⟨x, hx, hdone⟩ := Option.bind_eq_some_iff.mp h
    cases hdone
    refine ⟨?_, rfl⟩
    rw [handleIds, List.getElem?_map, (Option.filter_eq_some_iff.mp hx).1]
    rfl
  | _ => cases h

variable {handle : ℕ}

def apart : Op → Bool
  | .newChannel | .sendChannel _ _ | .recvHandle _ | .newHandle _ _ _ | .swapActive _ | .dropHandle
    _ => false
  | _ => true

def Apart {ω : Type} (c : Connection) (e : Performed ω) : Prop :=
  e.shared.channels = c.channels ∧ e.shared.handles = c.handles

theorem perform_apart {op : Op} (hop : apart op = true) :
    Always (Apart c) (perform c l op choice) := by
  intro e he
  rw [Apart, (perform_writes choice e he).shared]
  cases op <;> first | exact ⟨rfl, rfl⟩ | cases hop

def mail (c : Connection) : List (List Item × List Arrived) :=
  c.channels.map fun ch => (ch.queue, ch.log)

theorem mail_modify (n : ℕ) {f : Channel → Channel}
    {g : List Item × List Arrived → List Item × List Arrived}
    (hf : ∀ ch, ((f ch).queue, (f ch).log) = g (ch.queue, ch.log)) :
    mail (c.setChannel n f) = (mail c).modify n g := by
  apply List.ext_getElem?
  intro m
  rw [mail, List.getElem?_map, List.getElem?_modify, mail, Connection.setChannel,
    List.getElem?_modify, List.getElem?_map]
  by_cases hm : n = m
  · simp [hm, Function.comp_def, hf]
  · simp [hm]

theorem hangUp_mail (n : ℕ) : mail (c.hangUp n) = mail c :=
  map_modify_eq (f := fun ch : Channel => { ch with receiverAlive := false })
    (g := fun ch => (ch.queue, ch.log))
    (fun _ => rfl) c.channels n

theorem dropHandle_mail (n : ℕ) : mail (c.dropHandle n).1 = mail c := by
  unfold Connection.dropHandle
  split
  · rfl
  · rename_i h _
    split
    · rfl
    · exact hangUp_mail (c := c.setHandle n fun h => { h with active := false, dropped := true })
        h.channel

theorem release_mail (l : Locals) : mail (c.release l) = mail c := by
  obtain ⟨order, permit, budget, receiver, handle⟩ := l
  cases receiver with
  | none => cases order <;> cases permit <;> rfl
  | some n => cases order <;> cases permit <;> exact hangUp_mail n

theorem discard_mail (l : Locals) : mail (c.discard l).1 = mail c := by
  unfold Connection.discard
  split
  · exact release_mail l
  · exact (dropHandle_mail _).trans (release_mail l)

theorem release_handles (l : Locals) : (c.release l).handles = c.handles := by
  obtain ⟨order, permit, budget, receiver, handle⟩ := l
  cases receiver <;> cases order <;> cases permit <;> rfl

def Item.arrived : Item → List Arrived
  | .frame a => [a]
  | .failed _ => []

theorem newChannel_effect (h : perform c l .newChannel choice = some e) :
    mail e.shared = mail c ++ [([], [])] ∧ e.shared.handles = c.handles := by
  cases choice with
  | proceed =>
    cases h
    exact ⟨List.map_append, rfl⟩
  | _ => cases h

theorem sendChannel_effect {channel : ℕ} {item : Item} {e : Performed Unit}
    (h : perform c l (.sendChannel channel item) choice = some e) :
    e.shared.handles = c.handles ∧ (mail e.shared = mail c ∨ mail e.shared =
      (mail c).modify channel fun mail => (mail.1 ++ [item], mail.2 ++ Item.arrived item)) := by
  cases choice with
  | proceed =>
    obtain ⟨ch, -, h⟩ := Option.bind_eq_some_iff.mp h
    split_ifs at h <;> cases h
    · exact ⟨rfl, .inl rfl⟩
    · refine ⟨rfl, .inr (mail_modify channel fun ch => ?_)⟩
      cases item with
      | frame a => rfl
      | failed message => exact congrArg (Prod.mk _) (List.append_nil _).symm
  | _ => cases h

/-- What the owner of a handle gets, and what is left of the mail then. -/
inductive Receives (c : Connection) (handle : ℕ) : Received → List (List Item × List Arrived) → Prop
  | timedOut : Receives c handle .timedOut (mail c)
  | closed {x : Handle} (hx : c.handles[handle]? = some x)
      (hchannel : x.channel ∉ c.pending.map Prod.snd) : Receives c handle .closed (mail c)
  | item {x : Handle} {item : Item} {queue : List Item} {log : List Arrived}
      (hx : c.handles[handle]? = some x) (hmail : (mail c)[x.channel]? = some (item :: queue, log)) :
      Receives c handle (.item item) ((mail c).modify x.channel fun mail => (queue, mail.2))

theorem liveHandle_eq_some {x : Handle} (h : c.liveHandle handle = some x) :
    c.handles[handle]? = some x := (Option.filter_eq_some_iff.mp h).1

theorem recvHandle_effect {e : Performed Received}
    (h : perform c l (.recvHandle handle) choice = some e) :
    e.shared.handles = c.handles ∧ Receives c handle e.answer (mail e.shared) := by
  cases choice with
  | timedOut =>
    cases h
    exact ⟨rfl, .timedOut⟩
  | hangUp =>
    obtain ⟨x, hx, h⟩ := Option.bind_eq_some_iff.mp h
    obtain ⟨ch, hch, h⟩ := Option.bind_eq_some_iff.mp h
    split_ifs at h with hclosed
    cases h
    exact ⟨rfl, .closed (liveHandle_eq_some hx) hclosed.2⟩
  | proceed =>
    obtain ⟨x, hx, h⟩ := Option.bind_eq_some_iff.mp h
    obtain ⟨ch, hch, h⟩ := Option.bind_eq_some_iff.mp h
    split at h
    · cases h
    · rename_i item queue hqueue
      cases h
      refine ⟨rfl, ?_⟩
      have hmail : (mail c)[x.channel]? = some (item :: queue, ch.log) := by
        rw [mail, List.getElem?_map, hch, ← hqueue]
        rfl
      rw [mail_modify (g := fun mail => (queue, mail.2)) x.channel fun _ => rfl]
      exact .item (liveHandle_eq_some hx) hmail
  | _ => cases h

theorem newHandle_handles {stream : Bool} {id channel : ℕ}
    (h : perform c l (.newHandle stream id channel) choice = some e) : mail e.shared = mail c ∧
      e.shared.handles = c.handles ++ [⟨stream, id, channel, true, false⟩] := by
  cases choice with
  | proceed =>
    cases h
    exact ⟨rfl, rfl⟩
  | _ => cases h

theorem swapActive_effect {e : Performed Bool}
    (h : perform c l (.swapActive handle) choice = some e) : mail e.shared = mail c ∧
      e.shared.handles = c.handles.modify handle (fun x => { x with active := false }) ∧
      ∃ x, c.handles[handle]? = some x ∧ e.answer = x.active := by
  cases choice with
  | proceed =>
    obtain ⟨x, hx, h⟩ := Option.bind_eq_some_iff.mp h
    cases h
    exact ⟨rfl, rfl, x, liveHandle_eq_some hx, rfl⟩
  | _ => cases h

theorem dropHandle_effect {e : Performed Unit}
    (h : perform c l (.dropHandle handle) choice = some e) :
    e.shared = (c.dropHandle handle).1 ∧ e.spawned = (c.dropHandle handle).2 := by
  cases choice with
  | proceed =>
    cases h
    exact ⟨rfl, rfl⟩
  | _ => cases h

end Handles

variable {c : Connection} {l : Locals} {choice : Choice}
variable {e : Performed Sent} {result : Except IoError Unit}

theorem queues_same {c' : Connection} (h : Part.queues.Same c c') :
    c'.control = c.control ∧ c'.media = c.media ∧ c'.completions = c.completions := by
  have h : (c'.control, c'.media, c'.completions) = (c.control, c.media, c.completions) := h
  simpa only [Prod.mk.injEq] using h

def WriterCommand.number : WriterCommand → ℕ
  | .frame _ complete _ | .close complete => complete

/-- What is put into a queue, in which of them and under which number. -/
structure Enqueued (c c' : Connection) (command : WriterCommand) (media : Bool) : Prop where
  number : WriterCommand.number command = c.completions.length
  completions : c'.completions = c.completions ++ [none]
  control : c'.control = if media then c.control else c.control ++ [command]
  media : c'.media = if media then c.media ++ [command] else c.media

theorem sendWriter_effect {frame : Frame} (h : perform c l (.sendWriter frame) choice = some e) :
    (∃ budget, e.answer = .sent c.completions.length ∧
        Enqueued c e.shared (.frame frame c.completions.length budget) (frame.kind = kindStreamData)) ∨
      (e.answer = .timedOut ∨ e.answer = .closed) ∧ Part.queues.Same c e.shared := by
  have key : ∀ (queue : List WriterCommand) (capacity : ℕ) (media : Bool)
      (push : Connection → List WriterCommand → Connection)
      (hpush : Enqueued c (push { c with completions := c.completions ++ [none] }
        (queue ++ [.frame frame c.completions.length l.budget]))
          (.frame frame c.completions.length l.budget) media)
      (h : sendTo c l queue capacity frame choice push = some e),
      (∃ budget, e.answer = .sent c.completions.length ∧
        Enqueued c e.shared (.frame frame c.completions.length budget) media) ∨
      (e.answer = .timedOut ∨ e.answer = .closed) ∧ Part.queues.Same c e.shared := by
    intro queue capacity media push hpush h
    cases choice with
    | timedOut =>
      cases h
      exact .inr ⟨.inl rfl, rfl⟩
    | _ =>
      simp only [sendTo, done] at h
      split_ifs at h <;> cases h
      · exact .inr ⟨.inr rfl, rfl⟩
      · exact .inl ⟨l.budget, rfl, hpush⟩
  change (if frame.kind = kindStreamData then sendTo c l c.media writerQueue frame choice _
    else sendTo c l c.control controlWriterQueue frame choice _) = some e at h
  split_ifs at h with hkind
  · rw [decide_eq_true hkind]
    exact key c.media writerQueue true _ ⟨rfl, rfl, rfl, rfl⟩ h
  · rw [decide_eq_false hkind]
    exact key c.control controlWriterQueue false _ ⟨rfl, rfl, rfl, rfl⟩ h

theorem sendClose_effect (h : perform c l .sendClose choice = some e) :
    (e.answer = .sent c.completions.length ∧ Enqueued c e.shared (.close c.completions.length) false) ∨
      e.answer = .closed ∧ Part.queues.Same c e.shared := by
  cases choice with
  | proceed =>
    simp only [perform, done] at h
    split_ifs at h <;> cases h
    · exact .inr ⟨rfl, rfl⟩
    · exact .inl ⟨rfl, rfl, rfl, rfl, rfl⟩
  | _ => cases h

theorem recvWriter_effect {e : Performed (Option WriterCommand)}
    (h : perform c l .recvWriter choice = some e) :
    (e.answer = none ∧ Part.queues.Same c e.shared) ∨
      ∃ command, e.answer = some command ∧ e.shared.completions = c.completions ∧
        ((c.control = command :: e.shared.control ∧ e.shared.media = c.media) ∨
          (c.control = [] ∧ e.shared.control = [] ∧ c.media = command :: e.shared.media)) := by
  cases choice with
  | hangUp =>
    cases h
    exact .inl ⟨rfl, rfl⟩
  | proceed =>
    simp only [perform] at h
    split at h
    · rename_i command control hcontrol
      cases h
      exact .inr ⟨command, rfl, rfl, .inl ⟨hcontrol, rfl⟩⟩
    · rename_i command media hcontrol hmedia
      cases h
      exact .inr ⟨command, rfl, rfl, .inr ⟨hcontrol, hcontrol, hmedia⟩⟩
    · cases h
  | _ => cases h

def delivered : WriterCommand → Except IoError Unit → Option (ℕ × Frame)
  | .frame frame complete _, .ok () => some (complete, frame)
  | _, _ => none

theorem write_effect {command : WriterCommand} {e : Performed (Except IoError Unit)}
    (h : perform c l (.write command) choice = some e) :
    e.shared.wire = c.wire ++ ((delivered command e.answer).map Prod.snd).toList := by
  cases choice with
  | written result =>
    simp only [perform] at h
    split at h
    · cases h
      rfl
    · rename_i hother
      cases h
      cases command with
      | close complete => exact (List.append_nil _).symm
      | frame frame complete budget =>
        cases result with
        | ok _ => exact absurd rfl (hother frame complete budget rfl)
        | error error => exact (List.append_nil _).symm
  | _ => cases h

theorem complete_effect {command : WriterCommand} {e : Performed Unit}
    (h : perform c l (.complete command result) choice = some e) :
    e.shared.completions = c.completions.set (WriterCommand.number command) (some result) ∧
      e.shared.control = c.control ∧ e.shared.media = c.media := by
  cases choice with
  | proceed =>
    cases h
    cases command <;> exact ⟨rfl, rfl, rfl⟩
  | _ => cases h

theorem awaitComplete_effect {complete : ℕ} {timed : Bool} {e : Performed Completion}
    (h : perform c l (.awaitComplete complete timed) choice = some e)
    (hdone : e.answer = .done result) : c.completions[complete]? = some (some result) := by
  cases timed <;> cases choice <;> first | (cases h; cases hdone) | cases h | skip
  all_goals
    simp only [perform] at h
    split at h
    · rename_i result' hresult
      cases h
      cases hdone
      exact hresult
    · split_ifs at h
      cases h
      cases hdone

end Mst5Client.ConnectionEffects
