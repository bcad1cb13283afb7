import Mst5Client.ConnectionHistory
import Mst5Client.ConnectionPrograms

set_option autoImplicit false

/-!
# What a task has to see to before it ends

Who inserts an id into `pending` has to make a handle for it or to remove it again, and who
deactivates a handle whose id may be pending has to remove that id.
-/
namespace Mst5Client.PendingDuties
open ByteOrder IoResult TaskPrograms TaskTraces ConnectionState ConnectionCalls ConnectionPrograms

/-- An id to be removed or handed to a handle, or the handle whose id is to be removed. -/
inductive Duty where
  | id (id : ℕ)
  | handle (handle : ℕ)
deriving DecidableEq

structure Upkeep where
  owes : Option Duty
  drained : List ℕ
  gone : List ℕ
  ids : List (ℕ × ℕ)
  loop : Bool

def Upkeep.nothing : Upkeep := ⟨none, [], [], [], false⟩

def ends : Received → Bool
  | .item (.frame a) => isTerminalResponse a.frame.kind
  | .item (.failed _) | .closed => true
  | .timedOut => false

def pre (r : Upkeep) : Op → Prop
  | .insertPending _ _ | .swapActive _ => r.owes = none ∧ r.loop = false
  | .newHandle _ id _ => r.owes = some (.id id)
  | .sendChannel channel (.failed _) => channel ∈ r.drained
  | _ => True

def post (r : Upkeep) : (op : Op) → Ans op → Upkeep
  | .insertPending id _, _ => { r with owes := some (.id id) }
  | .newHandle _ _ _, _ => { r with owes := none }
  | .swapActive handle, true => if handle ∈ r.gone then r else { r with owes := some (.handle handle) }
  | .handleId handle, id => { r with
      owes := if r.owes = some (.handle handle) then some (.id id) else r.owes
      ids := (handle, id) :: r.ids }
  | .removePending id, _ => { r with
      owes := if r.owes = some (.id id) then none else r.owes
      gone := (r.ids.filter fun known => known.2 = id).map Prod.fst ++ r.gone }
  | .recvHandle handle, received => if ends received then { r with gone := handle :: r.gone } else r
  | .takePending, entries => { r with drained := entries.map Prod.snd ++ r.drained }
  | _, _ => r

def start : Name → Upkeep
  | .cancelRequest id | .abortStream id => { Upkeep.nothing with owes := some (.id id) }
  | _ => Upkeep.nothing

def protocol : Protocol Op Ans Name Upkeep where
  pre
  post
  idle := Upkeep.nothing
  ready := fun _ _ => True
  start
  first := fun i => if i < 3 then { Upkeep.nothing with loop := true } else Upkeep.nothing

def looping : Name → Bool
  | .reader | .writer | .keepalive => true
  | _ => false

/-- Whoever ends owes nothing, and only the loops go on. -/
def Dutiful (r : Upkeep) (prog : Call (Option Name)) : Prop :=
  Verified protocol.toDiscipline r (fun r next => r.owes = none ∧ ∀ m ∈ next, looping m = true) prog

def plain : Op → Bool
  | .insertPending _ _ | .swapActive _ | .newHandle _ _ _ | .sendChannel _ (.failed _) | .handleId _
  | .removePending _ | .recvHandle _ | .takePending => false
  | _ => true

theorem neutral_op (op : Op) (h : plain op = true) :
    Neutral protocol.toDiscipline (Prog.perform op : Call (Ans op)) := by
  cases op with
  | sendChannel channel item =>
    cases item with
    | frame a => exact Neutral.perform (fun _ => trivial) fun _ _ => rfl
    | failed message => cases h
  | _ => first | exact Neutral.perform (fun _ => trivial) fun _ _ => rfl | cases h

theorem neutral_enqueueFrame (frame : Frame) :
    Neutral protocol.toDiscipline (enqueueFrame frame).run := by
  intro r
  refine ⟨trivial, fun granted => ?_⟩
  cases granted with
  | false => exact rfl
  | true =>
    refine ⟨trivial, fun sent => ?_⟩
    cases sent with
    | timedOut => exact rfl
    | closed => exact rfl
    | sent complete =>
      refine ⟨trivial, fun completion => ?_⟩
      cases completion <;> exact rfl

theorem neutral_writeControl (frame : Frame) :
    Neutral protocol.toDiscipline (writeControl frame).run := by
  intro r
  refine ⟨trivial, fun closed => ?_⟩
  cases closed with
  | true => exact rfl
  | false => exact neutral_enqueueFrame frame r

theorem neutral_writeNew (kind : UInt8) (code id : ℕ) (payload : Bytes) :
    Neutral protocol.toDiscipline (writeNew kind code id payload).run := by
  unfold writeNew
  cases Frame.new kind code id payload with
  | error e => exact fun _ => rfl
  | ok frame => exact neutral_writeControl frame

variable {loop : Bool} {r r' r'' : Upkeep}

/-- Nothing is owed, and nothing that was known is forgotten. -/
structure Free (loop : Bool) (r r' : Upkeep) : Prop where
  owes : r'.owes = none
  drained : r.drained ⊆ r'.drained
  gone : r.gone ⊆ r'.gone
  loop : r'.loop = loop

theorem Free.refl (howes : r.owes = none) (hloop : r.loop = loop) : Free loop r r :=
  ⟨howes, fun _ h => h, fun _ h => h, hloop⟩

theorem Free.trans (h : Free loop r r') (h' : Free loop r' r'') : Free loop r r'' :=
  ⟨h'.owes, fun _ hx => h'.drained (h.drained hx), fun _ hx => h'.gone (h.gone hx), h'.loop⟩

/-- Programs that owe nothing in the end if they owe nothing at the beginning. -/
def Calm (loop : Bool) (α : Type) (p : Call α) : Prop :=
  ∀ r, r.owes = none → r.loop = loop → Verified protocol.toDiscipline r (fun r' _ => Free loop r r') p

theorem Calm.after {α : Type} {p : Call α} (hp : Calm loop α p) (h : Free loop r r') :
    Verified protocol.toDiscipline r' (fun r'' _ => Free loop r r'') p :=
  (hp r' h.owes h.loop).mono fun _ _ h' => h.trans h'

theorem calm_compositional (loop : Bool) : Compositional (Calm loop) where
  ret := fun _ _ howes hloop => Free.refl howes hloop
  bind := by
    intro α β p f hp hf r howes hloop
    exact (hp r howes hloop).bind fun _ a h => (hf a).after h

theorem calm_of_neutral {α : Type} {p : Call α} (h : Neutral protocol.toDiscipline p) :
    Calm loop α p := by
  intro r howes hloop
  refine (h r).mono ?_
  rintro _ _ rfl
  exact Free.refl howes hloop

theorem calm_op (op : Op) (h : plain op = true) : Calm loop _ (Prog.perform op) :=
  calm_of_neutral (neutral_op op h)

theorem calm_handleId (handle : ℕ) : Calm loop _ (Prog.perform (.handleId handle)) := by
  intro r howes hloop
  refine ⟨trivial, fun id => ⟨?_, fun _ h => h, fun _ h => h, hloop⟩⟩
  simp [protocol, post, howes]

theorem calm_removePending (id : ℕ) : Calm loop _ (Prog.perform (.removePending id)) := by
  intro r howes hloop
  refine ⟨trivial, fun _ => ⟨?_, fun _ h => h, fun _ h => List.mem_append_right _ h, hloop⟩⟩
  simp [protocol, post, howes]

theorem calm_recvHandle (handle : ℕ) : Calm loop _ (Prog.perform (.recvHandle handle)) := by
  intro r howes hloop
  refine ⟨trivial, fun received => ?_⟩
  change Free loop r (if ends received then _ else r)
  split_ifs
  · exact ⟨howes, fun _ h => h, fun _ h => List.mem_cons_of_mem _ h, hloop⟩
  · exact Free.refl howes hloop

theorem calm_calls (loop : Bool) : CoversQuiet (Calm loop) fun _ => True where
  toCompositional := calm_compositional loop
  calls := by
    intro op hop
    cases op with
    | handleId handle => exact calm_handleId handle
    | removePending id => exact calm_removePending id
    | recvHandle handle => exact calm_recvHandle handle
    | sendChannel channel item => cases item <;> cases hop
    | _ => first | exact calm_op _ rfl | cases hop
  frames := fun frame _ => calm_op (.sendWriter frame) rfl
  routine := fun _ _ => trivial

theorem calm_reading (loop : Bool) : CoversArea (Calm loop) .reading := by
  intro op hop
  cases op with
  | sendChannel channel item =>
    cases item with
    | frame a => exact calm_op _ rfl
    | failed message => cases hop
  | _ => first | exact calm_op _ rfl | cases hop

theorem calm_writing (loop : Bool) : CoversArea (Calm loop) .writing := by
  intro op hop
  cases op with
  | sendChannel channel item => cases item <;> cases hop
  | _ => first | exact calm_op _ rfl | cases hop

theorem verified_failAll (howes : r.owes = none) (hloop : r.loop = loop) (message : String)
    (entries : List (ℕ × ℕ)) (hdrained : ∀ e ∈ entries, e.2 ∈ r.drained) :
    Verified protocol.toDiscipline r (fun r' _ => Free loop r r') (failAll message entries) := by
  induction entries with
  | nil => exact Free.refl howes hloop
  | cons e entries ih =>
    refine ⟨hdrained e List.mem_cons_self, fun _ => ih fun e' he' => ?_⟩
    exact hdrained e' (List.mem_cons_of_mem e he')

theorem calm_failPending (message : String) : Calm loop _ (failPending message) := by
  intro r howes hloop
  refine ⟨trivial, fun entries => ?_⟩
  have hfree : Free loop r { r with drained := entries.map Prod.snd ++ r.drained } :=
    ⟨howes, fun _ h => List.mem_append_right _ h, fun _ h => h, hloop⟩
  refine (verified_failAll hfree.owes hfree.loop message entries ?_).mono fun _ _ h => hfree.trans h
  exact fun e he => List.mem_append_left _ (List.mem_map_of_mem he)

theorem calm_fail (loop : Bool) : CoversFail (Calm loop) := by
  intro message
  refine (calm_compositional loop).bind (calm_op .swapClosed rfl) fun closed => ?_
  cases closed with
  | true => exact (calm_compositional loop).ret _
  | false => exact calm_failPending message

theorem calm_close : Calm loop _ close.run := by
  have hK := calm_calls loop
  refine hK.tryBind (hK.lift (calm_op .swapClosed rfl)) fun closed => ?_
  cases closed with
  | true => exact hK.ret _
  | false =>
    refine hK.tryBind (hK.lift hK.enqueueClose) fun result => ?_
    exact hK.tryBind (hK.lift (calm_failPending _)) fun _ => hK.fromExcept result

theorem verified_swapActive {handle : ℕ} (howes : r.owes = none) (hloop : r.loop = false)
    (hgone : handle ∈ r.gone) :
    Verified protocol.toDiscipline r (fun r' _ => Free false r r') (swapActive handle) := by
  refine ⟨⟨howes, hloop⟩, fun active => ?_⟩
  cases active with
  | false => exact Free.refl howes hloop
  | true =>
    change Free false r (if handle ∈ r.gone then r else _)
    rw [if_pos hgone]
    exact Free.refl howes hloop

theorem calm_recv (handle : ℕ) : Calm false _ (recv handle).run := by
  intro r howes hloop
  refine ⟨trivial, fun received => ?_⟩
  have hfree : Free false r { r with gone := handle :: r.gone } :=
    ⟨howes, fun _ h => h, fun _ h => List.mem_cons_of_mem _ h, hloop⟩
  have hswap : ∀ {α : Type} (x : Except IoError α),
    Verified protocol.toDiscipline { r with gone := handle :: r.gone }
      (fun r' _ => Free false r r') (swapActive handle >>= fun _ => pure x) := by
    intro α x
    refine (verified_swapActive hfree.owes hfree.loop List.mem_cons_self).bind fun _ _ h => ?_
    exact hfree.trans h
  cases received with
  | item item =>
    cases item with
    | frame a =>
      change Verified protocol.toDiscipline (if isTerminalResponse a.frame.kind = true then _ else r) _
        (if isTerminalResponse a.frame.kind = true then _ else _)
      split_ifs
      · exact hswap _
      · exact Free.refl howes hloop
    | failed message => exact hswap _
  | closed => exact hswap _
  | timedOut => exact Free.refl howes hloop

theorem free_removed (handle id : ℕ) (howes : r.owes = none) (hloop : r.loop = false) :
    Free false r (post (post r (.handleId handle) id) (.removePending id) ()) ∧
      handle ∈ (post (post r (.handleId handle) id) (.removePending id) ()).gone := by
  refine ⟨⟨?_, fun _ h => h, fun _ h => List.mem_append_right _ h, hloop⟩, ?_⟩
  · simp [post, howes]
  · refine List.mem_append_left _ (List.mem_map_of_mem (f := Prod.fst) (a := (handle, id)) ?_)
    exact List.mem_filter.mpr ⟨List.mem_cons_self, decide_eq_true rfl⟩

theorem calm_remove (handle : ℕ) : Calm false _ (remove handle) := by
  intro r howes hloop
  refine ⟨trivial, fun active => ?_⟩
  cases active with
  | false => exact Free.refl howes hloop
  | true =>
    refine ⟨trivial, fun id => ⟨trivial, fun _ => ?_⟩⟩
    obtain ⟨hfree, hgone⟩ := free_removed handle id howes hloop
    refine (verified_swapActive hfree.owes hfree.loop hgone).bind fun _ _ h => ?_
    exact hfree.trans h

theorem calm_cancel (handle : ℕ) : Calm false _ (cancel handle) := by
  intro r howes hloop
  refine ⟨trivial, fun active => ?_⟩
  cases active with
  | false => exact Free.refl howes hloop
  | true =>
    refine ⟨trivial, fun id => ⟨trivial, fun _ => ?_⟩⟩
    obtain ⟨hfree, hgone⟩ := free_removed handle id howes hloop
    have hwrite : Neutral protocol.toDiscipline (ignore (writeNew kindCancel 0 id [])) :=
      (neutral_writeNew _ _ _ _).bind fun _ => Neutral.ret _
    refine hwrite.andThen fun _ => ?_
    refine (verified_swapActive hfree.owes hfree.loop hgone).bind fun _ _ h => ?_
    exact hfree.trans h

theorem free_closed (handle id : ℕ) (howes : r.owes = none) (hloop : r.loop = false) :
    Free false r (post (post (post r (.swapActive handle) true) (.handleId handle) id)
      (.removePending id) ()) := by
  change Free false r (post (post (if handle ∈ r.gone then r else _) (.handleId handle) id)
    (.removePending id) ())
  split_ifs
  · exact (free_removed handle id howes hloop).1
  · refine ⟨?_, fun _ h => h, fun _ h => List.mem_append_right _ h, hloop⟩
    simp [post]

theorem calm_streamClose (handle : ℕ) : Calm false _ (streamClose handle).run := by
  intro r howes hloop
  refine ⟨⟨howes, hloop⟩, fun active => ?_⟩
  cases active with
  | false => exact Free.refl howes hloop
  | true =>
    refine ⟨trivial, fun id => ?_⟩
    refine Neutral.liftThen (neutral_writeControl _) fun result => ?_
    exact ⟨trivial, fun _ => free_closed handle id howes hloop⟩

theorem calm_handles : CoversHandles (Calm false) :=
  ⟨calm_recv, calm_remove, calm_cancel, calm_streamClose⟩

theorem calm_reserve (deadlineMs : ℕ) (slotMessage writerMessage : String) :
    Calm loop _ (reserve deadlineMs slotMessage writerMessage).run :=
  (calm_calls loop).reserve (calm_op .lockOrder rfl) (calm_op .newChannel rfl)
    (calm_op .allocateId rfl) _ _ _

theorem calm_begin (kind : UInt8) (code : ℕ) (requestNonce : Block 16) (deadlineMs : ℕ)
    (payload : Bytes) : Calm false _ (begin kind code requestNonce deadlineMs payload).run := by
  have hK := calm_calls false
  refine hK.tryBind (calm_reserve _ _ _) ?_
  rintro ⟨id, channel⟩
  refine hK.tryBind (hK.fromExcept _) fun frame => ?_
  intro r howes hloop
  refine ⟨⟨howes, hloop⟩, fun _ => ⟨rfl, fun handle => ?_⟩⟩
  have hfree : Free false r { r with owes := none } := ⟨rfl, fun _ h => h, fun _ h => h, hloop⟩
  refine Calm.after ?_ hfree
  refine hK.tryBind (hK.stageTimeout _) fun _ => ?_
  refine hK.tryBind (hK.lift (hK.enqueueFrame frame)) fun result => ?_
  cases result with
  | error error =>
    refine hK.tryBind (hK.lift (calm_remove handle)) fun _ => ?_
    exact hK.tryBind (hK.lift (calm_fail false _)) fun _ => hK.throw _
  | ok _ => exact hK.tryBind (hK.lift (calm_op .unlockOrder rfl)) fun _ => hK.ret _

theorem request_ok (kind : UInt8) (code id : ℕ) (requestNonce : Block 16) (deadlineMs : ℕ)
    {payload : Bytes} (hkind : validKind kind = true) (hpayload : payload.length ≤ maxPlainPayload) :
    ∃ frame, Frame.request kind code id requestNonce deadlineMs payload = .ok frame := by
  have hnew : Frame.new kind code id payload = .ok ⟨kind, 0, code, id, zeroNonce, 0, payload⟩ := by
    rw [Frame.new, if_neg (by rw [hkind]; exact Bool.noConfusion), if_neg (Nat.not_lt_of_le hpayload)]
  rw [Frame.request, hnew]
  exact ⟨_, rfl⟩

theorem calm_beginStream (code : ℕ) {payload : Bytes} (deadlineMs : ℕ)
    (hpayload : payload.length ≤ maxPlainPayload) :
    Calm false _ (beginStream code payload deadlineMs).run := by
  have hK := calm_calls false
  refine hK.tryBind (calm_reserve _ _ _) ?_
  rintro ⟨id, channel⟩ r howes hloop
  have hfree : Free false r { r with owes := none } := ⟨rfl, fun _ h => h, fun _ h => h, hloop⟩
  obtain ⟨frame, hframe⟩ := request_ok kindStreamOpen code id zeroNonce deadlineMs rfl hpayload
  refine ⟨⟨howes, hloop⟩, fun _ => ?_⟩
  change Verified protocol.toDiscipline { r with owes := some (.id id) } _
    (fromExcept (Frame.request kindStreamOpen code id zeroNonce deadlineMs payload) >>=
      fun frame => _).run
  rw [hframe]
  refine Neutral.liftThen (neutral_enqueueFrame frame) fun result => ?_
  cases result with
  | error error =>
    refine ⟨trivial, fun _ => ⟨?_, fun _ h => h, fun _ h => List.mem_append_right _ h, hloop⟩⟩
    exact if_pos rfl
  | ok _ => exact ⟨trivial, fun _ => ⟨rfl, fun _ => hfree⟩⟩

variable {n : Name}

theorem only_loops (hn : looping n = true) (next : Option Name) (h : GoesOnWith n next) :
    ∀ m ∈ next, looping m = true := by
  intro m hm
  rw [h m hm]
  exact hn

theorem returns_loops (n : Name) :
    Returns (fun next : Option Name => ∀ m ∈ next, looping m = true) (code n) := by
  cases n with
  | reader => exact returns_readerLoop.mono (only_loops rfl)
  | writer => exact returns_writerLoop.mono (only_loops rfl)
  | keepalive => exact returns_keepaliveLoop.mono (only_loops rfl)
  | begin kind code requestNonce deadlineMs payload =>
    exact (returns_handOver .reader _).mono (only_loops rfl)
  | beginStream code payload deadlineMs => exact (returns_handOver .reader _).mono (only_loops rfl)
  | _ => exact (returns_toplevel .reader _).mono (only_loops rfl)

theorem dutiful_of_calm {loop : Bool} (hcalm : Calm loop _ (code n)) {r : Upkeep}
    (howes : r.owes = none) (hloop : r.loop = loop) : Dutiful r (code n) :=
  ((hcalm r howes hloop).and_returns (returns_loops n)).mono fun _ _ h => ⟨h.1.owes, h.2⟩

theorem calm_loop (loop : Bool) (hn : looping n = true) : Calm loop _ (code n) := by
  cases n with
  | reader => exact (calm_calls loop).readerLoop (calm_reading loop) (calm_fail loop)
  | writer => exact (calm_calls loop).writerLoop (calm_writing loop) (calm_fail loop)
  | keepalive => exact (calm_calls loop).keepaliveLoop (calm_fail loop)
  | _ => cases hn

def fits : Name → Bool
  | .beginStream _ payload _ => payload.length ≤ maxPlainPayload
  | _ => true

theorem calm_code (hfits : fits n = true) : Calm false _ (code n) := by
  have hK := calm_calls false
  cases n with
  | writer => exact calm_loop false rfl
  | begin kind code requestNonce deadlineMs payload =>
    exact hK.handOver (calm_begin kind code requestNonce deadlineMs payload)
  | request kind code requestNonce deadlineMs payload =>
    exact hK.toplevel (hK.request calm_handles (calm_begin kind code requestNonce deadlineMs payload))
  | beginStream code payload deadlineMs =>
    exact hK.handOver (calm_beginStream code deadlineMs (of_decide_eq_true hfits))
  | _ =>
    exact hK.code calm_handles (calm_reading false) (calm_fail false) calm_close nofun rfl
      fun _ _ _ _ _ _ _ => trivial

theorem dutiful_cancelRequest (id : ℕ) :
    Dutiful (start (.cancelRequest id)) (code (.cancelRequest id)) := by
  have hwrite : Neutral protocol.toDiscipline (ignore (writeNew kindCancel 0 id [])) :=
    (neutral_writeNew _ _ _ _).bind fun _ => Neutral.ret _
  refine ⟨trivial, fun _ => hwrite.andThen fun _ => ?_⟩
  exact ⟨if_pos rfl, nofun⟩

theorem dutiful_abortStream (id : ℕ) :
    Dutiful (start (.abortStream id)) (code (.abortStream id)) := by
  have hwrite : Neutral protocol.toDiscipline (ignore (writeNew kindStreamAbort 499 id [])) :=
    (neutral_writeNew _ _ _ _).bind fun _ => Neutral.ret _
  have habort : Verified protocol.toDiscipline (start (.abortStream id)) (fun r _ => r.owes = none)
      (abortStream id) := hwrite.andThen fun _ => ⟨trivial, fun _ => if_pos rfl⟩
  exact habort.bind fun _ _ howes => ⟨howes, nofun⟩

theorem dutiful_start (hfits : fits n = true) : Dutiful (start n) (code n) := by
  cases n with
  | cancelRequest id => exact dutiful_cancelRequest id
  | abortStream id => exact dutiful_abortStream id
  | _ => exact dutiful_of_calm (calm_code hfits) rfl rfl

theorem dutiful_resumed {r : Upkeep} (h : Dutiful r (.ret (some n))) : Dutiful r (code n) := by
  obtain ⟨howes, hloops⟩ := h
  exact dutiful_of_calm (calm_loop r.loop (hloops n rfl)) howes rfl

end Mst5Client.PendingDuties
