import Mst5Client.AccountClient
import Mst5Client.ConnectionPrograms

set_option autoImplicit false

/-!
# Who may open a request

A frame that opens a request is queued only by the task that allocated its id, while that task has
the order lock.
-/
namespace Mst5Client.OrderDiscipline
open ByteOrder IoResult TaskPrograms ConnectionState ConnectionCalls ConnectionPrograms
open AccountClient (kindCommand kindQuery)

def opens (frame : Frame) : Bool :=
  frame.kind ∈ [kindAuth, kindCommand, kindQuery, kindStreamOpen] ∨ frame.kind = kindPing ∧ frame.id ≠ 0

def openingKinds : List UInt8 := [kindAuth, kindCommand, kindQuery, kindStreamOpen, kindPing]

/-- What a task has of the order: nothing, the lock, or the lock and an id it has not used yet. -/
inductive Turn where
  | none
  | locked
  | numbered (id : ℕ)

def pre (r : Turn) : Op → Prop
  | .unlockOrder | .allocateId => r ≠ .none
  | .sendWriter frame => opens frame = true → r = .numbered frame.id
  | _ => True

def post (r : Turn) : (op : Op) → Ans op → Turn
  | .lockOrder, true => .locked
  | .unlockOrder, _ => .none
  | .allocateId, some id => .numbered id
  | .sendWriter frame, .sent _ => if opens frame then .locked else r
  | _, _ => r

def admitted : Name → Prop
  | .send _ kind _ _ => kind ∉ openingKinds
  | _ => True

def discipline : Discipline Op Ans Name Turn where
  pre
  post
  idle := .none
  ready := fun n r => r = .none ∧ admitted n

theorem opens_eq_false {frame : Frame} (h : frame.kind ∉ openingKinds) : opens frame = false := by
  simp only [openingKinds, List.mem_cons, List.not_mem_nil, or_false, not_or] at h
  simp [opens, h]

theorem opens_routine (frame : Frame)
    (h : frame.kind ∈ routineKinds ∨ frame.kind = kindPing ∧ frame.id = 0) :
    opens frame = false := by
  obtain hkind | ⟨hkind, hid⟩ := h
  · refine opens_eq_false fun hopening => ?_
    have hdisjoint : ∀ kind ∈ routineKinds, kind ∉ openingKinds := by decide +kernel
    exact hdisjoint _ hkind hopening
  · have hping : kindPing ∉ [kindAuth, kindCommand, kindQuery, kindStreamOpen] := by decide
    simp [opens, hkind, hid, hping]

def unordered : Op → Bool
  | .lockOrder | .unlockOrder | .allocateId | .sendWriter _ => false
  | _ => true

theorem neutral_op (op : Op) (h : unordered op = true) :
    Neutral discipline (Prog.perform op : Call (Ans op)) := by
  refine Neutral.perform (fun r => ?_) (fun r a => ?_)
  · cases op <;> trivial
  · cases op <;> first | rfl | cases h

theorem neutral_area {a : Area} (h : a ≠ .calls) (h' : a ≠ .registering) :
    CoversArea (fun _ p => Neutral discipline p) a := by
  rintro op rfl
  refine neutral_op op ?_
  cases op <;> first | rfl | exact absurd rfl h | exact absurd rfl h'

theorem neutral_calls : CoversFrames (fun _ p => Neutral discipline p) fun frame =>
    opens frame = false where
  toCompositional := neutral_compositional discipline
  calls := by
    intro op hop
    refine neutral_op op ?_
    cases op <;> first | rfl | cases hop
  frames := by
    intro frame hframe
    refine Neutral.perform (fun r hopens => ?_) (fun r sent => ?_)
    · rw [hframe] at hopens
      cases hopens
    · cases sent with
      | sent complete => exact if_neg (by rw [hframe]; exact Bool.false_ne_true)
      | timedOut => rfl
      | closed => rfl
  routine := opens_routine

theorem neutral_fail : CoversFail fun _ p => Neutral discipline p :=
  neutral_calls.quiet.fail (neutral_area nofun nofun)

theorem request_ok {kind : UInt8} {code id : ℕ} {requestNonce : Block 16} {deadlineMs : ℕ}
    {payload : Bytes} {frame : Frame}
    (h : Frame.request kind code id requestNonce deadlineMs payload = .ok frame) :
    frame.id = id := by
  unfold Frame.request at h
  cases hnew : Frame.new kind code id payload with
  | error e =>
    rw [hnew] at h
    cases h
  | ok made =>
    rw [hnew] at h
    cases h
    exact (new_ok hnew).2

theorem verified_fromExcept {α β : Type} {x : Except IoError α} {f : α → Attempt β} {r : Turn}
    {Q : Turn → Except IoError β → Prop} (hok : ∀ a, x = .ok a → Verified discipline r Q (f a).run)
    (herror : ∀ e, Q r (.error e)) : Verified discipline r Q (fromExcept x >>= f).run := by
  cases x with
  | ok a => exact hok a rfl
  | error e => exact herror e

theorem verified_enqueueFrame {frame : Frame} {id : ℕ} (hid : frame.id = id) :
    Verified discipline (.numbered id) (fun r _ => r ≠ .none) (enqueueFrame frame).run := by
  subst hid
  refine Neutral.andTry (neutral_calls.quiet.liftOp (.acquireBudget _) rfl) (fun granted => ?_)
    (fun _ => nofun)
  refine Neutral.andTry (neutral_calls.quiet.ensure _ _) (fun _ => ?_) (fun _ => nofun)
  refine ⟨fun _ => rfl, fun sent => ?_⟩
  cases sent with
  | timedOut => exact nofun
  | closed => exact nofun
  | sent complete =>
    refine ⟨trivial, fun completion => ?_⟩
    have hkept : (if opens frame then Turn.locked else .numbered frame.id) ≠ .none := by
      split_ifs <;> nofun
    cases completion with
    | timedOut => exact hkept
    | dropped => exact hkept
    | done result => exact hkept

theorem verified_begin (kind : UInt8) (code : ℕ) (requestNonce : Block 16) (deadlineMs : ℕ)
    (payload : Bytes) :
    Verified discipline .none (fun r x => ∀ handle, x = .ok handle → r = .none)
      (begin kind code requestNonce deadlineMs payload).run := by
  refine verified_afterReserve neutral_calls.quiet (fun _ _ _ => nofun) trivial fun channel =>
    ⟨trivial, nofun, fun id => ?_⟩
  refine verified_fromExcept (fun frame hframe => ?_) (fun _ _ => nofun)
  refine Neutral.liftThen (neutral_op (.insertPending id channel) rfl) fun _ => ?_
  refine Neutral.liftThen (neutral_op (.newHandle false id channel) rfl) fun handle => ?_
  refine Neutral.andTry (neutral_calls.quiet.stageTimeout _) (fun _ => ?_) (fun _ _ => nofun)
  refine (verified_enqueueFrame (request_ok hframe)).liftThen ?_
  intro r result hr
  cases result with
  | error error =>
    refine Neutral.liftThen (neutral_calls.remove handle) fun _ => ?_
    exact Neutral.liftThen (neutral_fail _) fun _ _ => nofun
  | ok _ => exact ⟨hr, fun _ handle _ => rfl⟩

theorem verified_beginStream (code : ℕ) (payload : Bytes) (deadlineMs : ℕ) :
    Verified discipline .none (fun r x => ∀ handle, x = .ok handle → r = .none)
      (beginStream code payload deadlineMs).run := by
  refine verified_afterReserve neutral_calls.quiet (fun _ _ _ => nofun) trivial fun channel =>
    ⟨trivial, nofun, fun id => ?_⟩
  refine Neutral.liftThen (neutral_op (.insertPending id channel) rfl) fun _ => ?_
  refine verified_fromExcept (fun frame hframe => ?_) (fun _ _ => nofun)
  refine (verified_enqueueFrame (request_ok hframe)).liftThen ?_
  intro r result hr
  cases result with
  | error error => exact Neutral.liftThen (neutral_op (.removePending id) rfl) fun _ _ => nofun
  | ok _ => exact ⟨hr, fun _ => ⟨trivial, fun _ _ _ => rfl⟩⟩

theorem verified_stop (r : Turn) : Obeys discipline r (pure none : Call (Option Name)) :=
  fun m hm => by cases hm

theorem verified_handOver {x : Attempt ℕ}
    (h : Verified discipline .none (fun r x => ∀ handle, x = .ok handle → r = .none) x.run) :
    Obeys discipline .none (handOver x) := by
  refine h.bind ?_
  intro r result _
  cases result with
  | ok handle => exact Neutral.andThen (neutral_op .giveHandle rfl) fun _ => verified_stop r
  | error e => exact verified_stop r

theorem verified_request (kind : UInt8) (code : ℕ) (requestNonce : Block 16) (deadlineMs : ℕ)
    (payload : Bytes) :
    Verified discipline .none (fun _ _ => True)
    (request kind code requestNonce deadlineMs payload).run := by
  refine (verified_begin kind code requestNonce deadlineMs payload).tryBind ?_ (fun _ _ _ => trivial)
  intro r handle _
  refine Neutral.andTry (neutral_calls.quiet.stageTimeout _) (fun _ => ?_) (fun _ => trivial)
  refine Neutral.liftThen (neutral_calls.recv handle) fun result => ?_
  cases result with
  | ok a => exact trivial
  | error error => exact Neutral.liftThen (neutral_calls.handles.settle handle error) fun _ => trivial

theorem neutral_code {n : Name} (hopening : Name.opening n = false) (hn : admitted n) :
    Neutral discipline (code n) := by
  by_cases hwriter : n = .writer
  · subst hwriter
    exact neutral_calls.quiet.writerLoop (neutral_area nofun nofun) neutral_fail
  · refine neutral_calls.quiet.code neutral_calls.handles (neutral_area nofun nofun) neutral_fail
      (neutral_calls.quiet.close (neutral_area nofun nofun)) hwriter hopening ?_
    rintro handle kind code payload rfl frame rfl
    exact opens_eq_false hn

theorem verified_code (n : Name) (r : Turn) (h : discipline.ready n r) :
    Obeys discipline r (code n) := by
  obtain ⟨rfl, hn⟩ := h
  cases hopening : Name.opening n with
  | false =>
    refine ((neutral_code hopening hn .none).and_returns (returns_code n)).mono ?_
    rintro _ next ⟨rfl, hnext⟩ m hm
    rw [hnext m hm]
    exact ⟨rfl, hn⟩
  | true =>
    cases n with
    | begin kind code requestNonce deadlineMs payload =>
      exact verified_handOver (verified_begin kind code requestNonce deadlineMs payload)
    | request kind code requestNonce deadlineMs payload =>
      exact (verified_request kind code requestNonce deadlineMs payload).bind fun r _ _ =>
        verified_stop r
    | beginStream code payload deadlineMs =>
      exact verified_handOver (verified_beginStream code payload deadlineMs)
    | _ => cases hopening

end Mst5Client.OrderDiscipline
