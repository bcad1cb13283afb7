import Mst5Client.WriterHistory

set_option autoImplicit false

/-!
# A stream's frames reach the wire in order

A caller that awaits each call before it makes the next one divides the history into stretches, one
for each call.
-/
namespace Mst5Client.StreamOrder
open ByteOrder IoResult MachineRuns TaskPrograms TaskTraces ConnectionState ConnectionCalls
  ConnectionEffects
open ConnectionHistory WriterHistory

abbrev Did := List (Event Op Ans)

def frameOf (id : ℕ) : Name → Except IoError Frame
  | .begin kind code requestNonce deadlineMs payload =>
    Frame.request kind code id requestNonce deadlineMs payload
  | .beginStream code payload deadlineMs =>
    Frame.request kindStreamOpen code id zeroNonce deadlineMs payload
  | .send _ kind code payload => Frame.new kind code id payload
  | .streamSend _ payload => Frame.new kindStreamData 0 id payload
  | .streamClose _ => Frame.new kindStreamEnd 200 id []
  | _ => .error (invalidInput "not a frame of a stream")

def closesIt : Did → Bool
  | ⟨.swapActive _, wasActive⟩ :: _ => wasActive
  | _ => false

def returnedOk (handle : ℕ) (did : Did) : Name → Bool
  | .begin kind code requestNonce deadlineMs payload =>
    result (begin kind code requestNonce deadlineMs payload).run did = some (.ok handle)
  | .beginStream code payload deadlineMs =>
    result (beginStream code payload deadlineMs).run did = some (.ok handle)
  | .send h kind code payload => h = handle ∧ result (send h kind code payload).run did = some (.ok ())
  | .streamSend h payload => h = handle ∧ result (streamSend h payload).run did = some (.ok ())
  | .streamClose h => h = handle ∧ closesIt did = true ∧ result (streamClose h).run did = some (.ok ())
  | _ => false

def queuedBy : Event Op Ans → Option (ℕ × Frame)
  | ⟨.sendWriter frame, .sent complete⟩ => some (complete, frame)
  | _ => none

def queued (did : Did) : List (ℕ × Frame) := did.filterMap queuedBy

/-- A part of a history, and a call that is made in it. -/
structure Stretch where
  log : Log
  task : ℕ
  call : Name

/-- The call of the stretch was made for the handle and has returned `Ok` in it. -/
def Stretch.Done (handle : ℕ) (s : Stretch) : Prop :=
  startedAs s.task s.log = some s.call ∧ returnedOk handle (own s.task s.log) s.call = true

instance (handle : ℕ) (s : Stretch) : Decidable (s.Done handle) := inferInstanceAs (Decidable (_ ∧ _))

def logs (stretches : List Stretch) : Log := (stretches.map Stretch.log).flatten

def sends (stretches : List Stretch) : List (ℕ × Frame) :=
  stretches.flatMap fun s => queued (own s.task s.log)

section Results
variable {did : Did}
variable {β : Type} {f : Unit → Attempt β} {x : β} {frame : Frame}

theorem ensure_ok {b : Bool} {e : IoError} (h : result (ensure b e >>= f).run did = some (.ok x)) :
    b = true ∧ result (f ()).run did = some (.ok x) := by
  cases b with
  | true => exact ⟨rfl, h⟩
  | false => cases (result_ret h).2

theorem fromExcept_ok {α : Type} {x : Except IoError α} {f : α → Attempt β} {y : β}
    (h : result (fromExcept x >>= f).run did = some (.ok y)) :
    ∃ a, x = .ok a ∧ result (f a).run did = some (.ok y) := by
  cases x with
  | ok a => exact ⟨a, rfl, h⟩
  | error e => cases (result_ret h).2

theorem stageTimeout_ok {deadlineMs : ℕ}
    (h : result (stageTimeout deadlineMs >>= f).run did = some (.ok x)) :
    ∃ rest, did = ⟨.stageTimeout deadlineMs, .ok ()⟩ :: rest ∧
      result (f ()).run rest = some (.ok x) := by
  obtain ⟨_, did₁, did₂, rfl, hop, hrest⟩ := result_tryBind h
  obtain rfl := result_perform hop
  exact ⟨did₂, rfl, hrest⟩

theorem outcome_ok {α : Type} {p : Attempt α} {f : Except IoError α → Attempt β}
    (h : result (outcome p >>= f).run did = some (.ok x)) :
    ∃ a did₁ did₂, did = did₁ ++ did₂ ∧ result p.run did₁ = some a ∧
      result (f a).run did₂ = some (.ok x) := by
  obtain ⟨a, did₁, did₂, hdid, hp, hrest⟩ := result_tryBind h
  exact ⟨a, did₁, did₂, hdid, result_lift hp, hrest⟩

/-- A frame has been queued, and its completion has been seen. -/
structure Acknowledged (did : Did) (frame : Frame) (complete : ℕ) : Prop where
  only : queued did = [(complete, frame)]
  seen : ⟨.awaitComplete complete true, .done (.ok ())⟩ ∈ did

theorem Acknowledged.within {complete : ℕ} (h : Acknowledged did frame complete)
    (before after : Did) (hbefore : queued before = []) (hafter : queued after = []) :
    Acknowledged (before ++ did ++ after) frame complete where
  only := by
    rw [queued, List.filterMap_append, List.filterMap_append]
    change queued before ++ queued did ++ queued after = _
    rw [hbefore, hafter, h.only]
    rfl
  seen := List.mem_append_left _ (List.mem_append_right _ h.seen)

theorem Acknowledged.after {complete : ℕ} (h : Acknowledged did frame complete) (before : Did)
    (hbefore : queued before = []) : Acknowledged (before ++ did) frame complete := by
  have hwithin := h.within before [] hbefore rfl
  rwa [List.append_nil] at hwithin

theorem enqueueFrame_ok (h : result (enqueueFrame frame).run did = some (.ok ())) :
    ∃ complete, Acknowledged did frame complete := by
  obtain ⟨granted, rest, rfl, hgranted⟩ := result_performThen h
  obtain ⟨-, hsend⟩ := ensure_ok hgranted
  obtain ⟨sent, rest, rfl, hsent⟩ := result_performThen hsend
  cases sent with
  | timedOut => cases (result_ret hsent).2
  | closed => cases (result_ret hsent).2
  | sent complete =>
    obtain ⟨completion, rest, rfl, hdone⟩ := result_performThen hsent
    cases completion with
    | timedOut => cases (result_ret hdone).2
    | dropped => cases (result_ret hdone).2
    | done result =>
      obtain ⟨rfl, rfl⟩ := result_ret hdone
      exact ⟨complete, rfl, by simp⟩

theorem writeControl_ok (h : result (writeControl frame).run did = some (.ok ())) :
    ∃ complete, Acknowledged did frame complete := by
  obtain ⟨closed, rest, rfl, hclosed⟩ := result_performThen h
  obtain ⟨-, henqueue⟩ := ensure_ok hclosed
  obtain ⟨complete, hacknowledged⟩ := enqueueFrame_ok henqueue
  exact ⟨complete, hacknowledged.after [⟨.loadClosed, closed⟩] rfl⟩

theorem writeNew_ok {kind : UInt8} {code id : ℕ} {payload : Bytes}
    (h : result (writeNew kind code id payload).run did = some (.ok ())) :
    ∃ frame complete, Frame.new kind code id payload = .ok frame ∧ Acknowledged did frame complete := by
  obtain ⟨frame, hframe, hwrite⟩ := fromExcept_ok h
  obtain ⟨complete, hacknowledged⟩ := writeControl_ok hwrite
  exact ⟨frame, complete, hframe, hacknowledged⟩

end Results

/-- What a call on a handle of a connection with these handles has done when it returns `Ok`. -/
def HasSent (ids : List ℕ) (handle : ℕ) (call : Name) (did : Did) : Prop :=
  ∃ id frame complete, HasId ids handle id ∧ frameOf id call = .ok frame ∧
    Acknowledged did frame complete

variable {ids : List ℕ} {did : Did}
variable {handle code : ℕ} {payload : Bytes} {deadlineMs : ℕ}

theorem send_sent {kind : UInt8} (htruth : ∀ e ∈ did, Says ids e.op e.answer)
    (h : result (send handle kind code payload).run did = some (.ok ())) :
    HasSent ids handle (.send handle kind code payload) did := by
  obtain ⟨id, rest, rfl, hrest⟩ := result_performThen h
  obtain ⟨frame, complete, hframe, hacknowledged⟩ := writeNew_ok hrest
  exact ⟨id, frame, complete, htruth ⟨.handleId handle, id⟩ List.mem_cons_self, hframe,
    hacknowledged.after [⟨.handleId handle, id⟩] rfl⟩

theorem streamSend_sent (htruth : ∀ e ∈ did, Says ids e.op e.answer)
    (h : result (streamSend handle payload).run did = some (.ok ())) :
    HasSent ids handle (.streamSend handle payload) did := by
  obtain ⟨active, rest, rfl, hactive⟩ := result_performThen h
  obtain ⟨-, hid⟩ := ensure_ok hactive
  obtain ⟨id, rest, rfl, hrest⟩ := result_performThen hid
  obtain ⟨frame, complete, hframe, hacknowledged⟩ := writeNew_ok hrest
  refine ⟨id, frame, complete, htruth ⟨.handleId handle, id⟩ (by simp), hframe, ?_⟩
  exact hacknowledged.after [⟨.isActive handle, active⟩, ⟨.handleId handle, id⟩] rfl

theorem streamClose_sent (htruth : ∀ e ∈ did, Says ids e.op e.answer)
    (hcloses : closesIt did = true) (h : result (streamClose handle).run did = some (.ok ())) :
    HasSent ids handle (.streamClose handle) did := by
  obtain ⟨active, rest, rfl, hactive⟩ := result_performThen h
  obtain rfl : active = true := hcloses
  obtain ⟨id, rest, rfl, hid⟩ := result_performThen hactive
  obtain ⟨frame, hframe, hwrite⟩ := fromExcept_ok hid
  obtain ⟨outcome, did₁, did₂, rfl, houtcome, hremove⟩ := outcome_ok hwrite
  obtain ⟨_, rest, rfl, hreturn⟩ := result_performThen hremove
  obtain ⟨rfl, rfl⟩ := result_ret hreturn
  obtain ⟨complete, hacknowledged⟩ := writeControl_ok houtcome
  refine ⟨id, frame, complete, htruth ⟨.handleId handle, id⟩ (by simp), hframe, ?_⟩
  exact hacknowledged.within [⟨.swapActive handle, true⟩, ⟨.handleId handle, id⟩] _ rfl rfl

theorem reserve_quiet {slotMessage writerMessage : String} {x : ℕ × ℕ}
    (h : result (reserve deadlineMs slotMessage writerMessage).run did = some (.ok x)) :
    queued did = [] := by
  obtain ⟨rest, rfl, h₁⟩ := stageTimeout_ok h
  obtain ⟨granted, rest, rfl, h₂⟩ := result_performThen h₁
  obtain ⟨-, h₃⟩ := ensure_ok h₂
  obtain ⟨closed, rest, rfl, h₄⟩ := result_performThen h₃
  obtain ⟨-, h₅⟩ := ensure_ok h₄
  obtain ⟨channel, rest, rfl, h₆⟩ := result_performThen h₅
  obtain ⟨rest, rfl, h₇⟩ := stageTimeout_ok h₆
  obtain ⟨locked, rest, rfl, h₈⟩ := result_performThen h₇
  obtain ⟨-, h₉⟩ := ensure_ok h₈
  obtain ⟨closed', rest, rfl, h₁₀⟩ := result_performThen h₉
  obtain ⟨-, h₁₁⟩ := ensure_ok h₁₀
  obtain ⟨id, rest, rfl, h₁₂⟩ := result_performThen h₁₁
  cases id with
  | none => cases (result_ret h₁₂).2
  | some id =>
    obtain ⟨rfl, -⟩ := result_ret h₁₂
    rfl

theorem queued_after_reserve {slotMessage writerMessage : String} {x : ℕ × ℕ} {rest : Did}
    (hrest : queued rest = [])
    (h : result (reserve deadlineMs slotMessage writerMessage).run did = some (.ok x)) :
    queued (did ++ rest) = [] := by
  rw [queued, List.filterMap_append]
  exact List.append_eq_nil_iff.mpr ⟨reserve_quiet h, hrest⟩

theorem begin_sent {kind : UInt8} {requestNonce : Block 16}
    (htruth : ∀ e ∈ did, Says ids e.op e.answer)
    (h : result (begin kind code requestNonce deadlineMs payload).run did = some (.ok handle)) :
    HasSent ids handle (.begin kind code requestNonce deadlineMs payload) did := by
  obtain ⟨⟨id, channel⟩, reserved, rest, rfl, hreserve, hregister⟩ := result_tryBind h
  obtain ⟨frame, hframe, hinsert⟩ := fromExcept_ok hregister
  obtain ⟨inserted, rest, rfl, hhandle⟩ := result_performThen hinsert
  obtain ⟨made, rest, rfl, hstage⟩ := result_performThen hhandle
  obtain ⟨rest, rfl, henqueue⟩ := stageTimeout_ok hstage
  obtain ⟨outcome, did₁, did₂, rfl, houtcome, hend⟩ := outcome_ok henqueue
  cases outcome with
  | error error =>
    obtain ⟨_, did₃, did₄, -, -, hfail⟩ := result_tryBind hend
    obtain ⟨_, did₅, did₆, -, -, hthrow⟩ := result_tryBind hfail
    cases (result_ret hthrow).2
  | ok _ =>
    obtain ⟨unlocked, rest, rfl, hreturn⟩ := result_performThen hend
    obtain ⟨rfl, hmade⟩ := result_ret hreturn
    cases hmade
    obtain ⟨complete, hacknowledged⟩ := enqueueFrame_ok houtcome
    refine ⟨id, frame, complete, htruth ⟨.newHandle false id channel, handle⟩ (by simp), hframe, ?_⟩
    have hwithin := hacknowledged.within (reserved ++ [⟨.insertPending id channel, inserted⟩,
      ⟨.newHandle false id channel, handle⟩, ⟨.stageTimeout deadlineMs, .ok ()⟩])
      [⟨.unlockOrder, unlocked⟩] ?_ rfl
    · simpa only [List.append_assoc, List.cons_append, List.nil_append] using hwithin
    · exact queued_after_reserve rfl hreserve

theorem beginStream_sent (htruth : ∀ e ∈ did, Says ids e.op e.answer)
    (h : result (beginStream code payload deadlineMs).run did = some (.ok handle)) :
    HasSent ids handle (.beginStream code payload deadlineMs) did := by
  obtain ⟨⟨id, channel⟩, reserved, rest, rfl, hreserve, hregister⟩ := result_tryBind h
  obtain ⟨inserted, rest, rfl, hinsert⟩ := result_performThen hregister
  obtain ⟨frame, hframe, henqueue⟩ := fromExcept_ok hinsert
  obtain ⟨outcome, did₁, did₂, rfl, houtcome, hend⟩ := outcome_ok henqueue
  cases outcome with
  | error error =>
    obtain ⟨_, rest, rfl, hthrow⟩ := result_performThen hend
    cases (result_ret hthrow).2
  | ok _ =>
    obtain ⟨unlocked, rest, rfl, hhandle⟩ := result_performThen hend
    obtain rfl := result_perform (result_lift hhandle)
    obtain ⟨complete, hacknowledged⟩ := enqueueFrame_ok houtcome
    refine ⟨id, frame, complete, htruth ⟨.newHandle true id channel, handle⟩ (by simp), hframe, ?_⟩
    have hwithin := hacknowledged.within (reserved ++ [⟨.insertPending id channel, inserted⟩])
      [⟨.unlockOrder, unlocked⟩, ⟨.newHandle true id channel, handle⟩] ?_ rfl
    · simpa only [List.append_assoc, List.cons_append, List.nil_append] using hwithin
    · exact queued_after_reserve rfl hreserve

theorem sent_of_returnedOk {call : Name} (htruth : ∀ e ∈ did, Says ids e.op e.answer)
    (h : returnedOk handle did call = true) : HasSent ids handle call did := by
  cases call with
  | begin kind code requestNonce deadlineMs payload => exact begin_sent htruth (of_decide_eq_true h)
  | beginStream code payload deadlineMs => exact beginStream_sent htruth (of_decide_eq_true h)
  | send other kind code payload =>
    obtain ⟨rfl, hresult⟩ := of_decide_eq_true h
    exact send_sent htruth hresult
  | streamSend other payload =>
    obtain ⟨rfl, hresult⟩ := of_decide_eq_true h
    exact streamSend_sent htruth hresult
  | streamClose other =>
    obtain ⟨rfl, hcloses, hresult⟩ := of_decide_eq_true h
    exact streamClose_sent htruth hcloses hresult
  | _ => cases h

variable {before : Log} {stretches : List Stretch}

theorem made_of_queued {i : ℕ} {log : Log} {x : ℕ × Frame} (h : x ∈ queued (own i log)) :
    (x.1, some x.2) ∈ made log := by
  obtain ⟨⟨op, answer⟩, hevent, hqueued⟩ := List.mem_filterMap.mp h
  cases op with
  | sendWriter frame =>
    cases answer with
    | sent complete =>
      cases hqueued
      exact List.mem_filterMap.mpr ⟨_, mem_own hevent, rfl⟩
    | _ => cases hqueued
  | _ => cases hqueued

theorem written_within {log : Log} {i complete : ℕ} {frame : Frame}
    (hcausal : Causal Precedes (before ++ log))
    (hnodup : ((made (before ++ log)).map Prod.fst).Nodup)
    (h : Acknowledged (own i log) frame complete) : (complete, frame) ∈ onWire log := by
  have hmade : (complete, some frame) ∈ made log := by
    refine made_of_queued (i := i) (x := (complete, frame)) ?_
    rw [h.only]
    exact List.mem_singleton_self _
  have hwritten : (complete, frame) ∈ onWire (before ++ log) := by
    refine onWire_of_seen hcausal hnodup ?_ (List.mem_append_right _ (mem_own h.seen))
    rw [made_append]
    exact List.mem_append_right _ hmade
  rw [onWire_append] at hwritten
  refine (List.mem_append.mp hwritten).resolve_left fun hearlier => ?_
  -- it would have been queued before the call
  rw [made_append, List.map_append] at hnodup
  exact List.disjoint_of_nodup_append hnodup
    (List.mem_map_of_mem (f := Prod.fst) (onWire_made hcausal.of_append hearlier))
    (List.mem_map_of_mem (f := Prod.fst) hmade)

theorem sends_sublist (before : Log) (hcausal : Causal Precedes (before ++ logs stretches))
    (hnodup : ((made (before ++ logs stretches)).map Prod.fst).Nodup)
    (h : ∀ s ∈ stretches, ∃ frame complete, Acknowledged (own s.task s.log) frame complete) :
    (sends stretches).Sublist (onWire (logs stretches)) := by
  induction stretches generalizing before with
  | nil => exact List.Sublist.slnil
  | cons s stretches ih =>
    have hsplit : before ++ logs (s :: stretches) = before ++ s.log ++ logs stretches := by
      rw [logs, List.map_cons, List.flatten_cons, List.append_assoc]
      rfl
    rw [hsplit] at hcausal hnodup
    obtain ⟨frame, complete, hacknowledged⟩ := h s List.mem_cons_self
    have hfirst : ((made (before ++ s.log)).map Prod.fst).Nodup := by
      rw [made_append, List.map_append] at hnodup
      exact (List.nodup_append.mp hnodup).1
    have hhead := written_within hcausal.of_append hfirst hacknowledged
    have hrest := ih _ hcausal hnodup fun s hs => h s (List.mem_cons_of_mem _ hs)
    rw [sends, List.flatMap_cons, hacknowledged.only, logs, List.map_cons, List.flatten_cons,
      onWire_append]
    exact (List.singleton_sublist.mpr hhead).append hrest

theorem frames_of_sends {ids : List ℕ} {handle : ℕ}
    (h : ∀ s ∈ stretches, HasSent ids handle s.call (own s.task s.log)) :
    ∃ id, stretches.map (fun s => frameOf id s.call) = (sends stretches).map fun x => .ok x.2 := by
  refine ⟨ids[handle]?.getD 0, ?_⟩
  induction stretches with
  | nil => rfl
  | cons s stretches ih =>
    obtain ⟨id, frame, complete, hid, hframe, hacknowledged⟩ := h s List.mem_cons_self
    have hrest := ih fun s hs => h s (List.mem_cons_of_mem _ hs)
    rw [sends, List.flatMap_cons, hacknowledged.only, List.map_cons, List.map_append]
    rw [sends] at hrest
    rw [hrest, show ids[handle]? = some id from hid, Option.getD_some, hframe]
    rfl

/-- In a run in which calls on one handle are made one after the other and each returns `Ok` before the
next one starts, each puts one frame on the wire, once, and in the order of the calls. -/
theorem stream_frames_in_order {now : ℕ} {labels : Schedule} {t : Run} (hrun : Reaches now labels t)
    {handle : ℕ} {stretches : List Stretch} {rest : Log} (hlog : t.history = logs stretches ++ rest)
    (hdone : ∀ s ∈ stretches, s.Done handle) :
    (∃ id, stretches.map (fun s => frameOf id s.call) = (sends stretches).map fun x => .ok x.2) ∧
      (sends stretches).Sublist (onWire t.history) ∧ ((onWire t.history).map Prod.fst).Nodup ∧
      t.pool.shared.wire = (onWire t.history).map Prod.snd := by
  have hconsistent := (invariant_run hrun).consistent
  have hsent : ∀ s ∈ stretches, HasSent (handleIds t.pool.shared) handle s.call
      (own s.task s.log) := by
    intro s hs
    refine sent_of_returnedOk (fun e he => ?_) (hdone s hs).2
    refine truthful_run hrun s.task e.op e.answer ?_
    rw [hlog]
    exact List.mem_append_left _ (List.mem_flatten.mpr ⟨s.log, List.mem_map_of_mem hs, mem_own he⟩)
  refine ⟨?_, ?_, hconsistent.onWire_nodup, hconsistent.wire⟩
  · exact frames_of_sends hsent
  · have hcausal := hconsistent.causal
    have hnodup := hconsistent.made_nodup
    rw [hlog] at hcausal hnodup ⊢
    rw [made_append, List.map_append] at hnodup
    rw [onWire_append]
    refine (sends_sublist [] hcausal.of_append (List.nodup_append.mp hnodup).1 ?_).trans
      (List.sublist_append_left _ _)
    intro s hs
    obtain ⟨_, frame, complete, -, -, hacknowledged⟩ := hsent s hs
    exact ⟨frame, complete, hacknowledged⟩

def openCall : Name := .begin kindStreamOpen 1 zeroNonce 0 []
def dataCall : Name := .send 0 kindStreamData 0 [7]
def endCall : Name := .send 0 kindStreamEnd 200 []

def uploadLabels : Schedule :=
  .start openCall :: beginOne 3 ++ writeOne ++ List.replicate 2 (.step 3 .proceed) ++
    .start dataCall :: List.replicate 4 (.step 4 .proceed) ++ .start (.begin 3 2 zeroNonce 0 []) ::
      beginOne 5 ++
    writeOne ++ writeOne ++ .step 4 .proceed ::
    .start endCall :: List.replicate 4 (.step 6 .proceed) ++ writeOne ++ [.step 6 .proceed]

def uploadStretches (log : Log) : List Stretch :=
  [⟨log.take 20, 3, openCall⟩, ⟨(log.drop 20).take 28, 4, dataCall⟩,
    ⟨(log.drop 20).drop 28, 6, endCall⟩]

theorem uploadStretches_logs (log : Log) : log = logs (uploadStretches log) ++ [] := by
  simp only [uploadStretches, logs, List.map_cons, List.map_nil, List.flatten_cons, List.flatten_nil,
    List.append_nil, List.take_append_drop]

theorem stream_frames_in_order_sample : ∃ t, Reaches 0 uploadLabels t ∧
    (∀ s ∈ uploadStretches t.history, s.Done 0) ∧ t.pool.shared.wire.map Frame.kind = [14, 3, 15, 16] ∧
    (sends (uploadStretches t.history)).Sublist (onWire t.history) := by
  have hfacts : ((runFrom (traced system) (Traced.begin (initial 0)) uploadLabels).map fun t : Run =>
      (decide (∀ s ∈ uploadStretches t.history, s.Done 0), t.pool.shared.wire.map Frame.kind)) =
        some (true, [14, 3, 15, 16]) := by decide +kernel
  obtain ⟨t, hrun, hfacts⟩ := Option.map_eq_some_iff.mp hfacts
  obtain ⟨hdone, hwire⟩ := Prod.mk.inj hfacts
  have hdone := of_decide_eq_true hdone
  exact ⟨t, hrun, hdone, hwire, (stream_frames_in_order hrun (uploadStretches_logs _) hdone).2.1⟩

end Mst5Client.StreamOrder
