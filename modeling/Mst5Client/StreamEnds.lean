import Mst5Client.StreamOrder

set_option autoImplicit false

/-!
# Nothing follows a stream's end

The control queue is drained first.
-/
namespace Mst5Client.StreamEnds
open IoResult MachineRuns TaskPrograms TaskTraces ConnectionState ConnectionCalls ConnectionEffects
open ConnectionHistory WriterHistory

def feeds (id : ℕ) (frame : Frame) : Bool := frame.id = id ∧ frame.kind = kindStreamData

def ends (id : ℕ) (frame : Frame) : Bool :=
  frame.id = id ∧ frame.kind ∈ [kindStreamEnd, kindStreamAbort, kindCancel]

def commandFeeds (id : ℕ) : WriterCommand → Bool
  | .frame frame _ _ => feeds id frame
  | .close _ => false

def endQueued (id : ℕ) (log : Log) : Bool := (made log).any fun x => x.2.any (ends id)

def inOrder (c : Connection) (log : Log) : Entry Op Ans Name → Bool
  | .performed _ (.sendWriter frame) (.sent _) =>
    !(feeds frame.id frame && endQueued frame.id log) &&
      !(ends frame.id frame && c.media.any (commandFeeds frame.id))
  | _ => true

def Follows (earlier : List Frame) (frame : Frame) : Prop :=
  ∀ id, feeds id frame = true → ∀ g ∈ earlier, ends id g = false

structure Orderly (c : Connection) (log : Log) (hand : Option Hand) : Prop where
  control : ∀ command ∈ c.control, ∀ id, commandFeeds id command = false
  media : ∀ id, endQueued id log = true → ∀ command ∈ c.media, commandFeeds id command = false
  hand : ∀ command, hand = some (.holding command) → ∀ id, commandFeeds id command = true →
    ∀ g ∈ c.wire, ends id g = false
  wire : Causal Follows c.wire

variable {c c' : Connection} {log log' : Log} {hand hand' : Option Hand}
variable {command : WriterCommand}

theorem data_never_ends {frame : Frame} (h : frame.kind = kindStreamData) (id : ℕ) :
    ends id frame = false := by
  refine decide_eq_false ?_
  rintro ⟨-, hkind⟩
  rw [h] at hkind
  exact absurd hkind (by decide)

theorem wire_endQueued (h : Consistent c log hand) {id : ℕ} {g : Frame} (hg : g ∈ c.wire)
    (hends : ends id g = true) : endQueued id log = true := by
  rw [h.wire] at hg
  obtain ⟨x, hx, rfl⟩ := List.mem_map.mp hg
  exact List.any_eq_true.mpr ⟨_, onWire_made h.causal hx, hends⟩

theorem Orderly.keep (h : Orderly c log hand) (hcontrol : c'.control = c.control)
    (hmedia : c'.media = c.media) (hwire : c'.wire = c.wire) (hmade : made log' = made log)
    (hhand : ∀ command, hand' = some (.holding command) → hand = hand') :
    Orderly c' log' hand' := by
  refine ⟨?_, ?_, ?_, ?_⟩
  · rw [hcontrol]
    exact h.control
  · rw [hmedia]
    simp only [endQueued, hmade]
    exact h.media
  · rw [hwire]
    exact fun command hholding => h.hand command ((hhand command hholding).trans hholding)
  · rw [hwire]
    exact h.wire

theorem Orderly.same (h : Orderly c log hand) (hqueues : Part.queues.Same c c')
    (hwire : Part.wire.Same c c') (hmade : made log' = made log) : Orderly c' log' hand := by
  obtain ⟨hcontrol, hmedia, -⟩ := queues_same hqueues
  exact h.keep hcontrol hmedia hwire hmade fun _ _ => rfl

theorem Orderly.push (h : Orderly c log hand) {media : Bool}
    (henqueued : Enqueued c c' command media) (hwire : Part.wire.Same c c')
    (hmade : made log' = made log ++ [tag command])
    (hcontrol : media = false → ∀ id, commandFeeds id command = false)
    (hmedia : media = true → ∀ id, endQueued id log = true → commandFeeds id command = false)
    (hend : ∀ id, (tag command).2.any (ends id) = true → ∀ other ∈ c'.media,
      commandFeeds id other = false) : Orderly c' log' hand := by
  have hwire : c'.wire = c.wire := hwire
  refine ⟨?_, ?_, ?_, ?_⟩
  · rw [henqueued.control]
    intro other hother
    cases media with
    | true => exact h.control other hother
    | false =>
      obtain hother | hother := List.mem_append.mp hother
      · exact h.control other hother
      · rw [List.mem_singleton.mp hother]
        exact hcontrol rfl
  · intro id hid other hother
    rw [endQueued, hmade, List.any_append, Bool.or_eq_true] at hid
    obtain hold | hnew := hid
    · rw [henqueued.media] at hother
      cases media with
      | true =>
        obtain hother | hother := List.mem_append.mp hother
        · exact h.media id hold other hother
        · rw [List.mem_singleton.mp hother]
          exact hmedia rfl id hold
      | false => exact h.media id hold other hother
    · rw [List.any_cons, List.any_nil, Bool.or_false] at hnew
      exact hend id hnew other hother
  · rw [hwire]
    exact h.hand
  · rw [hwire]
    exact h.wire

theorem Orderly.enqueue (h : Orderly c log hand) {frame : Frame} {complete budget i : ℕ}
    (henqueued : Enqueued c c' (.frame frame complete budget) (frame.kind = kindStreamData))
    (hwire : Part.wire.Same c c') (hmade : made log' = made log ++ [(complete, some frame)])
    (hguard : inOrder c log (.performed i (.sendWriter frame) (.sent complete)) = true) :
    Orderly c' log' hand := by
  simp only [inOrder, Bool.and_eq_true, Bool.not_eq_true', Bool.and_eq_false_iff] at hguard
  obtain ⟨hdata, hending⟩ := hguard
  refine h.push henqueued hwire hmade ?_ ?_ ?_
  · intro hkind id
    refine decide_eq_false ?_
    rintro ⟨-, hdata⟩
    exact absurd hdata (of_decide_eq_false hkind)
  · intro hkind id hqueued
    refine Bool.eq_false_iff.mpr fun hfeeds => ?_
    obtain ⟨rfl, hkind⟩ := of_decide_eq_true hfeeds
    obtain hnot | hnot := hdata
    · exact absurd hfeeds (Bool.eq_false_iff.mp hnot)
    · exact absurd hqueued (Bool.eq_false_iff.mp hnot)
  · intro id hends other hother
    have hends : ends id frame = true := hends
    have hkind : ¬ frame.kind = kindStreamData := by
      intro hkind
      rw [data_never_ends hkind] at hends
      cases hends
    obtain ⟨rfl, -⟩ := of_decide_eq_true hends
    rw [henqueued.media, decide_eq_false hkind] at hother
    obtain hnot | hnone := hending
    · exact absurd hends (Bool.eq_false_iff.mp hnot)
    · exact Bool.eq_false_iff.mpr (List.any_eq_false.mp hnone other hother)

theorem Orderly.take (h : Orderly c log hand) (hconsistent : Consistent c log hand)
    (hqueues : (c.control = command :: c'.control ∧ c'.media = c.media) ∨
      (c.control = [] ∧ c'.control = [] ∧ c.media = command :: c'.media))
    (hwire : Part.wire.Same c c') (hmade : made log' = made log) :
    Orderly c' log' (some (.holding command)) := by
  have hwire : c'.wire = c.wire := hwire
  obtain ⟨hcontrol, hmedia⟩ | ⟨-, hcontrol, hmedia⟩ := hqueues
  · refine ⟨?_, ?_, ?_, ?_⟩
    · intro other hother
      exact h.control other (hcontrol ▸ List.mem_cons_of_mem _ hother)
    · simp only [endQueued, hmade]
      rw [hmedia]
      exact h.media
    · rintro _ ⟨⟩ id hfeeds
      rw [h.control command (hcontrol ▸ List.mem_cons_self) id] at hfeeds
      cases hfeeds
    · rw [hwire]
      exact h.wire
  · refine ⟨?_, ?_, ?_, ?_⟩
    · rw [hcontrol]
      exact fun _ => nofun
    · simp only [endQueued, hmade]
      intro id hid other hother
      exact h.media id hid other (hmedia ▸ List.mem_cons_of_mem _ hother)
    · rintro _ ⟨⟩ id hfeeds g hg
      -- the end of the stream has not been queued, so it cannot have been written
      refine Bool.eq_false_iff.mpr fun hends => ?_
      rw [hwire] at hg
      have hqueued := wire_endQueued hconsistent hg hends
      rw [h.media id hqueued command (hmedia ▸ List.mem_cons_self)] at hfeeds
      cases hfeeds
    · rw [hwire]
      exact h.wire

theorem Orderly.write {result : Except IoError Unit} (h : Orderly c log (some (.holding command)))
    (hqueues : Part.queues.Same c c')
    (hwire : c'.wire = c.wire ++ ((delivered command result).map Prod.snd).toList)
    (hmade : made log' = made log) : Orderly c' log' (some (.wrote command result)) := by
  obtain ⟨hcontrol, hmedia, -⟩ := queues_same hqueues
  refine ⟨?_, ?_, fun _ => nofun, ?_⟩
  · rw [hcontrol]
    exact h.control
  · rw [hmedia]
    simp only [endQueued, hmade]
    exact h.media
  · rw [hwire]
    cases hdelivered : delivered command result with
    | none =>
      rw [Option.map_none, Option.toList_none, List.append_nil]
      exact h.wire
    | some x =>
      refine h.wire.concat fun id hfeeds => h.hand command rfl id ?_
      cases command with
      | frame frame complete budget =>
        cases result with
        | ok _ =>
          cases hdelivered
          exact hfeeds
        | error _ => cases hdelivered
      | close complete => cases hdelivered

variable {rs : ℕ → Option Hand} {i : ℕ}

structure Both (c : Connection) (log : Log) (rs : ℕ → Option Hand) : Prop where
  invariant : Invariant c log rs
  orderly : Orderly c log (rs 1)

theorem made_quiet {entry : Entry Op Ans Name} (h : madeBy entry = none) :
    made (log ++ [entry]) = made log := by
  rw [made_concat, h, Option.toList_none, List.append_nil]

theorem orderly_perform (h : Both c log rs) {l : Locals} {op : Op} {choice : Choice}
    {e : Performed (Ans op)} (hpre : pre (rs i) op) (he : perform c l op choice = some e)
    (hguard : inOrder c log (.performed i op e.answer) = true) :
    Orderly e.shared (log ++ [.performed i op e.answer])
      (Function.update rs i (post (rs i) op e.answer) 1) := by
  have hframe := (perform_frames choice e he).same
  have hkept : ∀ {c' : Connection} {log' : Log}, Orderly c' log' (rs 1) →
      Orderly c' log' (Function.update rs i (rs i) 1) := by
    intro c' log' h
    rw [Function.update_eq_self]
    exact h
  cases op with
  | sendWriter frame =>
    refine hkept ?_
    obtain ⟨budget, hanswer, henqueued⟩ | ⟨hanswer, hqueues⟩ := sendWriter_effect he
    · rw [show e.answer = .sent c.completions.length from hanswer] at hguard ⊢
      exact h.orderly.enqueue henqueued (hframe .wire rfl) (made_concat log _) hguard
    · refine h.orderly.same hqueues (hframe .wire rfl) (made_quiet ?_)
      obtain hanswer | hanswer := hanswer
      · rw [show e.answer = Sent.timedOut from hanswer]
        rfl
      · rw [show e.answer = Sent.closed from hanswer]
        rfl
  | sendClose =>
    refine hkept ?_
    obtain ⟨hanswer, henqueued⟩ | ⟨hanswer, hqueues⟩ := sendClose_effect he
    · rw [show e.answer = .sent c.completions.length from hanswer]
      exact h.orderly.push henqueued (hframe .wire rfl) (made_concat log _) (fun _ _ => rfl) nofun
        (fun _ => nofun)
    · refine h.orderly.same hqueues (hframe .wire rfl) (made_quiet ?_)
      rw [show e.answer = Sent.closed from hanswer]
      rfl
  | recvWriter =>
    obtain rfl := h.invariant.writer_eq hpre
    obtain ⟨hanswer, hqueues⟩ | ⟨command, hanswer, -, hqueues⟩ := recvWriter_effect he
    · rw [show e.answer = (none : Option WriterCommand) from hanswer]
      exact hkept (h.orderly.same hqueues (hframe .wire rfl) (made_quiet rfl))
    · rw [show e.answer = some command from hanswer, Function.update_self]
      exact h.orderly.take h.invariant.consistent hqueues (hframe .wire rfl) (made_quiet rfl)
  | write command =>
    obtain rfl := h.invariant.writer_eq hpre
    have horderly := h.orderly
    rw [show rs 1 = some (.holding command) from hpre] at horderly
    rw [Function.update_self]
    exact horderly.write (hframe .queues rfl) (write_effect he) (made_quiet rfl)
  | complete command result =>
    obtain rfl := h.invariant.writer_eq hpre
    obtain ⟨-, hcontrol, hmedia⟩ := complete_effect he
    rw [Function.update_self]
    exact h.orderly.keep hcontrol hmedia (hframe .wire rfl) (made_quiet rfl) fun _ => nofun
  | _ => exact hkept (h.orderly.same (hframe .queues rfl) (hframe .wire rfl) (made_quiet rfl))

theorem maintains_orderly :
    Maintains system protocol (fun c log entry => inOrder c log entry = true) Both where
  code := verified_code
  perform := fun _ _ _ _ _ _ choice e h hpre he hguard =>
    ⟨⟨invariant_perform h.invariant hpre he, orderly_perform h hpre he hguard⟩,
      fun n hn => ready_aftermath ((perform_frames choice e he).spawned n hn) _⟩
  discard := fun c _ _ l h =>
    ⟨⟨invariant_discard h.invariant l,
      h.orderly.same (discard_same c l .queues) (discard_same c l .wire) rfl⟩,
      fun n hn => ready_aftermath (discard_aftermath c l n hn) _⟩
  started := by
    intro c log rs i n h hidle
    refine ⟨invariant_started h.invariant hidle n, ?_⟩
    have hrs : Function.update rs i (protocol.start n) = rs := by
      rw [show protocol.start n = rs i from hidle.symm, Function.update_eq_self]
    rw [hrs]
    exact h.orderly.same rfl rfl (made_quiet rfl)
  dropped := fun _ _ _ _ h _ =>
    ⟨invariant_dropped h.invariant _, h.orderly.same rfl rfl (made_quiet rfl)⟩
  external := maintains_invariant.external

theorem accounted_both (now : ℕ) : Accounted protocol Both (Traced.begin (initial now)) := by
  obtain ⟨hverified, hfresh, hinvariant⟩ := accounted_initial now
  exact ⟨hverified, hfresh, hinvariant, nofun, fun _ => nofun, fun _ => nofun, causal_nil⟩

/-- If data of a stream is queued only before its end is, and the end only while no data of the stream
waits, then no data is written after an end. -/
theorem nothing_follows_end {now : ℕ} {labels : Schedule} {t : Run} (hrun : Reaches now labels t)
    (hmeets : Allows (traced system) (Meets system fun c log entry => inOrder c log entry = true)
      (Traced.begin (initial now)) labels) :
    ∀ earlier frame later, t.pool.shared.wire = earlier ++ frame :: later →
      frame.kind = kindStreamData →
      ∀ g ∈ earlier, g.kind ∈ [kindStreamEnd, kindStreamAbort, kindCancel] → g.id ≠ frame.id := by
  intro earlier frame later hwire hkind g hg hends hid
  have horderly := (maintains_orderly.run (accounted_both now) hmeets hrun).invariant.orderly
  have hnot := horderly.wire earlier frame later hwire frame.id (decide_eq_true ⟨rfl, hkind⟩) g hg
  exact absurd ⟨hid, hends⟩ (of_decide_eq_false hnot)

theorem nothing_follows_end_sample : ∃ t, Reaches 0 StreamOrder.uploadLabels t ∧
    t.pool.shared.wire.map Frame.kind = [14, 3, 15, 16] ∧
    ∀ earlier frame later, t.pool.shared.wire = earlier ++ frame :: later →
      frame.kind = kindStreamData →
      ∀ g ∈ earlier, g.kind ∈ [kindStreamEnd, kindStreamAbort, kindCancel] → g.id ≠ frame.id := by
  have hfacts : ((runFrom (traced system) (Traced.begin (initial 0)) StreamOrder.uploadLabels).map
      fun t : Run => t.pool.shared.wire.map Frame.kind) = some [14, 3, 15, 16] := by decide +kernel
  obtain ⟨t, hrun, hwire⟩ := Option.map_eq_some_iff.mp hfacts
  exact ⟨t, hrun, hwire, nothing_follows_end hrun (by decide +kernel)⟩

/-- An upload is dropped while its chunk waits in the media queue: the task of `send` is gone, the
handle is dropped with it and cancels the request. -/
def droppedUpload : Schedule :=
  .start StreamOrder.openCall :: beginOne 3 ++ writeOne ++
    List.replicate 3 (.step 3 .proceed) ++ .start StreamOrder.dataCall :: List.replicate 4
      (.step 4 .proceed) ++
    .drop 4 :: .start (.dropHandle 0) :: .step 5 .proceed :: List.replicate 4 (.step 6 .proceed) ++
    writeOne ++ writeOne

theorem data_follows_cancel : ∃ t, Reaches 0 droppedUpload t ∧
    t.pool.shared.wire.map (fun frame => (frame.kind, frame.id)) =
      [(kindStreamOpen, 1), (kindCancel, 1), (kindStreamData, 1)] := by
  have hfacts : ((runFrom (traced system) (Traced.begin (initial 0)) droppedUpload).map fun t : Run =>
      t.pool.shared.wire.map fun frame => (frame.kind, frame.id)) =
        some [(kindStreamOpen, 1), (kindCancel, 1), (kindStreamData, 1)] := by decide +kernel
  obtain ⟨t, hrun, hwire⟩ := Option.map_eq_some_iff.mp hfacts
  exact ⟨t, hrun, hwire⟩

end Mst5Client.StreamEnds
