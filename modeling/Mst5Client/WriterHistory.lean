import Mst5Client.ConnectionHistory
import Mst5Client.ConnectionPrograms
import Mathlib.Data.List.Range

set_option autoImplicit false

/-!
# The writer's commands through a run

Every command put into a queue has a number of its own.
-/
namespace Mst5Client.WriterHistory
open IoResult TaskPrograms TaskTraces ConnectionState ConnectionCalls ConnectionPrograms
open ConnectionEffects ConnectionHistory
open scoped List

def tag : WriterCommand → ℕ × Option Frame
  | .frame frame complete _ => (complete, some frame)
  | .close complete => (complete, none)

theorem tag_fst (command : WriterCommand) : (tag command).1 = WriterCommand.number command := by
  cases command <;> rfl

def madeBy : Entry Op Ans Name → Option (ℕ × Option Frame)
  | .performed _ (.sendWriter frame) (.sent complete) => some (complete, some frame)
  | .performed _ .sendClose (.sent complete) => some (complete, none)
  | _ => none

def writtenBy : Entry Op Ans Name → Option (WriterCommand × Except IoError Unit)
  | .performed _ (.write command) result => some (command, result)
  | _ => none

def made (log : Log) : List (ℕ × Option Frame) := log.filterMap madeBy

def writes (log : Log) : List (WriterCommand × Except IoError Unit) := log.filterMap writtenBy

def onWire (log : Log) : List (ℕ × Frame) := (writes log).filterMap fun w => delivered w.1 w.2

theorem made_concat (log : Log) (entry : Entry Op Ans Name) :
    made (log ++ [entry]) = made log ++ (madeBy entry).toList := by
  rw [made, List.filterMap_append]
  cases h : madeBy entry <;> simp [made, h]

theorem writes_concat (log : Log) (entry : Entry Op Ans Name) :
    writes (log ++ [entry]) = writes log ++ (writtenBy entry).toList := by
  rw [writes, List.filterMap_append]
  cases h : writtenBy entry <;> simp [writes, h]

theorem onWire_append (log log' : Log) : onWire (log ++ log') = onWire log ++ onWire log' := by
  simp only [onWire, writes, List.filterMap_append]

theorem made_append (log log' : Log) : made (log ++ log') = made log ++ made log' :=
  List.filterMap_append

theorem delivered_tag {command : WriterCommand} {result : Except IoError Unit} {x : ℕ × Frame}
    (h : delivered command result = some x) : tag command = (x.1, some x.2) := by
  cases command with
  | frame frame complete budget =>
    cases result with
    | ok _ =>
      cases h
      rfl
    | error _ => cases h
  | close complete => cases h

theorem writes_append (log log' : Log) : writes (log ++ log') = writes log ++ writes log' :=
  List.filterMap_append

def Precedes (log : Log) : Entry Op Ans Name → Prop
  | .performed _ (.write command) _ => tag command ∈ made log
  | .performed _ (.awaitComplete complete _) (.done (.ok ())) =>
    ∃ command, (command, .ok ()) ∈ writes log ∧ WriterCommand.number command = complete
  | _ => True

theorem writes_made {log : Log} (hcausal : Causal Precedes log) {command : WriterCommand}
    {result : Except IoError Unit} (h : (command, result) ∈ writes log) :
    tag command ∈ made log := by
  obtain ⟨entry, hentry, hwritten⟩ := List.mem_filterMap.mp h
  obtain ⟨log₁, log₂, rfl⟩ := List.append_of_mem hentry
  have hprecedes := hcausal log₁ entry log₂ rfl
  cases entry with
  | started i n => cases hwritten
  | dropped i => cases hwritten
  | performed i op answer =>
    cases op with
    | write _ =>
      cases hwritten
      rw [made_append]
      exact List.mem_append_left _ hprecedes
    | _ => cases hwritten

/-- What the writer has, between two of its operations. -/
inductive Hand where
  | empty
  | holding (command : WriterCommand)
  | wrote (command : WriterCommand) (result : Except IoError Unit)

def Hand.commands : Option Hand → List WriterCommand
  | some (.holding command) => [command]
  | _ => []

@[simp] theorem commands_empty : Hand.commands (some .empty) = [] := rfl

@[simp] theorem commands_holding (command : WriterCommand) :
    Hand.commands (some (.holding command)) = [command] :=
  rfl

@[simp] theorem commands_wrote (command : WriterCommand) (result : Except IoError Unit) :
    Hand.commands (some (.wrote command result)) = [] := rfl

def pre (r : Option Hand) : Op → Prop
  | .recvWriter => r = some .empty
  | .write command => r = some (.holding command)
  | .complete command result => r = some (.wrote command result)
  | _ => True

def post (r : Option Hand) : (op : Op) → Ans op → Option Hand
  | .recvWriter, some command => some (.holding command)
  | .write command, result => some (.wrote command result)
  | .complete _ _, _ => some .empty
  | _, _ => r

/-- Task `1` is the only writer. -/
def protocol : Protocol Op Ans Name (Option Hand) where
  pre
  post
  idle := none
  ready := fun n r => n = .writer → r = some .empty
  start := fun _ => none
  first := fun i => if i = 1 then some .empty else none

theorem covers_area {a : Area} (ha : a ≠ .writing) :
    CoversArea (fun _ p => Uses (fun op => area op ≠ .writing) p) a := by
  rintro op rfl
  exact Uses.perform ha

theorem covers : Covers fun _ (p : Call _) => Uses (fun op => area op ≠ .writing) p :=
  ⟨uses_compositional _, covers_area nofun⟩

theorem uses_code {n : Name} (hn : n ≠ .writer) : Uses (fun op => area op ≠ .writing) (code n) :=
  covers.code (covers_area nofun) (covers_area nofun) (covers.calling.quiet.fail (covers_area nofun))
    (covers.calling.quiet.close (covers_area nofun)) hn

theorem plain_of_area {op : Op} (h : area op ≠ .writing) (r : Option Hand) :
    pre r op ∧ ∀ a, post r op a = r := by
  cases op <;> first | exact ⟨trivial, fun _ => rfl⟩ | exact absurd rfl h

theorem verified_plain {α : Type} {p : Call α} (h : Uses (fun op => area op ≠ .writing) p)
    (r : Option Hand) : Verified protocol.toDiscipline r (fun r' _ => r' = r) p := by
  refine h.verified (I := fun r' => r' = r) ?_ rfl
  rintro _ op rfl hop
  exact plain_of_area hop _

theorem uses_failWeak (message : String) : Uses (fun op => area op ≠ .writing) (failWeak message) :=
  covers.calling.quiet.failWeak (covers.calling.quiet.fail (covers_area nofun)) message

theorem verified_writerLoop : Obeys protocol.toDiscipline (some .empty) writerLoop := by
  have hstop : ∀ r : Option Hand, Obeys protocol.toDiscipline r (pure none : Call (Option Name)) :=
        fun r m hm => by cases hm
  refine ⟨rfl, fun command => ?_⟩
  cases command with
  | none => exact ⟨trivial, fun _ => hstop _⟩
  | some command =>
    refine ⟨rfl, fun result => ⟨rfl, fun _ => ?_⟩⟩
    cases result with
    | ok _ =>
      refine ⟨trivial, fun _ => ?_⟩
      rintro _ ⟨⟩ _
      rfl
    | error error =>
      refine (verified_plain (uses_failWeak _) _).bind ?_
      rintro _ _ rfl
      exact ⟨trivial, fun _ => ⟨trivial, fun _ => hstop _⟩⟩

theorem verified_code (n : Name) (r : Option Hand) (h : protocol.ready n r) :
    Obeys protocol.toDiscipline r (code n) := by
  by_cases hn : n = .writer
  · subst hn
    rw [h rfl]
    exact verified_writerLoop
  · refine ((verified_plain (uses_code hn) r).and_returns (returns_code n)).mono ?_
    rintro _ next ⟨rfl, hnext⟩ m hm hwriter
    exact absurd ((hnext m hm).symm.trans hwriter) hn

variable {c c' : Connection} {log : Log} {hand : Option Hand} {entry : Entry Op Ans Name}
variable {command : WriterCommand} {result : Except IoError Unit}

def line (c : Connection) (log : Log) (hand : Option Hand) : List WriterCommand :=
  c.control ++ c.media ++ Hand.commands hand ++ (writes log).map Prod.fst

structure Consistent (c : Connection) (log : Log) (hand : Option Hand) : Prop where
  numbers : (made log).map Prod.fst = List.range c.completions.length
  nodup : ((line c log hand).map WriterCommand.number).Nodup
  tagged : ∀ command ∈ line c log hand, tag command ∈ made log
  completed : ∀ k result, c.completions[k]? = some (some result) →
    ∃ command, (command, result) ∈ writes log ∧ WriterCommand.number command = k
  wrote : ∀ command result, hand = some (.wrote command result) → (command, result) ∈ writes log
  wire : c.wire = (onWire log).map Prod.snd
  causal : Causal Precedes log

theorem Consistent.number_lt (h : Consistent c log hand) (hcommand : command ∈ line c log hand) :
    WriterCommand.number command < c.completions.length := by
  have hmem := List.mem_map_of_mem (f := Prod.fst) (h.tagged command hcommand)
  rw [h.numbers, List.mem_range, tag_fst] at hmem
  exact hmem

theorem onWire_concat (log : Log) (entry : Entry Op Ans Name) (h : writtenBy entry = none) :
    onWire (log ++ [entry]) = onWire log := by
  rw [onWire, writes_concat, h, Option.toList_none, List.append_nil]
  rfl

theorem Consistent.move (h : Consistent c log hand) {hand' : Option Hand}
    (hline : line c' log hand' ~ line c log hand)
    (hlength : c'.completions.length = c.completions.length)
    (hcompleted : ∀ k result, c'.completions[k]? = some (some result) →
      ∃ command, (command, result) ∈ writes log ∧ WriterCommand.number command = k)
    (hwrote : ∀ command result, hand' = some (.wrote command result) → (command, result) ∈ writes log)
    (hwire : c'.wire = c.wire) : Consistent c' log hand' where
  numbers := by
    rw [hlength]
    exact h.numbers
  nodup := (hline.map _).nodup_iff.mpr h.nodup
  tagged := fun command hcommand => h.tagged command (hline.mem_iff.mp hcommand)
  completed := hcompleted
  wrote := hwrote
  wire := hwire.trans h.wire
  causal := h.causal

theorem Consistent.same (h : Consistent c log hand) (hqueues : Part.queues.Same c c')
    (hwire : Part.wire.Same c c') : Consistent c' log hand := by
  obtain ⟨hcontrol, hmedia, hcompletions⟩ := queues_same hqueues
  refine h.move ?_ ?_ ?_ h.wrote hwire
  · rw [line, hcontrol, hmedia]
    rfl
  · rw [hcompletions]
  · rw [hcompletions]
    exact h.completed

theorem Consistent.note (h : Consistent c log hand) (hmade : madeBy entry = none)
    (hwritten : writtenBy entry = none) (hprecedes : Precedes log entry) :
    Consistent c (log ++ [entry]) hand := by
  have hmade : made (log ++ [entry]) = made log := by
    rw [made_concat, hmade, Option.toList_none, List.append_nil]
  have hwrites : writes (log ++ [entry]) = writes log := by
    rw [writes_concat, hwritten, Option.toList_none, List.append_nil]
  have hline : line c (log ++ [entry]) hand = line c log hand := by
    rw [line, hwrites]
    rfl
  refine ⟨?_, ?_, ?_, ?_, ?_, ?_, h.causal.concat hprecedes⟩
  · rw [hmade]
    exact h.numbers
  · rw [hline]
    exact h.nodup
  · rw [hline, hmade]
    exact h.tagged
  · rw [hwrites]
    exact h.completed
  · rw [hwrites]
    exact h.wrote
  · rw [onWire_concat log entry hwritten]
    exact h.wire

theorem perm_insert {α : Type} (l₁ l₂ l₃ : List α) (x : α) :
    l₁ ++ [x] ++ l₂ ++ l₃ ~ x :: (l₁ ++ l₂ ++ l₃) := by
  rw [List.append_assoc, List.append_assoc, List.append_assoc]
  exact List.perm_middle

theorem Consistent.enqueue (h : Consistent c log hand) {media : Bool}
    (henqueued : Enqueued c c' command media) (hwire : Part.wire.Same c c')
    (hmade : madeBy entry = some (tag command)) (hwritten : writtenBy entry = none)
    (hprecedes : Precedes log entry) : Consistent c' (log ++ [entry]) hand := by
  have hmade : made (log ++ [entry]) = made log ++ [tag command] := by
    rw [made_concat, hmade]
    rfl
  have hwrites : writes (log ++ [entry]) = writes log := by
    rw [writes_concat, hwritten, Option.toList_none, List.append_nil]
  have hline : line c' (log ++ [entry]) hand ~ command :: line c log hand := by
    rw [line, hwrites, henqueued.control, henqueued.media, line]
    cases media with
    | true =>
      simp only [if_true]
      rw [← List.append_assoc c.control c.media [command]]
      exact perm_insert _ _ _ _
    | false =>
      simp only [Bool.false_eq_true, if_false]
      rw [List.append_assoc c.control c.media (Hand.commands hand),
        List.append_assoc (c.control ++ [command])]
      exact perm_insert _ _ _ _
  refine ⟨?_, ?_, ?_, ?_, ?_, ?_, h.causal.concat hprecedes⟩
  · rw [hmade, List.map_append, h.numbers, henqueued.completions, List.length_append,
      List.length_singleton, List.range_succ, List.map_singleton, tag_fst, henqueued.number]
  · refine (hline.map _).nodup_iff.mpr (List.nodup_cons.mpr ⟨?_, h.nodup⟩)
    intro hmem
    obtain ⟨other, hother, hnumber⟩ := List.mem_map.mp hmem
    have hlt := h.number_lt hother
    rw [hnumber, henqueued.number] at hlt
    exact absurd hlt (Nat.lt_irrefl _)
  · intro other hother
    rw [hmade]
    obtain rfl | hother := List.mem_cons.mp (hline.mem_iff.mp hother)
    · exact List.mem_append_right _ (List.mem_singleton_self _)
    · exact List.mem_append_left _ (h.tagged other hother)
  · intro k result hk
    rw [hwrites]
    rw [henqueued.completions] at hk
    refine h.completed k result ?_
    by_cases hlt : k < c.completions.length
    · rwa [List.getElem?_append_left hlt] at hk
    · rw [List.getElem?_append_right (Nat.le_of_not_lt hlt)] at hk
      have hnone := List.mem_of_getElem? hk
      cases List.mem_singleton.mp hnone
  · rw [hwrites]
    exact h.wrote
  · rw [onWire_concat log entry hwritten]
    exact hwire.trans h.wire

theorem Consistent.take (h : Consistent c log (some .empty))
    (hqueues : c.control ++ c.media ~ command :: (c'.control ++ c'.media))
    (hcompletions : c'.completions = c.completions) (hwire : Part.wire.Same c c') :
    Consistent c' log (some (.holding command)) := by
  refine h.move ?_ (by rw [hcompletions]) ?_ ?_ hwire
  · have htaken : c'.control ++ c'.media ++ [command] ~ c.control ++ c.media :=
      List.perm_append_comm.trans hqueues.symm
    exact (htaken.append_right _).trans (by rw [line, commands_empty, List.append_nil])
  · rw [hcompletions]
    exact h.completed
  · intro _ _ hwrote
    cases hwrote

theorem Consistent.complete (h : Consistent c log (some (.wrote command result)))
    (hcompletions : c'.completions = c.completions.set (WriterCommand.number command) (some result))
    (hcontrol : c'.control = c.control) (hmedia : c'.media = c.media) (hwire : Part.wire.Same c c') :
    Consistent c' log (some .empty) := by
  refine h.move ?_ ?_ ?_ ?_ hwire
  · rw [line, hcontrol, hmedia]
    rfl
  · rw [hcompletions, List.length_set]
  · intro k result' hk
    rw [hcompletions, List.getElem?_set] at hk
    split_ifs at hk with heq
    · cases hk
      exact ⟨command, h.wrote command result rfl, heq⟩
    · exact h.completed k result' hk
  · intro _ _ hwrote
    cases hwrote

theorem Consistent.write {i : ℕ} (h : Consistent c log (some (.holding command)))
    (hqueues : Part.queues.Same c c')
    (hwire : c'.wire = c.wire ++ ((delivered command result).map Prod.snd).toList) :
    Consistent c' (log ++ [.performed i (.write command) result]) (some (.wrote command result)) := by
  obtain ⟨hcontrol, hmedia, hcompletions⟩ := queues_same hqueues
  have hmade : made (log ++ [.performed i (.write command) result]) = made log := by
    rw [made_concat]
    exact List.append_nil _
  have hwrites : writes (log ++ [.performed i (.write command) result]) = writes log ++
    [(command, result)] :=
    writes_concat log _
  have hline : line c' (log ++ [.performed i (.write command) result]) (some (.wrote command result)) ~
      line c log (some (.holding command)) := by
    rw [line, line, hcontrol, hmedia, hwrites, List.map_append, commands_wrote, commands_holding,
      List.append_nil, List.append_assoc (c.control ++ c.media)]
    exact List.perm_append_comm.append_left _
  have hhand : command ∈ line c log (some (.holding command)) :=
    List.mem_append_left _ (List.mem_append_right _ (List.mem_singleton_self _))
  refine ⟨?_, ?_, ?_, ?_, ?_, ?_, h.causal.concat (h.tagged command hhand)⟩
  · rw [hmade, hcompletions]
    exact h.numbers
  · exact (hline.map _).nodup_iff.mpr h.nodup
  · intro other hother
    rw [hmade]
    exact h.tagged other (hline.mem_iff.mp hother)
  · intro k result' hk
    rw [hcompletions] at hk
    obtain ⟨other, hother, hnumber⟩ := h.completed k result' hk
    rw [hwrites]
    exact ⟨other, List.mem_append_left _ hother, hnumber⟩
  · rintro _ _ ⟨⟩
    rw [hwrites]
    exact List.mem_append_right _ (List.mem_singleton_self _)
  · rw [hwire, h.wire, onWire, onWire, hwrites, List.filterMap_append, List.map_append]
    cases hdelivered : delivered command result <;> simp [hdelivered]

theorem Consistent.made_nodup (h : Consistent c log hand) : ((made log).map Prod.fst).Nodup := by
  rw [h.numbers]
  exact List.nodup_range

theorem onWire_numbers (log : Log) :
    ((onWire log).map Prod.fst).Sublist ((writes log).map fun w => WriterCommand.number w.1) := by
  rw [onWire]
  induction writes log with
  | nil => exact List.Sublist.slnil
  | cons w ws ih =>
    rw [List.filterMap_cons, List.map_cons]
    split
    · exact ih.cons _
    · rename_i x hx
      rw [List.map_cons, ← tag_fst, delivered_tag hx]
      exact ih.cons_cons _

theorem Consistent.onWire_nodup (h : Consistent c log hand) :
    ((onWire log).map Prod.fst).Nodup := by
  have hnodup := h.nodup
  rw [line, List.map_append, List.map_map] at hnodup
  exact (List.nodup_append.mp hnodup).2.1.sublist (onWire_numbers log)

theorem onWire_made (hcausal : Causal Precedes log) {x : ℕ × Frame} (hx : x ∈ onWire log) :
    (x.1, some x.2) ∈ made log := by
  obtain ⟨⟨command, result⟩, hwrite, hdelivered⟩ := List.mem_filterMap.mp hx
  rw [← delivered_tag hdelivered]
  exact writes_made hcausal hwrite

theorem onWire_of_seen (hcausal : Causal Precedes log) (hnodup : ((made log).map Prod.fst).Nodup)
    {i complete : ℕ} {timed : Bool} {frame : Frame} (hmade : (complete, some frame) ∈ made log)
    (hseen : .performed i (.awaitComplete complete timed) (.done (.ok ())) ∈ log) :
    (complete, frame) ∈ onWire log := by
  obtain ⟨log₁, log₂, hlog⟩ := List.append_of_mem hseen
  obtain ⟨command, hwrite, hnumber⟩ := hcausal log₁ _ log₂ hlog
  have hwrite : (command, .ok ()) ∈ writes log := by
    rw [hlog, writes_append]
    exact List.mem_append_left _ hwrite
  have htag : tag command = (complete, some frame) :=
    List.inj_on_of_nodup_map hnodup (writes_made hcausal hwrite) hmade ((tag_fst command).trans hnumber)
  cases command with
  | close _ => cases htag
  | frame _ _ budget =>
    cases htag
    exact List.mem_filterMap.mpr ⟨_, hwrite, rfl⟩

variable {rs : ℕ → Option Hand} {i : ℕ}

structure Invariant (c : Connection) (log : Log) (rs : ℕ → Option Hand) : Prop where
  consistent : Consistent c log (rs 1)
  others : ∀ i ≠ 1, rs i = none

theorem Invariant.writer_eq (h : Invariant c log rs) {hand : Hand} (hr : rs i = some hand) :
    i = 1 := by
  by_contra hi
  rw [h.others i hi] at hr
  cases hr

theorem Invariant.kept (h : Invariant c log rs) {c' : Connection} {log' : Log}
    (hc : Consistent c' log' (rs 1)) : Invariant c' log' (Function.update rs i (rs i)) := by
  rw [Function.update_eq_self]
  exact ⟨hc, h.others⟩

theorem Invariant.writes (h : Invariant c log rs) {c' : Connection} {log' : Log} {hand : Hand}
    (hc : Consistent c' log' (some hand)) :
    Invariant c' log' (Function.update rs 1 (some hand)) := by
  refine ⟨?_, fun j hj => ?_⟩
  · rw [Function.update_self]
    exact hc
  · rw [Function.update_of_ne hj]
    exact h.others j hj

theorem invariant_perform (h : Invariant c log rs) {l : Locals} {op : Op} {choice : Choice}
    {e : Performed (Ans op)} (hpre : pre (rs i) op) (he : perform c l op choice = some e) :
    Invariant e.shared (log ++ [.performed i op e.answer])
    (Function.update rs i (post (rs i) op e.answer)) := by
  have hframe := (perform_frames choice e he).same
  cases op with
  | sendWriter frame =>
    have hwire := hframe .wire rfl
    refine h.kept ?_
    obtain ⟨budget, hanswer, henqueued⟩ | ⟨hanswer, hqueues⟩ := sendWriter_effect he
    · rw [show e.answer = .sent c.completions.length from hanswer]
      exact h.consistent.enqueue henqueued hwire rfl rfl trivial
    · obtain hanswer | hanswer := hanswer
      · rw [show e.answer = Sent.timedOut from hanswer]
        exact (h.consistent.same hqueues hwire).note rfl rfl trivial
      · rw [show e.answer = Sent.closed from hanswer]
        exact (h.consistent.same hqueues hwire).note rfl rfl trivial
  | sendClose =>
    have hwire := hframe .wire rfl
    refine h.kept ?_
    obtain ⟨hanswer, henqueued⟩ | ⟨hanswer, hqueues⟩ := sendClose_effect he
    · rw [show e.answer = .sent c.completions.length from hanswer]
      exact h.consistent.enqueue henqueued hwire rfl rfl trivial
    · rw [show e.answer = Sent.closed from hanswer]
      exact (h.consistent.same hqueues hwire).note rfl rfl trivial
  | recvWriter =>
    have hwire := hframe .wire rfl
    obtain rfl := h.writer_eq hpre
    have hconsistent := h.consistent
    rw [show rs 1 = some .empty from hpre] at hconsistent
    obtain ⟨hanswer, hqueues⟩ | ⟨command, hanswer, hcompletions, hqueues⟩ := recvWriter_effect he
    · rw [show e.answer = (none : Option WriterCommand) from hanswer]
      exact h.kept ((h.consistent.same hqueues hwire).note rfl rfl trivial)
    · rw [show e.answer = some command from hanswer]
      refine h.writes ((hconsistent.take ?_ hcompletions hwire).note rfl rfl trivial)
      obtain ⟨hcontrol, hmedia⟩ | ⟨hnone, hcontrol, hmedia⟩ := hqueues
      · rw [hcontrol, hmedia, List.cons_append]
      · rw [hnone, hcontrol, hmedia, List.nil_append, List.nil_append]
  | write command =>
    obtain rfl := h.writer_eq hpre
    have hconsistent := h.consistent
    rw [show rs 1 = some (.holding command) from hpre] at hconsistent
    exact h.writes (hconsistent.write (hframe .queues rfl) (write_effect he))
  | complete command result =>
    obtain rfl := h.writer_eq hpre
    have hconsistent := h.consistent
    rw [show rs 1 = some (.wrote command result) from hpre] at hconsistent
    obtain ⟨hcompletions, hcontrol, hmedia⟩ := complete_effect he
    exact h.writes ((hconsistent.complete hcompletions hcontrol hmedia (hframe .wire rfl)).note rfl
      rfl trivial)
  | awaitComplete complete timed =>
    refine h.kept ((h.consistent.same (hframe .queues rfl) (hframe .wire rfl)).note rfl rfl ?_)
    obtain ⟨answer, _, _, _⟩ := e
    cases answer with
    | done result =>
      cases result with
      | ok _ => exact h.consistent.completed complete _ (awaitComplete_effect he rfl)
      | error _ => trivial
    | _ => trivial
  | _ => exact h.kept ((h.consistent.same (hframe .queues rfl) (hframe .wire rfl)).note rfl rfl trivial)

theorem invariant_discard (h : Invariant c log rs) (l : Locals) :
    Invariant (c.discard l).1 log rs :=
  ⟨h.consistent.same (discard_same c l .queues) (discard_same c l .wire), h.others⟩

theorem invariant_started (h : Invariant c log rs) (hidle : rs i = none) (n : Name) :
    Invariant c (log ++ [.started i n]) (Function.update rs i none) := by
  rw [← hidle]
  exact h.kept (h.consistent.note rfl rfl trivial)

theorem invariant_dropped (h : Invariant c log rs) (i : ℕ) : Invariant c (log ++ [.dropped i]) rs :=
  ⟨h.consistent.note rfl rfl trivial, h.others⟩

theorem ready_aftermath {P : ℕ → Prop} {n : Name} (h : ∃ handle, P handle ∧ Aftermath c handle n)
    (r : Option Hand) : protocol.ready n r := by
  obtain ⟨_, -, id, -, rfl | rfl⟩ := h <;> nofun

theorem maintains_invariant : Maintains system protocol (fun _ _ _ => True) Invariant where
  code := verified_code
  perform := fun _ _ _ _ _ _ choice e h hpre he _ =>
    ⟨invariant_perform h hpre he,
      fun n hn => ready_aftermath ((perform_frames choice e he).spawned n hn) _⟩
  discard := fun c _ _ l h =>
    ⟨invariant_discard h l, fun n hn => ready_aftermath (discard_aftermath c l n hn) _⟩
  started := fun _ _ _ _ n h hidle => invariant_started h hidle n
  dropped := fun _ _ _ _ h _ => invariant_dropped h _
  external := by
    intro n hn
    cases n with
    | writer => cases hn
    | _ => nofun

theorem invariant_start (now : ℕ) : Invariant (Connection.start now) [] protocol.first where
  consistent := ⟨rfl, List.nodup_nil, nofun, nofun, nofun, rfl, causal_nil⟩
  others := fun _ hi => if_neg hi

theorem accounted_initial (now : ℕ) :
    Accounted protocol Invariant (Traced.begin (initial now)) := by
  refine ⟨?_, ?_, invariant_start now⟩
  · exact initial_tasks now (verified_code .reader _ nofun) verified_writerLoop
      (verified_code .keepalive _ nofun)
  · intro i hi
    refine ⟨rfl, rfl, if_neg ?_⟩
    rintro rfl
    exact absurd hi (by simp [Traced.begin, initial])

theorem invariant_run {now : ℕ} {labels : Schedule} {t : Run} (hrun : Reaches now labels t) :
    Invariant t.pool.shared t.history (protocol.held t.history) :=
  (maintains_invariant.run_always (accounted_initial now) hrun).invariant

end Mst5Client.WriterHistory
