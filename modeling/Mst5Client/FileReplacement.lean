import Mst5Client.FileSteps

set_option autoImplicit false

/-!
# Replacing a file by renaming another over it

New contents are written to a temporary file, which is then renamed over the path.
-/
namespace Mst5Client.FileReplacement
open ByteOrder CrashPrograms TaskPrograms FileSteps

inductive FileName where
  | path
  | temporary
deriving DecidableEq

def emptyDisk : Disk FileName := ⟨[], fun _ => none, nofun, nofun⟩

def renamed : (op : Op FileName) → Ans op → Bool
  | .rename .temporary .path, .ok _ => true
  | _, _ => false

def unlinked : (op : Op FileName) → Ans op → Bool
  | .removeFile .path, .ok _ => true
  | _, _ => false

def Quiet (op : Op FileName) : Prop := ∀ a, renamed op a = false ∧ unlinked op a = false

theorem quiet_of_keeps {op : Op FileName} (h : op.keeps = true) : Quiet op := by
  intro a
  cases op <;> first | exact ⟨rfl, rfl⟩ | cases h

theorem uses_keeps : Compositional fun _ (p : Steps FileName _) => Uses (fun op => op.keeps = true) p :=
  uses_compositional _

theorem uses_quiet : Compositional fun _ (p : Steps FileName _) => Uses Quiet p :=
  uses_compositional Quiet

abbrev Event (Name α : Type) := Entry (Op FileName) Ans Name α

section Ghosts
variable {Name κ α : Type} (key : Name → Option κ)

/-- The call that runs, and the value that was renamed over the path last and is not removed. -/
structure Ghost (Name κ : Type) where
  running : Option Name
  saved : Option κ

def Ghost.after (g : Ghost Name κ) : Event Name α → Ghost Name κ
  | .started call => { g with running := some call }
  | .performed op a =>
    if renamed op a then { g with saved := g.running.bind key }
    else if unlinked op a then { g with saved := none }
    else g
  | .returned _ _ => { g with running := none }
  | .crashed => { g with running := none }

def ghost (h : List (Event Name α)) : Ghost Name κ := h.foldl (Ghost.after key) ⟨none, none⟩

variable {key}

theorem ghost_add (h : List (Event Name α)) (event : Event Name α) :
    ghost key (h ++ [event]) = (ghost key h).after key event := by
  rw [ghost, List.foldl_append]
  rfl

theorem Ghost.after_quiet (g : Ghost Name κ) {op : Op FileName} {a : Ans op}
    (h : renamed op a = false ∧ unlinked op a = false) :
    g.after key (.performed op a : Event Name α) = g := by
  simp only [Ghost.after, h.1, h.2, Bool.false_eq_true, ↓reduceIte]

end Ghosts

/-- Calls that replace one file: the value a call writes, the bytes that stand for a value, and what
an event must satisfy after the history before it. -/
structure Protocol (Name κ α : Type) where
  key : Name → Option κ
  Encodes : κ → Bytes → Prop
  Right : List (Event Name α) → Event Name α → Prop
  right_quiet : ∀ before op a, renamed op a = false ∧ unlinked op a = false →
    Right before (.performed op a)
  right_started : ∀ before call, Right before (.started call)
  right_crashed : ∀ before, Right before .crashed

section Invariant
variable {Name κ α χ σ : Type} (R : Protocol Name κ α) (disk : σ → Disk FileName)

/-- The file behind the path stands for the value, or there is neither. -/
def Protocol.Stored (saved : Option κ) (d : Disk FileName) : Prop :=
  Option.Rel R.Encodes saved (d.contents .path)

def Protocol.Truthful (h : List (Event Name α)) : Prop :=
  ∀ before event, before ++ [event] <+: h → R.Right before event

structure Holds (g : Ghost Name κ) (r : Recorded (Op FileName) Ans Name σ α) : Prop where
  ghost : ghost R.key r.history = g
  stored : R.Stored g.saved (disk r.state)
  truthful : R.Truthful r.history

def Busy (call : Name) (r : Recorded (Op FileName) Ans Name σ α) : Prop :=
  ∃ g, g.running = some call ∧ Holds R disk g r

def Settled (r : Recorded (Op FileName) Ans Name σ α) : Prop :=
  ∃ g, g.running = none ∧ Holds R disk g r

/-- The steps of the device change the disk it carries as a faulty disk may change. -/
def Backed (P : Device (Op FileName) Ans χ σ) : Prop :=
  ∀ s op choice t a, P.perform s op choice = some (t, a) →
    ∃ choice', faulty.perform (disk s) op choice' = some (disk t, a)

variable {R disk} {g : Ghost Name κ} {r : Recorded (Op FileName) Ans Name σ α} {call : Name}
  {P : Device (Op FileName) Ans χ σ}

theorem Protocol.Truthful.add {h : List (Event Name α)} {event : Event Name α}
    (htrue : R.Truthful h) (hright : R.Right h event) : R.Truthful (h ++ [event]) := by
  intro before e he
  obtain heq | hshort := List.prefix_concat_iff.mp he
  · obtain ⟨hbefore, hentry⟩ := List.append_inj' heq rfl
    cases hbefore
    cases hentry
    exact hright
  · exact htrue before e hshort

theorem Protocol.Truthful.before {h h' : List (Event Name α)} (htrue : R.Truthful h)
    (hshort : h' <+: h) : R.Truthful h' :=
  fun before event he => htrue before event (he.trans hshort)

theorem Holds.add (h : Holds R disk g r) (s : σ) (event : Event Name α)
    (hright : R.Right r.history event) (hstored : R.Stored (g.after R.key event).saved (disk s)) :
    Holds R disk (g.after R.key event) (r.add s event) := by
  refine ⟨?_, hstored, h.truthful.add hright⟩
  rw [Recorded.add, ghost_add, h.ghost]

theorem Holds.performed {op : Op FileName} {a : Ans op} {s : σ} (h : Holds R disk g r)
    (hmarks : renamed op a = false ∧ unlinked op a = false)
    (hsame : (disk s).contents .path = (disk r.state).contents .path) :
    Holds R disk g (r.add s (.performed op a)) := by
  have hadd := h.add s (.performed op a) (R.right_quiet _ op a hmarks)
  rw [g.after_quiet hmarks, Protocol.Stored, hsame] at hadd
  exact hadd h.stored

theorem quietly {β : Type} {p : Steps FileName β} {Q : σ → β → Prop} (huses : Uses Quiet p)
    (h : Guarded P (fun s => (disk s).contents .path = (disk r.state).contents .path) Q p r.state)
    (hg : g.running = some call) (hholds : Holds R disk g r) :
    Guarded P.recorded (Busy R disk call) (fun r' a => Holds R disk g r' ∧ Q r'.state a) p r := by
  have hrecord : Guarded P.recorded (Busy R disk call) (fun r' a => (Holds R disk g r' ∧
      (disk r'.state).contents .path = (disk r.state).contents .path) ∧ Q r'.state a) p r :=
    Guarded.record (fun _ _ a _ hquiet hr hs => ⟨hr.1.performed (hquiet a) (hs.trans hr.2.symm), hs⟩)
      (fun _ hr => ⟨g, hg, hr.1⟩) huses h ⟨hholds, rfl⟩
  exact hrecord.mono (fun _ h => h) fun _ _ _ h => ⟨h.1.1, h.2⟩

theorem keeps_guarded {β : Type} {p : Steps FileName β} (hP : Backed disk P)
    (huses : Uses (fun op => op.keeps = true) p) (hg : g.running = some call) (h : Holds R disk g r) :
    Guarded P.recorded (Busy R disk call) (fun r' _ => Holds R disk g r') p r := by
  have hspec := (keeps_spec huses (disk r.state)).restrict disk hP
  refine (quietly (huses.mono fun _ => quiet_of_keeps) (hspec.mono ?_ fun _ _ _ h => h) hg h).mono
    (fun _ h => h) fun _ _ _ h => h.1
  intro s hs
  rw [hs]

theorem rename_guarded {file : ℕ} {k : κ} {bytes : Bytes} (hP : Backed disk P)
    (hg : g.running = some call) (hkey : R.key call = some k) (hencodes : R.Encodes k bytes)
    (hright : R.Right r.history (.performed (.rename .temporary .path) (.ok ())))
    (h : Holds R disk g r) (hwritten : Written .temporary file bytes (disk r.state)) :
    Guarded P.recorded (Busy R disk call) (fun r' a => a = .ok () → Holds R disk ⟨some call, some k⟩ r')
      (rename FileName.temporary .path).run r := by
  refine Guarded.perform (Op.rename FileName.temporary .path) ⟨g, hg, h⟩ ?_
  intro choice t a ht
  obtain ⟨s, hs, rfl⟩ := recorded_perform ht
  obtain ⟨choice', hs⟩ := hP _ _ _ _ _ hs
  obtain ⟨rfl, hcontents⟩ | ⟨⟨error, rfl⟩, hsame⟩ := faulty_rename (by decide) hwritten hs
  · have hafter : g.after R.key (.performed (.rename .temporary .path) (.ok ()) : Event Name α) =
        ⟨some call, some k⟩ := by
      change (⟨g.running, g.running.bind R.key⟩ : Ghost Name κ) = _
      rw [hg, Option.bind_some, hkey]
    have hadd := h.add s _ hright
    rw [hafter, Protocol.Stored, hcontents] at hadd
    have hholds := hadd (.some hencodes)
    exact ⟨⟨_, rfl, hholds⟩, fun _ => hholds⟩
  · exact ⟨⟨g, hg, h.performed ⟨rfl, rfl⟩ (by rw [hsame])⟩, nofun⟩

end Invariant

section Process
variable {Name κ α χ σ : Type} {R : Protocol Name κ α} {disk : σ → Disk FileName}
  {S : Service (Op FileName) Ans Name χ σ α} {r : Recorded (Op FileName) Ans Name σ α} {call : Name}

theorem Holds.crash {g : Ghost Name κ} (hcrash : ∀ s, disk (S.crash s) = disk s)
    (h : Holds R disk g r) : Settled R disk (r.add (S.crash r.state) .crashed) :=
  ⟨_, rfl, h.add _ .crashed (R.right_crashed _) (by rw [hcrash]; exact h.stored)⟩

theorem Settled.crash (hcrash : ∀ s, disk (S.crash s) = disk s) (h : Settled R disk r) :
    Settled R disk (r.add (S.crash r.state) .crashed) := by
  obtain ⟨g, -, h⟩ := h
  exact h.crash hcrash

variable (R disk S) in

/-- Every call keeps to the protocol while it runs, and may return what it returns. -/
def Follows : Prop :=
  ∀ r g call prog, S.code r.state call = some prog → g.running = some call → Holds R disk g r →
    Guarded S.device.recorded (Busy R disk call) (fun r a => R.Right r.history (.returned call a))
      prog r

theorem Follows.owes (hS : Follows R disk S) (hcrash : ∀ s, disk (S.crash s) = disk s)
    (hfinish : ∀ s call a, disk (S.finish s call a) = disk s) {prog : Steps FileName α}
    (hcode : S.code r.state call = some prog) (h : Settled R disk r) :
    Owes S (Settled R disk) call prog (r.add r.state (.started call)) := by
  obtain ⟨g, -, hholds⟩ := h
  have hstarted := hholds.add r.state (.started call) (R.right_started _ _) hholds.stored
  refine (hS (r.add r.state (.started call)) _ call prog hcode rfl hstarted).mono ?_ ?_
  · rintro r' ⟨g', -, h'⟩
    exact h'.crash hcrash
  · rintro r' a ⟨g', -, h'⟩ hright
    exact ⟨_, rfl, h'.add _ (.returned call a) hright (by rw [hfinish]; exact h'.stored)⟩

/-- Between any two calls of any run the path holds what was renamed last, and every event is right. -/
theorem Follows.run (hS : Follows R disk S) (hcrash : ∀ s, disk (S.crash s) = disk s)
    (hfinish : ∀ s call a, disk (S.finish s call a) = disk s) {s : σ}
    (hfresh : (disk s).link .path = none) {moves : List (Move Name χ)}
    {p : Process (Op FileName) Ans Name σ α}
    (hrun : MachineRuns.runFrom S.move ⟨⟨s, []⟩, none⟩ moves = some p) :
    R.Truthful p.now.history ∧
      (p.running = none → R.Stored (ghost R.key p.now.history).saved (disk p.now.state)) := by
  have hstart : Settled R disk (⟨s, []⟩ : Recorded (Op FileName) Ans Name σ α) := by
    refine ⟨⟨none, none⟩, rfl, rfl, ?_, ?_⟩
    · rw [Protocol.Stored, contents_of_unlinked _ hfresh]
      exact .none
    · intro before event he
      simp at he
  have hsound := Process.sound_of_run (S := S) (I := Settled R disk) (p := ⟨⟨s, []⟩, none⟩)
    (fun _ _ _ hr hcode => hS.owes hcrash hfinish hcode hr) (fun _ hr => hr.crash hcrash) hstart hrun
  obtain ⟨now, running⟩ := p
  cases running with
  | none =>
    obtain ⟨g, -, h⟩ := hsound
    exact ⟨h.truthful, fun _ => by rw [h.ghost]; exact h.stored⟩
  | some run =>
    have howes : Owes S (Settled R disk) run.1 run.2 now := hsound
    obtain ⟨g, -, h⟩ := howes.condition
    exact ⟨h.truthful.before (List.prefix_append _ _), nofun⟩

end Process

end Mst5Client.FileReplacement
