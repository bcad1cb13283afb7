import Mst5Client.TaskPrograms

set_option autoImplicit false

/-!
# Programs that may be cut short

`Guarded` bounds what a program alone can do: a condition for every state on its way, where it may
be stopped, and a condition for its result.
-/
namespace Mst5Client.CrashPrograms
open MachineRuns TaskPrograms

structure Device (Op : Type) (Ans : Op → Type) (Choice σ : Type) where
  perform : σ → (op : Op) → Choice → Option (σ × Ans op)

section Guarding
variable {Op : Type} {Ans : Op → Type} {Choice σ α β ε : Type}
variable (P : Device Op Ans Choice σ) (C : σ → Prop)
variable {Q' : σ → Except ε β → Prop} {f : α → ExceptT ε (Prog Op Ans) β} {op : Op}
  {choices first : List Choice} {a : α} {τ : Type}

def Guarded (Q : σ → α → Prop) : Prog Op Ans α → σ → Prop
  | .ret a, s => C s ∧ Q s a
  | .call op k, s => C s ∧ ∀ choice t a, P.perform s op choice = some (t, a) → Guarded Q (k a) t

variable {P C} {Q R : σ → α → Prop} {p : Prog Op Ans α} {s t : σ}

theorem Guarded.condition (h : Guarded P C Q p s) : C s := by
  cases p with
  | ret a => exact h.1
  | call op k => exact h.1

theorem Guarded.mono {C' : σ → Prop} (h : Guarded P C Q p s) (hC : ∀ s, C s → C' s)
    (hQ : ∀ s a, C s → Q s a → R s a) : Guarded P C' R p s := by
  induction p generalizing s with
  | ret a => exact ⟨hC s h.1, hQ s a h.1 h.2⟩
  | call op k ih => exact ⟨hC s h.1, fun choice t a ha => ih a (h.2 choice t a ha)⟩

theorem Guarded.bind {Q' : σ → β → Prop} {f : α → Prog Op Ans β} (h : Guarded P C Q p s)
    (hf : ∀ s a, C s → Q s a → Guarded P C Q' (f a) s) : Guarded P C Q' (p >>= f) s := by
  induction p generalizing s with
  | ret a => exact hf s a h.1 h.2
  | call op k ih => exact ⟨h.1, fun choice t a ha => ih a (h.2 choice t a ha)⟩

theorem Guarded.perform (op : Op) {Q : σ → Ans op → Prop} (hs : C s)
    (h : ∀ choice t a, P.perform s op choice = some (t, a) → C t ∧ Q t a) :
    Guarded P C Q (Prog.perform op) s := ⟨hs, h⟩

theorem Guarded.tryBind {Q : σ → Except ε α → Prop} {p : ExceptT ε (Prog Op Ans) α}
    (h : Guarded P C Q p.run s) (hok : ∀ s a, C s → Q s (.ok a) → Guarded P C Q' (f a).run s)
    (herror : ∀ s e, C s → Q s (.error e) → Q' s (.error e)) : Guarded P C Q' (p >>= f).run s := by
  refine h.bind ?_
  intro s a hs ha
  cases a with
  | ok a => exact hok s a hs ha
  | error e => exact ⟨hs, herror s e hs ha⟩

theorem Guarded.liftThen (h : Guarded P C Q p s)
    (hf : ∀ s a, C s → Q s a → Guarded P C Q' (f a).run s) :
    Guarded P C Q' ((ExceptT.lift p : ExceptT ε (Prog Op Ans) α) >>= f).run s := by
  refine Guarded.bind (Q := fun s x => ∃ a, x = .ok a ∧ Q s a) ?_ ?_
  · exact h.bind fun s a hs ha => ⟨hs, a, rfl, ha⟩
  · rintro s _ hs ⟨a, rfl, ha⟩
    exact hf s a hs ha

def execute (P : Device Op Ans Choice σ) : Prog Op Ans α → σ → List Choice → Option (σ × α)
  | .ret a, s, [] => some (s, a)
  | .ret _, _, _ :: _ => none
  | .call _ _, _, [] => none
  | .call op k, s, choice :: choices => (P.perform s op choice).bind fun r =>
    execute P (k r.2) r.1 choices

theorem execute_call {k : Ans op → Prog Op Ans α} {choice : Choice} {a : Ans op}
    (h : P.perform s op choice = some (t, a)) (choices : List Choice) :
    execute P (.call op k) s (choice :: choices) = execute P (k a) t choices := by
  rw [execute, h]
  rfl

theorem execute_perform {a : Ans op} (h : execute P (Prog.perform op) s choices = some (t, a)) :
    ∃ choice, choices = [choice] ∧ P.perform s op choice = some (t, a) := by
  cases choices with
  | nil => cases h
  | cons choice rest =>
    obtain ⟨⟨u, b⟩, hu, hrest⟩ := Option.bind_eq_some_iff.mp h
    cases rest with
    | cons _ _ => cases hrest
    | nil =>
      cases hrest
      exact ⟨choice, rfl, hu⟩

theorem execute_bind {f : α → Prog Op Ans β} {b : β}
    (h : execute P (p >>= f) s choices = some (t, b)) :
    ∃ first rest u a, choices = first ++ rest ∧ execute P p s first = some (u, a) ∧
      execute P (f a) u rest = some (t, b) := by
  induction p generalizing s choices with
  | ret a => exact ⟨[], choices, s, a, rfl, rfl, h⟩
  | call op k ih =>
    cases choices with
    | nil => cases h
    | cons choice choices =>
      obtain ⟨⟨u, c⟩, hu, hrest⟩ := Option.bind_eq_some_iff.mp h
      obtain ⟨first, rest, v, a, rfl, hfirst, hlast⟩ := ih c hrest
      refine ⟨choice :: first, rest, v, a, rfl, ?_, hlast⟩
      rw [execute_call hu, hfirst]

theorem execute_tryBind {p : ExceptT ε (Prog Op Ans) α} {b : Except ε β}
    (h : execute P (p >>= f).run s choices = some (t, b)) :
    (∃ e, execute P p.run s choices = some (t, .error e) ∧ b = .error e) ∨
      ∃ first rest u a, choices = first ++ rest ∧ execute P p.run s first = some (u, .ok a) ∧
        execute P (f a).run u rest = some (t, b) := by
  obtain ⟨first, rest, u, a, rfl, hfirst, hrest⟩ := execute_bind h
  cases a with
  | ok a => exact .inr ⟨first, rest, u, a, rfl, hfirst, hrest⟩
  | error e =>
    cases rest with
    | cons choice rest => cases hrest
    | nil =>
      cases hrest
      rw [List.append_nil]
      exact .inl ⟨e, hfirst, rfl⟩

theorem execute_liftThen {p : Prog Op Ans α} {b : Except ε β}
    (h : execute P ((ExceptT.lift p : ExceptT ε (Prog Op Ans) α) >>= f).run s choices = some (t, b)) :
    ∃ first rest u a, choices = first ++ rest ∧ execute P p s first = some (u, a) ∧
      execute P (f a).run u rest = some (t, b) := by
  obtain ⟨lifted, rest, u, _, rfl, hlift, hrest⟩ := execute_bind h
  obtain ⟨first, last, v, a, rfl, hfirst, hlast⟩ := execute_bind hlift
  cases last with
  | cons choice last => cases hlast
  | nil =>
    cases hlast
    exact ⟨first, rest, u, a, by rw [List.append_nil], hfirst, hrest⟩

theorem execute_then (h : execute P p s first = some (t, a)) (f : α → Prog Op Ans β)
    (rest : List Choice) : execute P (p >>= f) s (first ++ rest) = execute P (f a) t rest := by
  induction p generalizing s first with
  | ret b =>
    cases first with
    | cons _ _ => cases h
    | nil =>
      cases h
      rfl
  | call op k ih =>
    cases first with
    | nil => cases h
    | cons choice first =>
      obtain ⟨⟨u, b⟩, hu, hfirst⟩ := Option.bind_eq_some_iff.mp h
      rw [← ih b hfirst]
      exact execute_call hu _

theorem execute_tryThen {p : ExceptT ε (Prog Op Ans) α}
    (h : execute P p.run s first = some (t, .ok a)) (f : α → ExceptT ε (Prog Op Ans) β)
    (rest : List Choice) : execute P (p >>= f).run s (first ++ rest) = execute P (f a).run t rest :=
  execute_then h _ rest

theorem Guarded.outcome (h : Guarded P C Q p s) (hrun : execute P p s choices = some (t, a)) :
    C t ∧ Q t a := by
  induction p generalizing s choices with
  | ret a =>
    cases choices with
    | nil =>
      cases hrun
      exact h
    | cons choice choices => cases hrun
  | call op k ih =>
    cases choices with
    | nil => cases hrun
    | cons choice choices =>
      obtain ⟨⟨u, b⟩, hu, hrest⟩ := Option.bind_eq_some_iff.mp hrun
      exact ih b (h.2 choice u b hu) hrest

theorem Guarded.of_uses {keeps : Op → Prop}
    (hstep : ∀ s op choice t a, keeps op → C s → P.perform s op choice = some (t, a) → C t)
    (huses : Uses keeps p) (hs : C s) : Guarded P C (fun _ _ => True) p s := by
  induction p generalizing s with
  | ret a => exact ⟨hs, trivial⟩
  | call op k ih =>
    exact ⟨hs, fun choice t a ht => ih a (huses.2 a) (hstep s op choice t a huses.1 hs ht)⟩

theorem Guarded.restrict {Choice' : Type} {P' : Device Op Ans Choice' τ} (f : τ → σ)
    (hP : ∀ s op choice t a, P'.perform s op choice = some (t, a) →
      ∃ choice', P.perform (f s) op choice' = some (f t, a))
    {s : τ} (h : Guarded P C Q p (f s)) :
    Guarded P' (fun s => C (f s)) (fun s a => Q (f s) a) p s := by
  induction p generalizing s with
  | ret a => exact h
  | call op k ih =>
    refine ⟨h.1, fun choice t a ht => ?_⟩
    obtain ⟨choice', ht'⟩ := hP s op choice t a ht
    exact ih a (h.2 choice' (f t) a ht')

/-- The program keeps `C` until it returns with `E` or gets to where `R` takes over. -/
def Until (P : Device Op Ans Choice σ) (C : σ → Prop) (E : α → Prop) (R : σ → Prog Op Ans α → Prop) :
    Prog Op Ans α → σ → Prop
  | .ret a, s => C s ∧ E a
  | .call op k, s => C s ∧ ∀ choice t a, P.perform s op choice = some (t, a) →
    Until P C E R (k a) t ∨ R t (k a)

variable {E : α → Prop} {R : σ → Prog Op Ans α → Prop} {E' : β → Prop} {R' : σ → Prog Op Ans β → Prop}
  {f : α → Prog Op Ans β}

theorem Until.condition (h : Until P C E R p s) : C s := by
  cases p with
  | ret a => exact h.1
  | call op k => exact h.1

theorem Guarded.thenUntil (h : Guarded P C Q p s)
    (hf : ∀ s a, C s → Q s a → Until P C E' R' (f a) s) : Until P C E' R' (p >>= f) s := by
  induction p generalizing s with
  | ret a => exact hf s a h.1 h.2
  | call op k ih => exact ⟨h.1, fun choice t a ha => .inl (ih a (h.2 choice t a ha))⟩

theorem Until.bind (h : Until P C E R p s) (hf : ∀ s a, C s → E a → Until P C E' R' (f a) s)
    (hR : ∀ t q, R t q → R' t (q >>= f)) : Until P C E' R' (p >>= f) s := by
  induction p generalizing s with
  | ret a => exact hf s a h.1 h.2
  | call op k ih =>
    refine ⟨h.1, fun choice t a ha => ?_⟩
    obtain hnext | hover := h.2 choice t a ha
    · exact .inl (ih a hnext)
    · exact .inr (hR t (k a) hover)

def Device.beside (P : Device Op Ans Choice σ) (τ : Type) : Device Op Ans Choice (σ × τ) where
  perform := fun s op choice => (P.perform s.1 op choice).map fun r => ((r.1, s.2), r.2)

theorem beside_perform {u v : σ × τ} {choice : Choice} {a : Ans op}
    (h : (P.beside τ).perform u op choice = some (v, a)) :
    P.perform u.1 op choice = some (v.1, a) ∧ v.2 = u.2 := by
  obtain ⟨⟨t, b⟩, ht, heq⟩ := Option.map_eq_some_iff.mp h
  cases heq
  exact ⟨ht, rfl⟩

theorem execute_beside {u v : σ × τ} (h : execute (P.beside τ) p u choices = some (v, a)) :
    execute P p u.1 choices = some (v.1, a) ∧ v.2 = u.2 := by
  induction p generalizing u choices with
  | ret b =>
    cases choices with
    | nil =>
      cases h
      exact ⟨rfl, rfl⟩
    | cons choice choices => cases h
  | call op k ih =>
    cases choices with
    | nil => cases h
    | cons choice choices =>
      obtain ⟨⟨w, b⟩, hw, hrest⟩ := Option.bind_eq_some_iff.mp h
      obtain ⟨hperform, hsame⟩ := beside_perform hw
      obtain ⟨hexecute, hlast⟩ := ih b hrest
      exact ⟨(execute_call hperform choices).trans hexecute, hlast.trans hsame⟩

end Guarding

section Races
variable {Op : Type} {Ans : Op → Type} {Choice σ α : Type}

structure Race (Op : Type) (Ans : Op → Type) (σ α : Type) where
  state : σ
  calls : List (Prog Op Ans α)

def Race.step (P : Device Op Ans Choice σ) (s : Race Op Ans σ α) (label : ℕ × Choice) :
    Option (Race Op Ans σ α) :=
  match s.calls[label.1]? with
  | some (.call op k) =>
    (P.perform s.state op label.2).map fun (t, a) => ⟨t, s.calls.set label.1 (k a)⟩
  | _ => none

theorem Race.step_cases {P : Device Op Ans Choice σ} {s t : Race Op Ans σ α} {i : ℕ}
    {choice : Choice} (h : s.step P (i, choice) = some t) :
    ∃ op k state a, s.calls[i]? = some (.call op k) ∧
      P.perform s.state op choice = some (state, a) ∧ t = ⟨state, s.calls.set i (k a)⟩ := by
  unfold Race.step at h
  split at h
  · rename_i op k hcall
    obtain ⟨⟨state, a⟩, ha, rfl⟩ := Option.map_eq_some_iff.mp h
    exact ⟨op, k, state, a, hcall, ha, rfl⟩
  · cases h

end Races

variable {Op : Type} {Ans : Op → Type} {Name Choice σ α : Type}
variable {P : Device Op Ans Choice σ}

inductive Entry (Op : Type) (Ans : Op → Type) (Name α : Type) where
  | started (name : Name)
  | performed (op : Op) (answer : Ans op)
  | returned (name : Name) (result : α)
  | crashed

structure Recorded (Op : Type) (Ans : Op → Type) (Name σ α : Type) where
  state : σ
  history : List (Entry Op Ans Name α)

variable {r : Recorded Op Ans Name σ α}

def Recorded.add (r : Recorded Op Ans Name σ α) (state : σ) (entry : Entry Op Ans Name α) :
    Recorded Op Ans Name σ α := ⟨state, r.history ++ [entry]⟩

def Device.recorded (P : Device Op Ans Choice σ) :
    Device Op Ans Choice (Recorded Op Ans Name σ α) where
  perform := fun r op choice =>
    (P.perform r.state op choice).map fun (s, a) => (r.add s (.performed op a), a)

theorem recorded_perform {t : Recorded Op Ans Name σ α} {op : Op} {choice : Choice} {a : Ans op}
    (h : P.recorded.perform r op choice = some (t, a)) :
    ∃ s, P.perform r.state op choice = some (s, a) ∧ t = r.add s (.performed op a) := by
  obtain ⟨⟨s, b⟩, hs, heq⟩ := Option.map_eq_some_iff.mp h
  cases heq
  exact ⟨s, hs, rfl⟩

theorem Guarded.record {β : Type} {quiet : Op → Prop} {H D : Recorded Op Ans Name σ α → Prop}
    {G : σ → Prop} {Q : σ → β → Prop} {p : Prog Op Ans β}
    (hstep : ∀ r op a s, quiet op → H r → G s → H (r.add s (.performed op a))) (hD : ∀ r, H r → D r)
    (huses : Uses quiet p) (h : Guarded P G Q p r.state) (hr : H r) :
    Guarded P.recorded D (fun t a => H t ∧ Q t.state a) p r := by
  induction p generalizing r with
  | ret a => exact ⟨hD r hr, hr, h.2⟩
  | call op k ih =>
    refine ⟨hD r hr, ?_⟩
    intro choice t a ht
    obtain ⟨s, hs, rfl⟩ := recorded_perform ht
    have hnext := h.2 choice s a hs
    exact ih a (huses.2 a) hnext (hstep r op a s huses.1 hr hnext.condition)

/-- What a process offers. `code` reads the state in which the call is made, `finish` keeps what the
call returns, and `crash` is what survives. -/
structure Service (Op : Type) (Ans : Op → Type) (Name Choice σ α : Type) where
  device : Device Op Ans Choice σ
  code : σ → Name → Option (Prog Op Ans α)
  finish : σ → Name → α → σ
  crash : σ → σ

structure Process (Op : Type) (Ans : Op → Type) (Name σ α : Type) where
  now : Recorded Op Ans Name σ α
  running : Option (Name × Prog Op Ans α)

inductive Move (Name Choice : Type) where
  | start (name : Name)
  | step (choice : Choice)
  | finish
  | crash

variable (S : Service Op Ans Name Choice σ α)

def Service.move (p : Process Op Ans Name σ α) : Move Name Choice → Option (Process Op Ans Name σ α)
  | .start n =>
    match p.running with
    | some _ => none
    | none => (S.code p.now.state n).map fun prog =>
      ⟨p.now.add p.now.state (.started n), some (n, prog)⟩
  | .step choice =>
    match p.running with
    | some (n, .call op k) =>
      (S.device.recorded.perform p.now op choice).map fun (now, a) => ⟨now, some (n, k a)⟩
    | _ => none
  | .finish =>
    match p.running with
    | some (n, .ret a) => some ⟨p.now.add (S.finish p.now.state n a) (.returned n a), none⟩
    | _ => none
  | .crash => some ⟨p.now.add (S.crash p.now.state) .crashed, none⟩

variable {S} {I : Recorded Op Ans Name σ α → Prop} {p q : Process Op Ans Name σ α}

/-- What a running call owes: the invariant after a crash and after its return. -/
def Owes (S : Service Op Ans Name Choice σ α) (I : Recorded Op Ans Name σ α → Prop) (n : Name)
    (prog : Prog Op Ans α) (r : Recorded Op Ans Name σ α) : Prop :=
  Guarded S.device.recorded (fun r => I (r.add (S.crash r.state) .crashed))
    (fun r a => I (r.add (S.finish r.state n a) (.returned n a))) prog r

def Process.Sound (S : Service Op Ans Name Choice σ α) (I : Recorded Op Ans Name σ α → Prop)
    (p : Process Op Ans Name σ α) : Prop :=
  match p.running with
  | none => I p.now
  | some (n, prog) => Owes S I n prog p.now

theorem Process.Sound.move {m : Move Name Choice}
    (hstart : ∀ r n prog, I r → S.code r.state n = some prog →
      Owes S I n prog (r.add r.state (.started n)))
    (hcrash : ∀ r, I r → I (r.add (S.crash r.state) .crashed)) (h : p.Sound S I)
    (hmove : S.move p m = some q) : q.Sound S I := by
  obtain ⟨now, running⟩ := p
  cases m with
  | start n =>
    cases running with
    | some run => cases hmove
    | none =>
      obtain ⟨prog, hprog, rfl⟩ := Option.map_eq_some_iff.mp hmove
      exact hstart now n prog h hprog
  | step choice =>
    cases running with
    | none => cases hmove
    | some run =>
      obtain ⟨n, prog⟩ := run
      cases prog with
      | ret a => cases hmove
      | call op k =>
        obtain ⟨⟨t, a⟩, ha, rfl⟩ := Option.map_eq_some_iff.mp hmove
        exact h.2 choice t a ha
  | finish =>
    cases running with
    | none => cases hmove
    | some run =>
      obtain ⟨n, prog⟩ := run
      cases prog with
      | ret a =>
        cases hmove
        exact h.2
      | call op k => cases hmove
  | crash =>
    cases hmove
    cases running with
    | none => exact hcrash now h
    | some run =>
      have howes : Owes S I run.1 run.2 now := h
      exact howes.condition

def Service.complete (S : Service Op Ans Name Choice σ α) (s : σ) (n : Name) (choices : List Choice) :
    Option (σ × α) :=
  (S.code s n).bind fun prog => (execute S.device prog s choices).map fun r => (S.finish r.1 n r.2, r.2)

theorem runFrom_execute {prog : Prog Op Ans α} {s t : σ} {choices : List Choice} {a : α} {n : Name}
    (h : execute S.device prog s choices = some (t, a)) (history : List (Entry Op Ans Name α)) :
    ∃ history', runFrom S.move ⟨⟨s, history⟩, some (n, prog)⟩ (choices.map .step) =
      some ⟨⟨t, history'⟩, some (n, .ret a)⟩ := by
  induction prog generalizing s choices history with
  | ret b =>
    cases choices with
    | nil =>
      cases h
      exact ⟨history, rfl⟩
    | cons choice choices => cases h
  | call op k ih =>
    cases choices with
    | nil => cases h
    | cons choice choices =>
      obtain ⟨⟨u, b⟩, hu, hrest⟩ := Option.bind_eq_some_iff.mp h
      obtain ⟨history', hrun⟩ := ih b hrest (history ++ [.performed op b])
      refine ⟨history', ?_⟩
      rw [List.map_cons, runFrom]
      simp only [Service.move, Device.recorded, hu, Option.map_some, Option.bind_some, Recorded.add]
      exact hrun

theorem runFrom_complete {s t : σ} {n : Name} {choices : List Choice} {a : α}
    (h : S.complete s n choices = some (t, a)) (history : List (Entry Op Ans Name α)) :
    ∃ history', runFrom S.move ⟨⟨s, history⟩, none⟩ (.start n :: (choices.map .step ++ [.finish])) =
      some ⟨⟨t, history'⟩, none⟩ := by
  obtain ⟨prog, hprog, h⟩ := Option.bind_eq_some_iff.mp h
  obtain ⟨⟨u, b⟩, hu, heq⟩ := Option.map_eq_some_iff.mp h
  cases heq
  obtain ⟨history', hrun⟩ := runFrom_execute hu (history ++ [.started n])
  refine ⟨history' ++ [.returned n b], ?_⟩
  rw [runFrom]
  simp only [Service.move, hprog, Option.map_some, Option.bind_some, Recorded.add]
  rw [runFrom_append, hrun]
  rfl

/-- An invariant of the calls holds whenever none is running, however often the process crashes. -/
theorem Process.sound_of_run {moves : List (Move Name Choice)}
    (hstart : ∀ r n prog, I r → S.code r.state n = some prog →
      Owes S I n prog (r.add r.state (.started n)))
    (hcrash : ∀ r, I r → I (r.add (S.crash r.state) .crashed)) (h : p.Sound S I)
    (hrun : runFrom S.move p moves = some q) : q.Sound S I :=
  runFrom_invariant (fun _ _ _ h hmove => Process.Sound.move hstart hcrash h hmove) h hrun

end Mst5Client.CrashPrograms
