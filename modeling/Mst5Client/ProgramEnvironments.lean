import Mst5Client.TaskTraces

set_option autoImplicit false

/-!
# Programs and what they meet

A program alone, with an environment that answers its operations.
-/
namespace Mst5Client.ProgramEnvironments
open TaskPrograms TaskTraces

variable {Op : Type} {Ans : Op → Type} {ε α β : Type}

def recording (Op : Type) (Ans : Op → Type) : Discipline Op Ans Empty (List (Event Op Ans)) where
  pre := fun _ _ => True
  post := fun log op a => log ++ [⟨op, a⟩]
  idle := []
  ready := fun _ _ => True

/-- However its operations are answered, the program ends with a log and a result that satisfy `Q`. -/
def Ensures (log : List (Event Op Ans)) (Q : List (Event Op Ans) → α → Prop) (p : Prog Op Ans α) :
    Prop :=
  Verified (recording Op Ans) log Q p

variable {log : List (Event Op Ans)} {Q : List (Event Op Ans) → α → Prop} {p : Prog Op Ans α}

theorem Ensures.bind {Q' : List (Event Op Ans) → β → Prop} {f : α → Prog Op Ans β}
    (h : Ensures log Q p) (hf : ∀ log a, Q log a → Ensures log Q' (f a)) :
    Ensures log Q' (p >>= f) :=
  Verified.bind h hf

theorem Ensures.mono {Q' : List (Event Op Ans) → α → Prop} (h : Ensures log Q p)
    (hQ : ∀ log a, Q log a → Q' log a) : Ensures log Q' p := Verified.mono h hQ

theorem Ensures.tryBind {Q : List (Event Op Ans) → Except ε α → Prop}
    {Q' : List (Event Op Ans) → Except ε β → Prop} {p : ExceptT ε (Prog Op Ans) α}
    {f : α → ExceptT ε (Prog Op Ans) β} (h : Ensures log Q p.run)
    (hok : ∀ log a, Q log (.ok a) → Ensures log Q' (f a).run)
    (herror : ∀ log e, Q log (.error e) → Q' log (.error e)) : Ensures log Q' (p >>= f).run :=
  Verified.tryBind h hok herror

theorem Ensures.stop {R : List (Event Op Ans) → Prop} {e : ε} {p : ExceptT ε (Prog Op Ans) α}
    (h : Ensures log (fun log' x => R log' ∧ x = .error e) p.run)
    (f : α → ExceptT ε (Prog Op Ans) β) :
    Ensures log (fun log' x => R log' ∧ x = .error e) (p >>= f).run := by
  refine h.tryBind ?_ ?_
  · rintro _ _ ⟨-, hok⟩
    cases hok
  · rintro _ _ ⟨hlog, herror⟩
    cases herror
    exact ⟨hlog, rfl⟩

theorem Ensures.perform {op : Op} {Q : List (Event Op Ans) → Ans op → Prop}
    (h : ∀ a, Q (log ++ [⟨op, a⟩]) a) : Ensures log Q (Prog.perform op) := ⟨trivial, h⟩

theorem Ensures.lift {Q : List (Event Op Ans) → Except ε α → Prop}
    (h : Ensures log (fun log a => Q log (.ok a)) p) :
    Ensures log Q (ExceptT.lift p : ExceptT ε (Prog Op Ans) α).run :=
  h.bind fun _ _ h => h

theorem Ensures.tryCatch {Q Q' : List (Event Op Ans) → Except ε α → Prop}
    {p : ExceptT ε (Prog Op Ans) α} {handle : ε → ExceptT ε (Prog Op Ans) α}
    (h : Ensures log Q p.run) (hok : ∀ log a, Q log (.ok a) → Q' log (.ok a))
    (herror : ∀ log e, Q log (.error e) → Ensures log Q' (handle e).run) :
    Ensures log Q' (ExceptT.tryCatch p handle).run := by
  refine h.bind ?_
  intro log x hx
  cases x with
  | ok a => exact hok log a hx
  | error e => exact herror log e hx

theorem Ensures.of_uses {P : Op → Prop} (h : Uses P p) :
    Ensures log (fun log' _ => ∃ new, log' = log ++ new ∧ ∀ e ∈ new, P e.op) p := by
  induction p generalizing log with
  | ret a => exact ⟨[], (List.append_nil log).symm, by simp⟩
  | call op k ih =>
    refine ⟨trivial, fun a => (ih a (h.2 a)).mono ?_⟩
    rintro _ _ ⟨new, rfl, hnew⟩
    refine ⟨⟨op, a⟩ :: new, List.append_assoc log [⟨op, a⟩] new, ?_⟩
    intro e he
    obtain rfl | he := List.mem_cons.mp he
    · exact h.1
    · exact hnew e he

theorem Ensures.of_result [DecidableEq Op] (h : Ensures log Q p) {events : List (Event Op Ans)}
    {a : α} (hresult : result p events = some a) : Q (log ++ events) a := by
  have hfold : ∀ (events log : List (Event Op Ans)),
      events.foldl (Discipline.record (recording Op Ans)) log = log ++ events := by
    intro events
    induction events with
    | nil => intro log; exact (List.append_nil log).symm
    | cons e events ih =>
      intro log
      rw [List.foldl_cons, ih]
      exact List.append_assoc log [e] events
  rw [← hfold]
  exact Verified.of_result h hresult

variable {log' : List (Event Op Ans)}

abbrev Environment (Op : Type) (Ans : Op → Type) := List (Event Op Ans) → (op : Op) → Ans op

def interact (env : Environment Op Ans) :
    Prog Op Ans α → List (Event Op Ans) → List (Event Op Ans) × α
  | .ret a, log => (log, a)
  | .call op k, log => interact env (k (env log op)) (log ++ [⟨op, env log op⟩])

variable {env : Environment Op Ans}

theorem interact_perform {op : Op} {a : Ans op} (h : env log op = a) :
    interact env (Prog.perform op) log = (log ++ [⟨op, a⟩], a) := by
  rw [← h]
  rfl

theorem interact_bind (f : α → Prog Op Ans β) (log : List (Event Op Ans)) :
    interact env (p >>= f) log = interact env (f (interact env p log).2) (interact env p log).1 := by
  induction p generalizing log with
  | ret a => rfl
  | call op k ih => exact ih (env log op) _

theorem interact_tryThen {p : ExceptT ε (Prog Op Ans) α} {a : α}
    (h : interact env p.run log = (log', .ok a)) (f : α → ExceptT ε (Prog Op Ans) β) :
    interact env (p >>= f).run log = interact env (f a).run log' := by
  refine (interact_bind (p := p.run) _ log).trans ?_
  rw [h]
  rfl

theorem interact_tryStop {p : ExceptT ε (Prog Op Ans) α} {e : ε}
    (h : interact env p.run log = (log', .error e)) (f : α → ExceptT ε (Prog Op Ans) β) :
    interact env (p >>= f).run log = (log', .error e) := by
  refine (interact_bind (p := p.run) _ log).trans ?_
  rw [h]
  rfl

theorem interact_lift {a : α} (h : interact env p log = (log', a)) :
    interact env (ExceptT.lift p : ExceptT ε (Prog Op Ans) α).run log = (log', .ok a) := by
  refine (interact_bind _ log).trans ?_
  rw [h]
  rfl

theorem Ensures.interacts {Q : List (Event Op Ans) → α → Prop} (h : Ensures log Q p)
    (env : Environment Op Ans) : Q (interact env p log).1 (interact env p log).2 := by
  induction p generalizing log with
  | ret a => exact h
  | call op k ih => exact ih (env log op) (h.2 (env log op))

theorem interact_answers (env : Environment Op Ans) (p : Prog Op Ans α) (log : List (Event Op Ans)) :
    ∃ new, (interact env p log).1 = log ++ new ∧
      ∀ before e after, new = before ++ e :: after → e.answer = env (log ++ before) e.op := by
  induction p generalizing log with
  | ret a =>
    refine ⟨[], (List.append_nil log).symm, ?_⟩
    intro before e after h
    simp at h
  | call op k ih =>
    obtain ⟨new, hnew, hanswers⟩ := ih (env log op) (log ++ [⟨op, env log op⟩])
    refine ⟨⟨op, env log op⟩ :: new, ?_, ?_⟩
    · rw [interact, hnew, List.append_assoc, List.singleton_append]
    · intro before e after hsplit
      cases before with
      | nil =>
        cases hsplit
        rw [List.append_nil]
      | cons first before =>
        obtain ⟨rfl, htail⟩ := List.cons.inj hsplit
        rw [hanswers before e after htail, List.append_assoc, List.singleton_append]

theorem result_interact [DecidableEq Op] (env : Environment Op Ans) (p : Prog Op Ans α)
    (log : List (Event Op Ans)) :
    ∃ new, (interact env p log).1 = log ++ new ∧ result p new = some (interact env p log).2 := by
  induction p generalizing log with
  | ret a => exact ⟨[], (List.append_nil log).symm, rfl⟩
  | call op k ih =>
    obtain ⟨new, hnew, hresult⟩ := ih (env log op) (log ++ [⟨op, env log op⟩])
    refine ⟨⟨op, env log op⟩ :: new, ?_, ?_⟩
    · rw [interact, hnew, List.append_assoc, List.singleton_append]
    · rw [result, dif_pos rfl]
      exact hresult

variable {σ τ : Type}

/-- A method of an object that is changed in place, which keeps the changes of a call that fails. -/
abbrev Method (Op : Type) (Ans : Op → Type) (ε σ : Type) := ExceptT ε (StateT σ (Prog Op Ans))

def Method.ofProgram (p : ExceptT ε (Prog Op Ans) α) : Method Op Ans ε σ α := ExceptT.mk fun s => do
  let x ← p.run
  return (x, s)

def Method.onPart (part : σ → τ) (put : τ → σ → σ) (m : Method Op Ans ε τ α) :
    Method Op Ans ε σ α :=
  ExceptT.mk fun s => do
    let (x, t) ← m.run (part s)
    return (x, put t s)

def call (env : Environment Op Ans) (m : Method Op Ans ε σ α) (s : σ) (log : List (Event Op Ans)) :
    List (Event Op Ans) × Except ε α × σ := interact env (m.run s) log

variable {m : Method Op Ans ε σ α} {s s' : σ}

theorem call_then {a : α} (h : call env m s log = (log', .ok a, s')) (f : α → Method Op Ans ε σ β) :
    call env (m >>= f) s log = call env (f a) s' log' := by
  refine (interact_bind (p := m.run s) _ log).trans ?_
  change interact env (m.run s) log = _ at h
  rw [h]
  rfl

theorem call_ofProgram {p : ExceptT ε (Prog Op Ans) α} {x : Except ε α}
    (h : interact env p.run log = (log', x)) :
    call env (Method.ofProgram p) s log = (log', x, s) := by
  refine (interact_bind (p := p.run) _ log).trans ?_
  rw [h]
  rfl

theorem call_onPart {part : σ → τ} {put : τ → σ → σ} {m : Method Op Ans ε τ α} {t : τ}
    {x : Except ε α} (h : call env m (part s) log = (log', x, t)) :
    call env (m.onPart part put) s log = (log', x, put t s) := by
  refine (interact_bind (p := m.run (part s)) _ log).trans ?_
  change interact env (m.run (part s)) log = _ at h
  rw [h]
  rfl

end Mst5Client.ProgramEnvironments
