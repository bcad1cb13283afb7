import Mst5Client.MachineRuns
import Mathlib.Data.List.Nodup

set_option autoImplicit false

/-!
# Programs of asynchronous tasks

A task is a program over atomic operations: between two of them any other task may run, and the task
itself may be dropped.
-/
namespace Mst5Client.TaskPrograms
open MachineRuns

inductive Prog (Op : Type) (Ans : Op → Type) (α : Type) : Type where
  | ret (a : α)
  | call (op : Op) (k : Ans op → Prog Op Ans α)

section Syntax
variable {Op : Type} {Ans : Op → Type} {α β : Type}

def Prog.bind : Prog Op Ans α → (α → Prog Op Ans β) → Prog Op Ans β
  | .ret a, f => f a
  | .call op k, f => .call op fun a => (k a).bind f

instance : Monad (Prog Op Ans) where
  pure := .ret
  bind := .bind

def Prog.perform (op : Op) : Prog Op Ans (Ans op) := .call op .ret

end Syntax

structure Effect (Name σ ℓ ω : Type) where
  answer : ω
  shared : σ
  locals : ℓ
  spawned : List Name

/-- A system of tasks. The value a program returns names the program its task goes on with. -/
structure System (Op : Type) (Ans : Op → Type) (Name Choice σ ℓ : Type) where
  code : Name → Prog Op Ans (Option Name)
  perform : σ → ℓ → (op : Op) → Choice → Option (Effect Name σ ℓ (Ans op))
  discard : σ → ℓ → σ × List Name
  noLocals : ℓ
  external : Name → Bool

structure Task (Op : Type) (Ans : Op → Type) (Name ℓ : Type) where
  prog : Prog Op Ans (Option Name)
  locals : ℓ

structure Pool (Op : Type) (Ans : Op → Type) (Name σ ℓ : Type) where
  shared : σ
  tasks : List (Task Op Ans Name ℓ)

inductive Label (Name Choice : Type) where
  | step (task : ℕ) (choice : Choice)
  | drop (task : ℕ)
  | start (name : Name)

def Label.actor {Name Choice : Type} : Label Name Choice → Option ℕ
  | .step task _ => some task
  | .drop task => some task
  | .start _ => none

section Semantics
variable {Op : Type} {Ans : Op → Type} {Name Choice σ ℓ : Type}
variable (S : System Op Ans Name Choice σ ℓ)

def System.task (n : Name) : Task Op Ans Name ℓ := ⟨S.code n, S.noLocals⟩

def System.continueWith (p : Pool Op Ans Name σ ℓ) (i : ℕ) (l : ℓ)
    (prog : Prog Op Ans (Option Name)) : Pool Op Ans Name σ ℓ :=
  let (shared, spawned) := S.discard p.shared l
  ⟨shared, p.tasks.set i ⟨prog, S.noLocals⟩ ++ spawned.map S.task⟩

def System.step (p : Pool Op Ans Name σ ℓ) : Label Name Choice → Option (Pool Op Ans Name σ ℓ)
  | .step i choice =>
    match p.tasks[i]? with
    | none => none
    -- what a program still holds is dropped when it returns
    | some ⟨.ret none, l⟩ => some (S.continueWith p i l (.ret none))
    | some ⟨.ret (some n), l⟩ => some (S.continueWith p i l (S.code n))
    | some ⟨.call op k, l⟩ =>
      match S.perform p.shared l op choice with
      | none => none
      | some e => some ⟨e.shared, p.tasks.set i ⟨k e.answer, e.locals⟩ ++ e.spawned.map S.task⟩
  | .drop i =>
    match p.tasks[i]? with
    | none => none
    | some t => some (S.continueWith p i t.locals (.ret none))
  | .start n => if S.external n then some ⟨p.shared, p.tasks ++ [S.task n]⟩ else none

end Semantics

section Verification
variable {Op : Type} {Ans : Op → Type} {Name Choice σ ℓ ρ α β : Type}
variable {r : ρ} {Q : ρ → α → Prop} {p : Prog Op Ans α} {op : Op} {ε : Type}
  {Q' : ρ → Except ε β → Prop} {f : α → ExceptT ε (Prog Op Ans) β} {P : Op → Prop}

/-- Which operations the holder of a resource may call, and what it holds afterwards. -/
structure Discipline (Op : Type) (Ans : Op → Type) (Name ρ : Type) where
  pre : ρ → Op → Prop
  post : ρ → (op : Op) → Ans op → ρ
  idle : ρ
  ready : Name → ρ → Prop

variable (D : Discipline Op Ans Name ρ)

def Verified (r : ρ) (Q : ρ → α → Prop) : Prog Op Ans α → Prop
  | .ret a => Q r a
  | .call op k => D.pre r op ∧ ∀ a, Verified (D.post r op a) Q (k a)

/-- A task's program, with what it may hand on to the program its task goes on with. -/
abbrev Obeys (r : ρ) (p : Prog Op Ans (Option Name)) : Prop :=
  Verified D r (fun r next => ∀ m ∈ next, D.ready m r) p

variable {D}

theorem Verified.mono {Q' : ρ → α → Prop} (h : Verified D r Q p) (hQ : ∀ r a, Q r a → Q' r a) :
    Verified D r Q' p := by
  induction p generalizing r with
  | ret a => exact hQ r a h
  | call op k ih => exact ⟨h.1, fun a => ih a (h.2 a)⟩

theorem Verified.bind {Q' : ρ → β → Prop} {f : α → Prog Op Ans β} (h : Verified D r Q p)
    (hf : ∀ r a, Q r a → Verified D r Q' (f a)) : Verified D r Q' (p >>= f) := by
  induction p generalizing r with
  | ret a => exact hf r a h
  | call op k ih => exact ⟨h.1, fun a => ih a (h.2 a)⟩

theorem Verified.performThen {Q : ρ → β → Prop} {f : Ans op → Prog Op Ans β} (hpre : D.pre r op)
    (hf : ∀ a, Verified D (D.post r op a) Q (f a)) : Verified D r Q (Prog.perform op >>= f) :=
  ⟨hpre, hf⟩

theorem Verified.tryBind {Q : ρ → Except ε α → Prop} {p : ExceptT ε (Prog Op Ans) α}
    (h : Verified D r Q p.run) (hok : ∀ r a, Q r (.ok a) → Verified D r Q' (f a).run)
    (herror : ∀ r e, Q r (.error e) → Q' r (.error e)) : Verified D r Q' (p >>= f).run := by
  refine h.bind ?_
  intro r a ha
  cases a with
  | ok a => exact hok r a ha
  | error e => exact herror r e ha

theorem Verified.liftThen (h : Verified D r Q p) (hf : ∀ r a, Q r a → Verified D r Q' (f a).run) :
    Verified D r Q' ((ExceptT.lift p : ExceptT ε (Prog Op Ans) α) >>= f).run := by
  refine Verified.bind (Q := fun r x => ∃ a, x = .ok a ∧ Q r a) ?_ ?_
  · exact h.bind fun r a ha => ⟨a, rfl, ha⟩
  · rintro r _ ⟨a, rfl, ha⟩
    exact hf r a ha

/-- The program neither needs nor changes what its task holds. -/
def Neutral (D : Discipline Op Ans Name ρ) (p : Prog Op Ans α) : Prop :=
  ∀ r, Verified D r (fun r' _ => r' = r) p

theorem Neutral.ret (a : α) : Neutral D (pure a : Prog Op Ans α) := fun _ => rfl

theorem Neutral.perform (hpre : ∀ r, D.pre r op) (hpost : ∀ r a, D.post r op a = r) :
    Neutral D (Prog.perform op : Prog Op Ans (Ans op)) := fun r => ⟨hpre r, hpost r⟩

theorem Neutral.bind {f : α → Prog Op Ans β} (hp : Neutral D p) (hf : ∀ a, Neutral D (f a)) :
    Neutral D (p >>= f) := by
  intro r
  refine (hp r).bind ?_
  rintro r' a rfl
  exact hf a r'

theorem Neutral.andThen {f : α → Prog Op Ans β} {Q : ρ → β → Prop} (hp : Neutral D p)
    (hf : ∀ a, Verified D r Q (f a)) : Verified D r Q (p >>= f) := by
  refine (hp r).bind ?_
  rintro r' a rfl
  exact hf a

theorem Neutral.andTry {p : ExceptT ε (Prog Op Ans) α} {Q : ρ → Except ε β → Prop}
    (hp : Neutral D p.run) (hf : ∀ a, Verified D r Q (f a).run) (herror : ∀ e, Q r (.error e)) :
    Verified D r Q (p >>= f).run := by
  refine (hp r).tryBind ?_ ?_
  · rintro r' a rfl
    exact hf a
  · rintro r' e rfl
    exact herror e

theorem Neutral.liftThen {Q : ρ → Except ε β → Prop} (hp : Neutral D p)
    (hf : ∀ a, Verified D r Q (f a).run) :
    Verified D r Q ((ExceptT.lift p : ExceptT ε (Prog Op Ans) α) >>= f).run := by
  refine (hp r).liftThen ?_
  rintro r' a rfl
  exact hf a

/-- Every operation the program may call satisfies `P`. -/
def Uses (P : Op → Prop) : Prog Op Ans α → Prop
  | .ret _ => True
  | .call op k => P op ∧ ∀ a, Uses P (k a)

theorem Uses.perform (h : P op) : Uses P (Prog.perform op : Prog Op Ans (Ans op)) :=
  ⟨h, fun _ => trivial⟩

theorem Uses.mono {P' : Op → Prop} (h : Uses P p) (hP : ∀ op, P op → P' op) : Uses P' p := by
  induction p with
  | ret a => trivial
  | call op k ih => exact ⟨hP op h.1, fun a => ih a (h.2 a)⟩

theorem Uses.verified (h : Uses P p) {I : ρ → Prop}
    (hP : ∀ r op, I r → P op → D.pre r op ∧ ∀ a, I (D.post r op a)) (hr : I r) :
    Verified D r (fun r' _ => I r') p := by
  induction p generalizing r with
  | ret a => exact hr
  | call op k ih =>
    obtain ⟨hpre, hpost⟩ := hP r op hr h.1
    exact ⟨hpre, fun a => ih a (h.2 a) (hpost a)⟩

/-- Everything the program may return satisfies `P`. -/
def Returns (P : α → Prop) : Prog Op Ans α → Prop
  | .ret a => P a
  | .call _ k => ∀ a, Returns P (k a)

theorem Returns.after {P : β → Prop} (p : Prog Op Ans α) {f : α → Prog Op Ans β}
    (h : ∀ a, Returns P (f a)) : Returns P (p >>= f) := by
  induction p with
  | ret a => exact h a
  | call op k ih => exact fun a => ih a

theorem Returns.mono {P P' : α → Prop} (h : Returns P p) (hP : ∀ a, P a → P' a) : Returns P' p := by
  induction p with
  | ret a => exact hP a h
  | call op k ih => exact fun a => ih a (h a)

theorem Verified.and_returns {P : α → Prop} (h : Verified D r Q p) (hP : Returns P p) :
    Verified D r (fun r a => Q r a ∧ P a) p := by
  induction p generalizing r with
  | ret a => exact ⟨h, hP⟩
  | call op k ih => exact ⟨h.1, fun a => ih a (h.2 a) (hP a)⟩

/-- However its operations are answered, within what `A` allows, the program calls one that
satisfies `P`. -/
def Performs (A : (op : Op) → Ans op → Prop) (P : Op → Prop) : Prog Op Ans α → Prop
  | .ret _ => False
  | .call op k => P op ∨ ∀ a, A op a → Performs A P (k a)

def Discipline.prod {ρ' : Type} (D : Discipline Op Ans Name ρ) (D' : Discipline Op Ans Name ρ') :
    Discipline Op Ans Name (ρ × ρ') where
  pre := fun r op => D.pre r.1 op ∧ D'.pre r.2 op
  post := fun r op a => (D.post r.1 op a, D'.post r.2 op a)
  idle := (D.idle, D'.idle)
  ready := fun n r => D.ready n r.1 ∧ D'.ready n r.2

theorem Verified.prod {ρ' : Type} {D' : Discipline Op Ans Name ρ'} {r' : ρ'} {Q' : ρ' → α → Prop}
    (h : Verified D r Q p) (h' : Verified D' r' Q' p) :
    Verified (D.prod D') (r, r') (fun r a => Q r.1 a ∧ Q' r.2 a) p := by
  induction p generalizing r r' with
  | ret a => exact ⟨h, h'⟩
  | call op k ih => exact ⟨⟨h.1, h'.1⟩, fun a => ih a (h.2 a) (h'.2 a)⟩

theorem lookup_set_append {α : Type} {tasks new : List α} {i j : ℕ} {t t' : α}
    (h : (tasks.set i t' ++ new)[j]? = some t) :
    (j = i ∧ t = t') ∨ (j ≠ i ∧ tasks[j]? = some t) ∨ (tasks.length ≤ j ∧ t ∈ new) := by
  by_cases hj : j < tasks.length
  · rw [List.getElem?_append_left (by rwa [List.length_set])] at h
    by_cases hi : j = i
    · subst hi
      rw [List.getElem?_set_self hj] at h
      exact .inl ⟨rfl, (Option.some.inj h).symm⟩
    · rw [List.getElem?_set_ne (Ne.symm hi)] at h
      exact .inr (.inl ⟨hi, h⟩)
  · rw [List.getElem?_append_right (by rw [List.length_set]; omega)] at h
    exact .inr (.inr ⟨by omega, List.mem_of_getElem? h⟩)

end Verification

variable {Op : Type} {Ans : Op → Type} {Name Choice σ ℓ ρ : Type}

/-- The resources that justify the programs of all tasks, each with what its task owns. -/
structure Backed (S : System Op Ans Name Choice σ ℓ) (D : Discipline Op Ans Name ρ)
    (J : σ → (ℕ → ρ × ℓ) → Prop) (p : Pool Op Ans Name σ ℓ) (hs : ℕ → ρ × ℓ) : Prop where
  verified : ∀ i t, p.tasks[i]? = some t → (hs i).2 = t.locals ∧ Obeys D (hs i).1 t.prog
  idle : ∀ i, p.tasks.length ≤ i → hs i = (D.idle, S.noLocals)
  invariant : J p.shared hs

/-- The rule for invariants that know what a task loses when it ends. Only the programs that are
`admitted` are started from outside. -/
structure Sustains (S : System Op Ans Name Choice σ ℓ) (D : Discipline Op Ans Name ρ)
    (admitted : Name → Prop) (J : σ → (ℕ → ρ × ℓ) → Prop) : Prop where
  code : ∀ n r, D.ready n r → Obeys D r (S.code n)
  perform : ∀ s hs i op choice e, J s hs → D.pre (hs i).1 op → S.perform s (hs i).2 op choice = some e →
    J e.shared (Function.update hs i (D.post (hs i).1 op e.answer, e.locals)) ∧ ∀ n ∈ e.spawned,
      D.ready n D.idle
  ended : ∀ s hs i, J s hs → J (S.discard s (hs i).2).1 (Function.update hs i (D.idle, S.noLocals))
  resumed : ∀ s hs i n, J s hs → D.ready n (hs i).1 →
    J (S.discard s (hs i).2).1 (Function.update hs i ((hs i).1, S.noLocals))
  spawned : ∀ s hs i, J s hs → ∀ n ∈ (S.discard s (hs i).2).2, D.ready n D.idle
  external : ∀ n, S.external n = true → admitted n → D.ready n D.idle

variable {S : System Op Ans Name Choice σ ℓ} {D : Discipline Op Ans Name ρ} {admitted : Name → Prop}
  {J : σ → (ℕ → ρ × ℓ) → Prop} {p q : Pool Op Ans Name σ ℓ} {hs : ℕ → ρ × ℓ}

theorem Backed.replace (h : Backed S D J p hs) {i : ℕ} (hi : i < p.tasks.length) {r : ρ} {s : σ}
    {t : Task Op Ans Name ℓ} {spawned : List Name}
    (hcode : ∀ n r, D.ready n r → Obeys D r (S.code n)) (ht : Obeys D r t.prog)
    (hspawned : ∀ n ∈ spawned, D.ready n D.idle) (hJ : J s (Function.update hs i (r, t.locals))) :
    Backed S D J ⟨s, p.tasks.set i t ++ spawned.map S.task⟩ (Function.update hs i (r, t.locals)) := by
  refine ⟨?_, ?_, hJ⟩
  · intro j u hu
    obtain ⟨rfl, rfl⟩ | ⟨hj, hold⟩ | ⟨hj, hnew⟩ := lookup_set_append hu
    · rw [Function.update_self]
      exact ⟨rfl, ht⟩
    · rw [Function.update_of_ne hj]
      exact h.verified j u hold
    · obtain ⟨n, hn, rfl⟩ := List.mem_map.mp hnew
      rw [Function.update_of_ne (by omega), h.idle j hj]
      exact ⟨rfl, hcode n D.idle (hspawned n hn)⟩
  · intro j hj
    simp only [List.length_append, List.length_set] at hj
    rw [Function.update_of_ne (by omega), h.idle j (by omega)]

theorem Sustains.drop (hS : Sustains S D admitted J) (h : Backed S D J p hs) {i : ℕ}
    {t : Task Op Ans Name ℓ} (htask : p.tasks[i]? = some t) :
    ∃ hs', Backed S D J (S.continueWith p i t.locals (.ret none)) hs' := by
  have hJ := hS.ended p.shared hs i h.invariant
  have hspawned := hS.spawned p.shared hs i h.invariant
  rw [(h.verified i t htask).1] at hJ hspawned
  exact ⟨_, h.replace (List.getElem?_eq_some_iff.mp htask).1 hS.code (t := ⟨.ret none, S.noLocals⟩)
    (fun m hm => by cases hm) hspawned hJ⟩

theorem Sustains.step (hS : Sustains S D admitted J) (h : Backed S D J p hs)
    {label : Label Name Choice} (hlabel : ∀ n, label = .start n → admitted n)
    (hstep : S.step p label = some q) : ∃ hs', Backed S D J q hs' := by
  cases label with
  | step i choice =>
    simp only [System.step] at hstep
    split at hstep
    · cases hstep
    · rename_i l htask
      cases hstep
      exact hS.drop h htask
    · rename_i n l htask
      cases hstep
      obtain ⟨hlocals, hready⟩ := h.verified i _ htask
      have hready : D.ready n (hs i).1 := hready n rfl
      have hJ := hS.resumed p.shared hs i n h.invariant hready
      have hspawned := hS.spawned p.shared hs i h.invariant
      rw [hlocals] at hJ hspawned
      exact ⟨_, h.replace (List.getElem?_eq_some_iff.mp htask).1 hS.code (t := S.task n)
        (hS.code n _ hready) hspawned hJ⟩
    · rename_i op k l htask
      split at hstep
      · cases hstep
      · rename_i e he
        cases hstep
        -- the program has been verified to call only what its resources allow
        obtain ⟨hlocals, hpre, hk⟩ := h.verified i _ htask
        rw [← show (hs i).2 = l from hlocals] at he
        obtain ⟨hJ, hspawned⟩ := hS.perform p.shared hs i op choice e h.invariant hpre he
        exact ⟨_, h.replace (List.getElem?_eq_some_iff.mp htask).1 hS.code (t := ⟨k e.answer, e.locals⟩)
          (hk e.answer) hspawned hJ⟩
  | drop i =>
    simp only [System.step] at hstep
    split at hstep
    · cases hstep
    · rename_i t htask
      cases hstep
      exact hS.drop h htask
  | start n =>
    simp only [System.step] at hstep
    split at hstep
    · rename_i hexternal
      cases hstep
      refine ⟨hs, ?_, ?_, h.invariant⟩
      · intro j t ht
        by_cases hj : j < p.tasks.length
        · rw [List.getElem?_append_left hj] at ht
          exact h.verified j t ht
        · rw [List.getElem?_append_right (by omega)] at ht
          obtain rfl := List.mem_singleton.mp (List.mem_of_getElem? ht)
          rw [h.idle j (by omega)]
          exact ⟨rfl, hS.code n D.idle (hS.external n hexternal (hlabel n rfl))⟩
      · intro j hj
        simp only [List.length_append] at hj
        exact h.idle j (by omega)
    · cases hstep

theorem Sustains.run (hS : Sustains S D admitted J) (h : Backed S D J p hs)
    {labels : List (Label Name Choice)} (hlabels : ∀ n, .start n ∈ labels → admitted n)
    (hrun : runFrom S.step p labels = some q) : ∃ hs', Backed S D J q hs' := by
  have hallowed : Allows S.step (fun _ label => ∀ n, label = .start n → admitted n) p labels := by
    refine allows_of_forall ?_
    rintro _ hlabel _ n rfl
    exact hlabels n hlabel
  exact run_invariant (I := fun p => ∃ hs, Backed S D J p hs)
    (fun _ _ _ ⟨_, h⟩ hlabel hstep => hS.step h hlabel hstep) ⟨hs, h⟩ hallowed hrun

variable {ε α β : Type}

/-- A property of programs that sequencing keeps. -/
structure Compositional (K : ∀ α : Type, Prog Op Ans α → Prop) : Prop where
  ret : ∀ {α : Type} (a : α), K α (pure a)
  bind : ∀ {α β : Type} {p : Prog Op Ans α} {f : α → Prog Op Ans β},
    K α p → (∀ a, K β (f a)) → K β (p >>= f)

section Rules
variable {K : ∀ α : Type, Prog Op Ans α → Prop} (hK : Compositional K)
include hK

theorem Compositional.tryBind {p : ExceptT ε (Prog Op Ans) α} {f : α → ExceptT ε (Prog Op Ans) β}
    (hp : K _ p.run) (hf : ∀ a, K _ (f a).run) : K _ (p >>= f).run := by
  refine hK.bind hp fun a => ?_
  cases a with
  | ok a => exact hf a
  | error e => exact hK.ret _

theorem Compositional.lift {p : Prog Op Ans α} (hp : K _ p) :
    K _ (ExceptT.lift p : ExceptT ε (Prog Op Ans) α).run := hK.bind hp fun _ => hK.ret _

end Rules

theorem uses_compositional (P : Op → Prop) :
    Compositional fun _ (p : Prog Op Ans _) => Uses P p where
  ret := fun _ => trivial
  bind := by
    intro α β p f hp hf
    induction p with
    | ret a => exact hf a
    | call op k ih => exact ⟨hp.1, fun a => ih a (hp.2 a)⟩

theorem neutral_compositional (D : Discipline Op Ans Name ρ) :
    Compositional fun _ (p : Prog Op Ans _) => Neutral D p where
  ret := Neutral.ret
  bind := Neutral.bind

theorem stays_compositional (D : Discipline Op Ans Name ρ) (r : ρ) :
    Compositional fun _ (p : Prog Op Ans _) => Verified D r (fun r' _ => r' = r) p where
  ret := fun _ => rfl
  bind := by
    intro α β p f hp hf
    refine Verified.bind hp ?_
    rintro r' a rfl
    exact hf a

variable {τ : Type} {made made' : τ → Prop} {used : List τ} {held : ℕ → Option τ}

/-- Things that are made once, held by at most one task and used by it at most once. -/
structure Tokens (made : τ → Prop) (used : List τ) (held : ℕ → Option τ) : Prop where
  used_nodup : used.Nodup
  used_made : ∀ x ∈ used, made x
  held_made : ∀ i x, held i = some x → made x
  held_unused : ∀ i x, held i = some x → x ∉ used
  held_unique : ∀ i j x, held i = some x → held j = some x → i = j

theorem Tokens.empty (hheld : ∀ i, held i = none) : Tokens made [] held where
  used_nodup := List.nodup_nil
  used_made := nofun
  held_made := fun i x hx => by rw [hheld i] at hx; cases hx
  held_unused := fun _ _ _ => nofun
  held_unique := fun i _ x hx => by rw [hheld i] at hx; cases hx

theorem Tokens.forget (h : Tokens made used held) (i : ℕ) :
    Tokens made used (Function.update held i none) := by
  have hheld : ∀ j x, Function.update held i none j = some x → held j = some x := by
    intro j x hx
    by_cases hj : j = i
    · rw [hj, Function.update_self] at hx
      cases hx
    · rwa [Function.update_of_ne hj] at hx
  exact ⟨h.used_nodup, h.used_made, fun j x hx => h.held_made j x (hheld j x hx),
    fun j x hx => h.held_unused j x (hheld j x hx),
    fun j k x hj hk => h.held_unique j k x (hheld j x hj) (hheld k x hk)⟩

theorem Tokens.make (h : Tokens made used held) (i : ℕ) {x : τ} (hx : ¬ made x)
    (hmade : ∀ y, made' y ↔ made y ∨ y = x) :
    Tokens made' used (Function.update held i (some x)) := by
  have hheld : ∀ j y, Function.update held i (some x) j = some y → (j = i ∧ y = x) ∨
      held j = some y := by
    intro j y hy
    by_cases hj : j = i
    · rw [hj, Function.update_self] at hy
      exact .inl ⟨hj, (Option.some.inj hy).symm⟩
    · rw [Function.update_of_ne hj] at hy
      exact .inr hy
  refine ⟨h.used_nodup, fun y hy => (hmade y).mpr (.inl (h.used_made y hy)), ?_, ?_, ?_⟩
  · intro j y hy
    obtain ⟨_, rfl⟩ | hy := hheld j y hy
    · exact (hmade y).mpr (.inr rfl)
    · exact (hmade y).mpr (.inl (h.held_made j y hy))
  · intro j y hy
    obtain ⟨_, rfl⟩ | hy := hheld j y hy
    · exact fun hused => hx (h.used_made y hused)
    · exact h.held_unused j y hy
  · intro j k y hj hk
    obtain ⟨hji, hy⟩ | hj := hheld j y hj
    · obtain ⟨hki, _⟩ | hk := hheld k y hk
      · rw [hji, hki]
      · exact absurd (h.held_made k y hk) (hy ▸ hx)
    · obtain ⟨_, hy⟩ | hk := hheld k y hk
      · exact absurd (h.held_made j y hj) (hy ▸ hx)
      · exact h.held_unique j k y hj hk

theorem Tokens.use (h : Tokens made used held) {i : ℕ} {x : τ} (hx : held i = some x) :
    Tokens made (used ++ [x]) (Function.update held i none) := by
  have hnew : ∀ y ∈ used ++ [x], y ∈ used ∨ y = x := by
    intro y hy
    simpa using hy
  have hrest := h.forget i
  refine ⟨?_, ?_, hrest.held_made, ?_, hrest.held_unique⟩
  · rw [List.nodup_append_comm]
    exact h.used_nodup.cons (h.held_unused i x hx)
  · intro y hy
    obtain hy | rfl := hnew y hy
    · exact h.used_made y hy
    · exact h.held_made i y hx
  · intro j y hj hy
    obtain hy | rfl := hnew y hy
    · exact hrest.held_unused j y hj hy
    · by_cases hji : j = i
      · rw [hji, Function.update_self] at hj
        cases hj
      · rw [Function.update_of_ne hji] at hj
        exact hji (h.held_unique j i y hj hx)

end Mst5Client.TaskPrograms
