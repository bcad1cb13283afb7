import Mst5Client.TaskPrograms

set_option autoImplicit false

/-!
# Histories of task systems

A run is recorded as the list of what its tasks did, in order.
-/
namespace Mst5Client.TaskTraces
open MachineRuns TaskPrograms

structure Event (Op : Type) (Ans : Op → Type) where
  op : Op
  answer : Ans op

section Results
variable {Op : Type} {Ans : Op → Type} {Name ρ ε α β : Type} [DecidableEq Op]
variable {a : α} {es : List (Event Op Ans)} {op : Op} {p : Prog Op Ans α} {b : β}

def result : Prog Op Ans α → List (Event Op Ans) → Option α
  | .ret a, [] => some a
  | .call op k, e :: es => if h : e.op = op then result (k (h ▸ e.answer)) es else none
  | _, _ => none

theorem result_ret {b : α} (h : result (.ret a : Prog Op Ans α) es = some b) : es = [] ∧ a = b := by
  cases es with
  | nil => exact ⟨rfl, Option.some.inj h⟩
  | cons e es => cases h

theorem result_call {k : Ans op → Prog Op Ans α} {b : α} (h : result (.call op k) es = some b) :
    ∃ a es', es = ⟨op, a⟩ :: es' ∧ result (k a) es' = some b := by
  cases es with
  | nil => cases h
  | cons e es =>
    simp only [result] at h
    split_ifs at h with hop
    obtain ⟨op', a⟩ := e
    cases hop
    exact ⟨a, es, rfl, h⟩

theorem result_bind {f : α → Prog Op Ans β} (h : result (p >>= f) es = some b) :
    ∃ a es₁ es₂, es = es₁ ++ es₂ ∧ result p es₁ = some a ∧ result (f a) es₂ = some b := by
  induction p generalizing es with
  | ret a => exact ⟨a, [], es, rfl, rfl, h⟩
  | call op k ih =>
    obtain ⟨c, es', rfl, hrest⟩ := result_call (k := fun a => k a >>= f) h
    obtain ⟨a, es₁, es₂, rfl, hp, hf⟩ := ih c hrest
    exact ⟨a, ⟨op, c⟩ :: es₁, es₂, rfl, by rw [result, dif_pos rfl]; exact hp, hf⟩

theorem result_tryBind {p : ExceptT ε (Prog Op Ans) α} {f : α → ExceptT ε (Prog Op Ans) β}
    (h : result (p >>= f).run es = some (.ok b)) :
    ∃ a es₁ es₂, es = es₁ ++ es₂ ∧ result p.run es₁ = some (.ok a) ∧
      result (f a).run es₂ = some (.ok b) := by
  obtain ⟨x, es₁, es₂, hes, hp, hf⟩ := result_bind (p := p.run) h
  cases x with
  | ok a => exact ⟨a, es₁, es₂, hes, hp, hf⟩
  | error e => cases (result_ret hf).2

theorem result_lift (h : result (ExceptT.lift p : ExceptT ε (Prog Op Ans) α).run es = some (.ok a)) :
    result p es = some a := by
  obtain ⟨b, es₁, es₂, rfl, hp, hret⟩ := result_bind h
  obtain ⟨rfl, hb⟩ := result_ret hret
  cases hb
  rw [List.append_nil]
  exact hp

theorem result_perform {a : Ans op}
    (h : result (Prog.perform op : Prog Op Ans (Ans op)) es = some a) : es = [⟨op, a⟩] := by
  obtain ⟨b, es', rfl, hret⟩ := result_call h
  obtain ⟨rfl, rfl⟩ := result_ret hret
  rfl

theorem result_performThen {f : Ans op → ExceptT ε (Prog Op Ans) β}
    (h : result ((ExceptT.lift (Prog.perform op) : ExceptT ε (Prog Op Ans) (Ans op)) >>= f).run es =
      some (.ok b)) : ∃ a es', es = ⟨op, a⟩ :: es' ∧ result (f a).run es' = some (.ok b) := by
  obtain ⟨a, es₁, es₂, rfl, hop, hrest⟩ := result_tryBind h
  obtain rfl := result_perform (result_lift hop)
  exact ⟨a, es₂, rfl, hrest⟩

def Discipline.record (D : Discipline Op Ans Name ρ) (r : ρ) (e : Event Op Ans) : ρ :=
  D.post r e.op e.answer

theorem Verified.of_result {D : Discipline Op Ans Name ρ} {r : ρ} {Q : ρ → α → Prop}
    (h : Verified D r Q p) {es : List (Event Op Ans)} (hresult : result p es = some a) :
    Q (es.foldl (Discipline.record D) r) a := by
  induction p generalizing r es with
  | ret b =>
    obtain ⟨rfl, rfl⟩ := result_ret hresult
    exact h
  | call op k ih =>
    obtain ⟨b, es', rfl, hrest⟩ := result_call hresult
    exact ih b (h.2 b) hrest

end Results

section Histories
variable {Op : Type} {Ans : Op → Type} {Name σ ℓ : Type}

inductive Entry (Op : Type) (Ans : Op → Type) (Name : Type) where
  | started (task : ℕ) (name : Name)
  | performed (task : ℕ) (op : Op) (answer : Ans op)
  | dropped (task : ℕ)

abbrev History (Op : Type) (Ans : Op → Type) (Name : Type) := List (Entry Op Ans Name)

def startedFrom : ℕ → List Name → History Op Ans Name
  | _, [] => []
  | i, n :: names => .started i n :: startedFrom (i + 1) names

def Entry.eventOf (i : ℕ) : Entry Op Ans Name → Option (Event Op Ans)
  | .performed j op answer => if j = i then some ⟨op, answer⟩ else none
  | _ => none

def Entry.nameOf (i : ℕ) : Entry Op Ans Name → Option Name
  | .started j n => if j = i then some n else none
  | _ => none

def own (i : ℕ) (history : History Op Ans Name) : List (Event Op Ans) :=
  history.filterMap (Entry.eventOf i)

def startedAs (i : ℕ) (history : History Op Ans Name) : Option Name :=
  history.findSome? (Entry.nameOf i)

variable {i j n : ℕ} {history : History Op Ans Name} {entry : Entry Op Ans Name}

theorem mem_own {e : Event Op Ans} (h : e ∈ own i history) :
    .performed i e.op e.answer ∈ history := by
  obtain ⟨entry, hentry, he⟩ := List.mem_filterMap.mp h
  cases entry with
  | performed k op answer =>
    simp only [Entry.eventOf] at he
    split_ifs at he with hk
    cases he
    rw [← hk]
    exact hentry
  | started k n => cases he
  | dropped k => cases he

theorem own_append (h₁ h₂ : History Op Ans Name) : own i (h₁ ++ h₂) = own i h₁ ++ own i h₂ :=
  List.filterMap_append

theorem own_concat_performed (op : Op) (answer : Ans op) :
    own i (history ++ [.performed j op answer]) = own i history ++ if j = i then [⟨op, answer⟩]
      else [] := by
  rw [own_append]
  split_ifs with h <;> simp [own, Entry.eventOf, h]

theorem own_concat_started (n : Name) : own i (history ++ [.started j n]) = own i history := by
  rw [own_append]
  simp [own, Entry.eventOf]

theorem own_concat_dropped : own i (history ++ [.dropped j]) = own i history := by
  rw [own_append]
  simp [own, Entry.eventOf]

theorem own_startedFrom (n : ℕ) (names : List Name) :
    own i (startedFrom n names : History Op Ans Name) = [] := by
  induction names generalizing n with
  | nil => rfl
  | cons m names ih => exact ih (n + 1)

theorem startedAs_startedFrom (h : i < n) (names : List Name) :
    startedAs i (startedFrom n names : History Op Ans Name) = none := by
  induction names generalizing n with
  | nil => rfl
  | cons m names ih =>
    have hne : Entry.nameOf i (.started n m : Entry Op Ans Name) = none := if_neg (Nat.ne_of_gt h)
    rw [startedAs, startedFrom, List.findSome?_cons, hne]
    exact ih (Nat.lt_succ_of_lt h)

theorem mem_startedFrom {names : List Name} (h : entry ∈ startedFrom n names) :
    ∃ j, ∃ m ∈ names, entry = .started j m := by
  induction names generalizing n with
  | nil => cases h
  | cons m names ih =>
    obtain rfl | h := List.mem_cons.mp h
    · exact ⟨n, m, List.mem_cons_self, rfl⟩
    · obtain ⟨j, m', hm', rfl⟩ := ih h
      exact ⟨j, m', List.mem_cons_of_mem m hm', rfl⟩

theorem notMem_startedFrom {names : List Name} (h : ∀ j m, entry ≠ .started j m) :
    entry ∉ startedFrom n names := by
  intro hmem
  obtain ⟨j, m, -, hentry⟩ := mem_startedFrom hmem
  exact h j m hentry

theorem startedAs_concat (entry : Entry Op Ans Name) :
    startedAs i (history ++ [entry]) = (startedAs i history).or (entry.nameOf i) := by
  rw [startedAs, startedAs, List.findSome?_append, List.findSome?_singleton]

/-- Every entry is justified by those before it. -/
def Causal {α : Type} (P : List α → α → Prop) (l : List α) : Prop :=
  ∀ before x after, l = before ++ x :: after → P before x

section Causal
variable {α : Type} {P : List α → α → Prop} {l : List α}

theorem causal_nil : Causal P [] := by
  intro before x after h
  simp at h

theorem Causal.concat {x : α} (h : Causal P l) (hx : P l x) : Causal P (l ++ [x]) := by
  intro before y after hsplit
  obtain rfl | ⟨after, last, rfl⟩ := List.eq_nil_or_concat after
  · obtain ⟨rfl, hy⟩ := List.append_inj' hsplit rfl
    cases hy
    exact hx
  · refine h before y after ?_
    have hsplit : l ++ [x] = (before ++ y :: after) ++ [last] := by
      rw [hsplit, List.concat_eq_append, List.append_assoc, List.cons_append]
    exact (List.append_inj' hsplit rfl).1

theorem Causal.of_append {l' : List α} (h : Causal P (l ++ l')) : Causal P l := by
  intro before x after hsplit
  exact h before x (after ++ l') (by rw [hsplit, List.append_assoc, List.cons_append])

end Causal

end Histories

section Tracing
variable {Op : Type} {Ans : Op → Type} {Name Choice σ ℓ : Type}

structure Traced (Op : Type) (Ans : Op → Type) (Name σ ℓ : Type) where
  pool : Pool Op Ans Name σ ℓ
  history : History Op Ans Name

def Traced.begin (p : Pool Op Ans Name σ ℓ) : Traced Op Ans Name σ ℓ := ⟨p, []⟩

variable (S : System Op Ans Name Choice σ ℓ)

def entries (p : Pool Op Ans Name σ ℓ) : Label Name Choice → History Op Ans Name
  | .step i choice =>
    match p.tasks[i]? with
    | none => []
    | some ⟨.ret _, l⟩ => startedFrom p.tasks.length (S.discard p.shared l).2
    | some ⟨.call op _, l⟩ =>
      match S.perform p.shared l op choice with
      | none => []
      | some e => .performed i op e.answer :: startedFrom p.tasks.length e.spawned
  | .drop i =>
    match p.tasks[i]? with
    | none => []
    | some t => .dropped i :: startedFrom p.tasks.length (S.discard p.shared t.locals).2
  | .start n => [.started p.tasks.length n]

def traced (t : Traced Op Ans Name σ ℓ) (label : Label Name Choice) :
    Option (Traced Op Ans Name σ ℓ) :=
  (S.step t.pool label).map fun q => ⟨q, t.history ++ entries S t.pool label⟩

/-- The entries that a step adds meet the condition. -/
def Meets (G : σ → History Op Ans Name → Entry Op Ans Name → Prop) (t : Traced Op Ans Name σ ℓ)
    (label : Label Name Choice) : Prop :=
  ∀ entry ∈ entries S t.pool label, G t.pool.shared t.history entry

instance {G : σ → History Op Ans Name → Entry Op Ans Name → Prop} [∀ s h e, Decidable (G s h e)]
    (t : Traced Op Ans Name σ ℓ) (label : Label Name Choice) : Decidable (Meets S G t label) :=
  inferInstanceAs (Decidable (∀ entry ∈ entries S t.pool label, G t.pool.shared t.history entry))

/-- What a step can do: a program performs an operation, returns, is dropped, or a new one starts. -/
inductive Moves (t : Traced Op Ans Name σ ℓ) : Label Name Choice → Traced Op Ans Name σ ℓ → Prop
  | performed {i : ℕ} {choice : Choice} {op : Op} {k : Ans op → Prog Op Ans (Option Name)} {l : ℓ}
      {e : Effect Name σ ℓ (Ans op)} (htask : t.pool.tasks[i]? = some ⟨.call op k, l⟩)
      (he : S.perform t.pool.shared l op choice = some e) :
      Moves t (.step i choice)
        ⟨⟨e.shared, t.pool.tasks.set i ⟨k e.answer, e.locals⟩ ++ e.spawned.map S.task⟩,
          t.history ++ .performed i op e.answer :: startedFrom t.pool.tasks.length e.spawned⟩
  | ended {i : ℕ} {choice : Choice} {l : ℓ} (htask : t.pool.tasks[i]? = some ⟨.ret none, l⟩) :
      Moves t (.step i choice)
        ⟨S.continueWith t.pool i l (.ret none),
          t.history ++ startedFrom t.pool.tasks.length (S.discard t.pool.shared l).2⟩
  | resumed {i : ℕ} {choice : Choice} {n : Name} {l : ℓ}
      (htask : t.pool.tasks[i]? = some ⟨.ret (some n), l⟩) : Moves t (.step i choice)
        ⟨S.continueWith t.pool i l (S.code n),
          t.history ++ startedFrom t.pool.tasks.length (S.discard t.pool.shared l).2⟩
  | dropped {i : ℕ} {task : Task Op Ans Name ℓ} (htask : t.pool.tasks[i]? = some task) :
      Moves t (.drop i)
        ⟨S.continueWith t.pool i task.locals (.ret none),
          t.history ++ .dropped i :: startedFrom t.pool.tasks.length
            (S.discard t.pool.shared task.locals).2⟩
  | started {n : Name} (hexternal : S.external n = true) :
      Moves t (.start n)
        ⟨⟨t.pool.shared, t.pool.tasks ++ [S.task n]⟩, t.history ++ [.started t.pool.tasks.length n]⟩

variable {S} {t u : Traced Op Ans Name σ ℓ} {label : Label Name Choice}

theorem moves_of_traced (h : traced S t label = some u) : Moves S t label u := by
  obtain ⟨q, hstep, rfl⟩ := Option.map_eq_some_iff.mp h
  cases label with
  | step i choice =>
    cases htask : t.pool.tasks[i]? with
    | none => simp [System.step, htask] at hstep
    | some task =>
      obtain ⟨prog, l⟩ := task
      cases prog with
      | ret next =>
        cases next with
        | none =>
          obtain rfl : S.continueWith t.pool i l (.ret none) = q := by
            simpa [System.step, htask] using hstep
          simp only [entries, htask]
          exact .ended htask
        | some n =>
          obtain rfl : S.continueWith t.pool i l (S.code n) = q := by
            simpa [System.step, htask] using hstep
          simp only [entries, htask]
          exact .resumed htask
      | call op k =>
        cases he : S.perform t.pool.shared l op choice with
        | none => simp [System.step, htask, he] at hstep
        | some e =>
          obtain rfl : ⟨e.shared, t.pool.tasks.set i ⟨k e.answer, e.locals⟩ ++ e.spawned.map
            S.task⟩ = q := by
            simpa [System.step, htask, he] using hstep
          simp only [entries, htask, he]
          exact .performed htask he
  | drop i =>
    cases htask : t.pool.tasks[i]? with
    | none => simp [System.step, htask] at hstep
    | some task =>
      obtain rfl : S.continueWith t.pool i task.locals (.ret none) = q := by
        simpa [System.step, htask] using hstep
      simp only [entries, htask]
      exact .dropped htask
  | start n =>
    simp only [System.step] at hstep
    split_ifs at hstep with hexternal
    cases hstep
    exact .started hexternal

theorem call_of_performed {p : Pool Op Ans Name σ ℓ} {i : ℕ} {op : Op} {answer : Ans op}
    (h : .performed i op answer ∈ entries S p label) :
    ∃ k l, p.tasks[i]? = some ⟨.call op k, l⟩ := by
  cases label with
  | step j choice =>
    cases htask : p.tasks[j]? with
    | none => simp [entries, htask] at h
    | some task =>
      obtain ⟨prog, l⟩ := task
      cases prog with
      | ret next =>
        simp only [entries, htask] at h
        exact absurd h (notMem_startedFrom fun _ _ => nofun)
      | call op' k =>
        cases he : S.perform p.shared l op' choice with
        | none => simp [entries, htask, he] at h
        | some e =>
          simp only [entries, htask, he] at h
          obtain heq | h := List.mem_cons.mp h
          · cases heq
            exact ⟨k, l, htask⟩
          · exact absurd h (notMem_startedFrom fun _ _ => nofun)
  | drop j =>
    cases htask : p.tasks[j]? with
    | none => simp [entries, htask] at h
    | some task =>
      simp only [entries, htask] at h
      obtain heq | h := List.mem_cons.mp h
      · cases heq
      · exact absurd h (notMem_startedFrom fun _ _ => nofun)
  | start n => cases List.mem_singleton.mp h

theorem run_of_traced {labels : List (Label Name Choice)} (h : runFrom (traced S) t labels = some u) :
    runFrom S.step t.pool labels = some u.pool := by
  induction labels generalizing t with
  | nil => exact congrArg (Option.map Traced.pool) h
  | cons label labels ih =>
    obtain ⟨v, hstep, hrest⟩ := Option.bind_eq_some_iff.mp h
    obtain ⟨q, hq, rfl⟩ := Option.map_eq_some_iff.mp hstep
    exact Option.bind_eq_some_iff.mpr ⟨q, hq, ih hrest⟩

end Tracing

variable {Op : Type} {Ans : Op → Type} {Name Choice σ ℓ ρ : Type}
variable {i : ℕ} {label : Label Name Choice} {labels : List (Label Name Choice)} {P : ρ → Prop}

/-- A discipline with the resources tasks start with: by name, or by position for the tasks that
are there from the beginning. -/
structure Protocol (Op : Type) (Ans : Op → Type) (Name ρ : Type) extends Discipline Op Ans Name ρ where
  start : Name → ρ
  first : ℕ → ρ

def Protocol.base (D : Protocol Op Ans Name ρ) (history : History Op Ans Name) (i : ℕ) : ρ :=
  match startedAs i history with
  | some n => D.start n
  | none => D.first i

def Protocol.held (D : Protocol Op Ans Name ρ) (history : History Op Ans Name) (i : ℕ) : ρ :=
  (own i history).foldl (Discipline.record D.toDiscipline) (D.base history i)

variable {D : Protocol Op Ans Name ρ} {history : History Op Ans Name}

theorem held_of_startedAs {n : Name} (h : startedAs i history = some n) :
    D.held history i = (own i history).foldl (Discipline.record D.toDiscipline) (D.start n) := by
  rw [Protocol.held, Protocol.base, h]

theorem held_performed (i : ℕ) (op : Op) (answer : Ans op) :
    D.held (history ++ [.performed i op answer]) =
      Function.update (D.held history) i (D.post (D.held history i) op answer) := by
  have hbase : ∀ j, D.base (history ++ [.performed i op answer]) j = D.base history j := by
    intro j
    rw [Protocol.base, startedAs_concat, show (Entry.performed i op answer).nameOf j = none from rfl,
      Option.or_none]
    rfl
  funext j
  by_cases hj : i = j
  · subst hj
    rw [Function.update_self, Protocol.held, own_concat_performed, if_pos rfl, List.foldl_append, hbase]
    rfl
  · rw [Function.update_of_ne (Ne.symm hj), Protocol.held, own_concat_performed, if_neg hj,
      List.append_nil, hbase]
    rfl

theorem held_dropped (i : ℕ) : D.held (history ++ [.dropped i]) = D.held history := by
  funext j
  rw [Protocol.held, own_concat_dropped, Protocol.base, startedAs_concat,
    show (Entry.dropped i).nameOf j = none from rfl, Option.or_none]
  rfl

theorem held_append {more : History Op Ans Name} (hown : own i more = [])
    (hname : startedAs i more = none) : D.held (history ++ more) i = D.held history i := by
  have hbase : startedAs i (history ++ more) = startedAs i history := by
    rw [startedAs, List.findSome?_append, show more.findSome? (Entry.nameOf i) = none from hname,
      Option.or_none]
    rfl
  rw [Protocol.held, own_append, hown, List.append_nil, Protocol.base, hbase]
  rfl

theorem held_startedFrom {n : ℕ} (h : i < n) (names : List Name) :
    D.held (history ++ startedFrom n names) i = D.held history i :=
  held_append (own_startedFrom n names) (startedAs_startedFrom h names)

structure Fresh (D : Protocol Op Ans Name ρ) (history : History Op Ans Name) (i : ℕ) : Prop where
  unnamed : startedAs i history = none
  inactive : own i history = []
  idle : D.first i = D.idle

theorem Fresh.held (h : Fresh D history i) : D.held history i = D.idle := by
  rw [Protocol.held, Protocol.base, h.unnamed, h.inactive]
  exact h.idle

theorem Fresh.performed {i j : ℕ} (h : Fresh D history j) (hij : i ≠ j) (op : Op) (answer : Ans op) :
    Fresh D (history ++ [.performed i op answer]) j where
  unnamed := by rw [startedAs_concat, h.unnamed]; rfl
  inactive := by rw [own_concat_performed, if_neg hij, h.inactive]; rfl
  idle := h.idle

theorem Fresh.started {i j : ℕ} (h : Fresh D history j) (hij : i ≠ j) (n : Name) :
    Fresh D (history ++ [.started i n]) j where
  unnamed := by rw [startedAs_concat, h.unnamed, Entry.nameOf, if_neg hij]; rfl
  inactive := by rw [own_concat_started, h.inactive]
  idle := h.idle

theorem Fresh.dropped {j : ℕ} (h : Fresh D history j) (i : ℕ) :
    Fresh D (history ++ [.dropped i]) j where
  unnamed := by rw [startedAs_concat, h.unnamed]; rfl
  inactive := by rw [own_concat_dropped, h.inactive]
  idle := h.idle

theorem held_started (h : Fresh D history i) (n : Name) :
    D.held (history ++ [.started i n]) = Function.update (D.held history) i (D.start n) := by
  funext j
  rw [Protocol.held, own_concat_started, Protocol.base, startedAs_concat, Entry.nameOf]
  by_cases hj : i = j
  · subst hj
    rw [Function.update_self, if_pos rfl, h.unnamed, h.inactive]
    rfl
  · rw [Function.update_of_ne (Ne.symm hj), if_neg hj, Option.or_none]
    rfl

theorem held_spawned {names : List Name} {n : Name} (hn : n ∈ names) {k : ℕ}
    (hfresh : ∀ j, k ≤ j → Fresh D history j) :
    ∃ j, D.held (history ++ startedFrom k names) j = D.start n := by
  induction names generalizing history k with
  | nil => cases hn
  | cons m names ih =>
    have hsplit : history ++ startedFrom k (m :: names) = (history ++ [.started k m]) ++
        startedFrom (k + 1) names := by
      rw [startedFrom, List.append_assoc, List.singleton_append]
    rw [hsplit]
    obtain rfl | hrest := List.mem_cons.mp hn
    · refine ⟨k, ?_⟩
      rw [held_startedFrom (Nat.lt_succ_self k), held_started (hfresh k (Nat.le_refl k)),
        Function.update_self]
    · refine ih hrest fun j hj => ?_
      exact (hfresh j (Nat.le_of_succ_le hj)).started (Nat.ne_of_lt hj) m

/-- What the tasks have done so far justifies what their programs still do, in the sense of `V`. -/
structure Upheld (D : Protocol Op Ans Name ρ) (V : ρ → Prog Op Ans (Option Name) → Prop)
    (J : σ → History Op Ans Name → (ℕ → ρ) → Prop) (t : Traced Op Ans Name σ ℓ) : Prop where
  programs : ∀ i task, t.pool.tasks[i]? = some task → V (D.held t.history i) task.prog
  fresh : ∀ i, t.pool.tasks.length ≤ i → Fresh D t.history i
  invariant : J t.pool.shared t.history (D.held t.history)

structure Upholds (S : System Op Ans Name Choice σ ℓ) (D : Protocol Op Ans Name ρ)
    (G : σ → History Op Ans Name → Entry Op Ans Name → Prop)
    (V : ρ → Prog Op Ans (Option Name) → Prop) (J : σ → History Op Ans Name → (ℕ → ρ) → Prop) :
    Prop where
  call : ∀ r op k, V r (.call op k) → D.pre r op ∧ ∀ a, V (D.post r op a) (k a)
  resumed : ∀ r n, V r (.ret (some n)) → V r (S.code n)
  cut : ∀ s h i, G s h (.dropped i) → V (D.held h i) (.ret none)
  perform : ∀ s h rs i l op choice e, J s h rs → D.pre (rs i) op → S.perform s l op choice = some e →
    G s h (.performed i op e.answer) →
    J e.shared (h ++ [.performed i op e.answer]) (Function.update rs i (D.post (rs i) op e.answer)) ∧
      ∀ n ∈ e.spawned, V (D.start n) (S.code n)
  discard : ∀ s h rs l, J s h rs → J (S.discard s l).1 h rs ∧ ∀ n ∈ (S.discard s l).2,
    V (D.start n) (S.code n)
  started : ∀ s h rs i n, J s h rs → rs i = D.idle →
    J s (h ++ [.started i n]) (Function.update rs i (D.start n))
  dropped : ∀ s h rs i, J s h rs → G s h (.dropped i) → J s (h ++ [.dropped i]) rs
  external : ∀ s h i n, S.external n = true → G s h (.started i n) → V (D.start n) (S.code n)

section Upholds
variable {S : System Op Ans Name Choice σ ℓ} {V : ρ → Prog Op Ans (Option Name) → Prop}
  {J : σ → History Op Ans Name → (ℕ → ρ) → Prop}
  {G : σ → History Op Ans Name → Entry Op Ans Name → Prop}
  {t u : Traced Op Ans Name σ ℓ}

theorem Upholds.spawn (hS : Upholds S D G V J) {names : List Name}
    (hcode : ∀ n ∈ names, V (D.start n) (S.code n)) {s : σ} {tasks : List (Task Op Ans Name ℓ)}
    (h : Upheld D V J ⟨⟨s, tasks⟩, history⟩) :
    Upheld D V J ⟨⟨s, tasks ++ names.map S.task⟩, history ++ startedFrom tasks.length names⟩ := by
  induction names generalizing tasks history with
  | nil =>
    rw [List.map_nil, List.append_nil, startedFrom, List.append_nil]
    exact h
  | cons n names ih =>
    have hfresh := h.fresh tasks.length (Nat.le_refl _)
    have hfirst : Upheld D V J ⟨⟨s, tasks ++ [S.task n]⟩, history ++ [.started tasks.length n]⟩ := by
      refine ⟨?_, ?_, ?_⟩
      · intro i task htask
        rw [held_started hfresh]
        by_cases hi : i < tasks.length
        · rw [List.getElem?_append_left hi] at htask
          rw [Function.update_of_ne (Nat.ne_of_lt hi)]
          exact h.programs i task htask
        · obtain ⟨hlen, hget⟩ := List.getElem?_eq_some_iff.mp htask
          have hi : i = tasks.length := by
            simp only [List.length_append, List.length_singleton] at hlen
            omega
          subst hi
          rw [List.getElem_concat_length rfl] at hget
          subst hget
          rw [Function.update_self]
          exact hcode n List.mem_cons_self
      · intro i hi
        simp only [List.length_append, List.length_singleton] at hi
        exact (h.fresh i (by simp only; omega)).started (by omega) n
      · rw [held_started hfresh]
        exact hS.started _ _ _ _ n h.invariant hfresh.held
    have hrest := ih (fun m hm => hcode m (List.mem_cons_of_mem n hm)) hfirst
    simpa only [List.map_cons, startedFrom, List.append_assoc, List.singleton_append,
      List.length_append, List.length_singleton] using hrest

theorem Upheld.set (h : Upheld D V J t) {i : ℕ} (hi : i < t.pool.tasks.length) {s : σ}
    (task : Task Op Ans Name ℓ) {h' : History Op Ans Name}
    (hothers : ∀ j ≠ i, D.held h' j = D.held t.history j) (htask : V (D.held h' i) task.prog)
    (hfresh : ∀ j ≠ i, Fresh D t.history j → Fresh D h' j) (hJ : J s h' (D.held h')) :
    Upheld D V J ⟨⟨s, t.pool.tasks.set i task⟩, h'⟩ := by
  refine ⟨?_, ?_, hJ⟩
  · intro j other hj
    by_cases hji : i = j
    · subst hji
      rw [List.getElem?_set_self hi] at hj
      cases hj
      exact htask
    · rw [List.getElem?_set_ne hji] at hj
      rw [hothers j (Ne.symm hji)]
      exact h.programs j other hj
  · intro j hj
    simp only [List.length_set] at hj
    exact hfresh j (by omega) (h.fresh j hj)

theorem Upholds.continueWith (hS : Upholds S D G V J) (h : Upheld D V J t) {i : ℕ}
    (hi : i < t.pool.tasks.length) (l : ℓ) {prog : Prog Op Ans (Option Name)}
    (hprog : V (D.held t.history i) prog) :
    Upheld D V J ⟨S.continueWith t.pool i l prog,
      t.history ++ startedFrom t.pool.tasks.length (S.discard t.pool.shared l).2⟩ := by
  obtain ⟨hJ, hcode⟩ := hS.discard t.pool.shared t.history _ l h.invariant
  have hset := h.set hi ⟨prog, S.noLocals⟩ (fun _ _ => rfl) hprog (fun _ _ hj => hj) hJ
  have hspawn := hS.spawn hcode hset
  rw [List.length_set] at hspawn
  exact hspawn

theorem Upholds.step (hS : Upholds S D G V J) (h : Upheld D V J t) {label : Label Name Choice}
    (hmeets : Meets S G t label) (hstep : traced S t label = some u) : Upheld D V J u := by
  cases moves_of_traced hstep with
  | @performed i choice op k l e htask he =>
    have hi := (List.getElem?_eq_some_iff.mp htask).1
    have hguard : G t.pool.shared t.history (.performed i op e.answer) := by
      refine hmeets _ ?_
      simp only [entries, htask, he]
      exact List.mem_cons_self
    -- the program calls only what its task's history allows
    obtain ⟨hpre, hk⟩ := hS.call _ _ _ (h.programs i _ htask)
    obtain ⟨hJ, hcode⟩ := hS.perform _ _ _ i l op choice e h.invariant hpre he hguard
    have hset : Upheld D V J ⟨⟨e.shared, t.pool.tasks.set i ⟨k e.answer, e.locals⟩⟩,
        t.history ++ [.performed i op e.answer]⟩ := by
      refine h.set hi _ ?_ ?_ ?_ ?_
      · intro j hj
        rw [held_performed, Function.update_of_ne hj]
      · rw [held_performed, Function.update_self]
        exact hk e.answer
      · exact fun j hj hfresh => hfresh.performed (Ne.symm hj) op e.answer
      · rw [held_performed]
        exact hJ
    have hspawn := hS.spawn hcode hset
    rw [List.length_set, List.append_assoc] at hspawn
    exact hspawn
  | ended htask =>
    exact hS.continueWith h (List.getElem?_eq_some_iff.mp htask).1 _ (h.programs _ _ htask)
  | @resumed i choice n l htask =>
    have hprog := hS.resumed _ n (h.programs i _ htask)
    exact hS.continueWith h (List.getElem?_eq_some_iff.mp htask).1 l hprog
  | @dropped i task htask =>
    have hguard : G t.pool.shared t.history (.dropped i) := by
      refine hmeets _ ?_
      simp only [entries, htask]
      exact List.mem_cons_self
    have hdropped : Upheld D V J ⟨t.pool, t.history ++ [.dropped i]⟩ := by
      refine ⟨?_, fun j hj => (h.fresh j hj).dropped i, ?_⟩
      · rw [held_dropped]
        exact h.programs
      · rw [held_dropped]
        exact hS.dropped _ _ _ i h.invariant hguard
    have hended : V (D.held (t.history ++ [.dropped i]) i) (.ret none) := by
      rw [held_dropped]
      exact hS.cut _ _ i hguard
    have hcontinue := hS.continueWith hdropped (List.getElem?_eq_some_iff.mp htask).1 task.locals hended
    rw [List.append_assoc] at hcontinue
    exact hcontinue
  | @started n hexternal =>
    have hcode : ∀ m ∈ [n], V (D.start m) (S.code m) := by
      intro m hm
      obtain rfl := List.mem_singleton.mp hm
      exact hS.external _ _ _ m hexternal (hmeets _ List.mem_cons_self)
    exact hS.spawn hcode h

end Upholds

/-- The histories of all tasks justify their programs. -/
abbrev Accounted (D : Protocol Op Ans Name ρ) (J : σ → History Op Ans Name → (ℕ → ρ) → Prop)
    (t : Traced Op Ans Name σ ℓ) : Prop := Upheld D (Obeys D.toDiscipline) J t

structure Maintains (S : System Op Ans Name Choice σ ℓ) (D : Protocol Op Ans Name ρ)
    (G : σ → History Op Ans Name → Entry Op Ans Name → Prop)
    (J : σ → History Op Ans Name → (ℕ → ρ) → Prop) : Prop where
  code : ∀ n r, D.ready n r → Obeys D.toDiscipline r (S.code n)
  perform : ∀ s h rs i l op choice e, J s h rs → D.pre (rs i) op → S.perform s l op choice = some e →
    G s h (.performed i op e.answer) →
    J e.shared (h ++ [.performed i op e.answer]) (Function.update rs i (D.post (rs i) op e.answer)) ∧
      ∀ n ∈ e.spawned, D.ready n (D.start n)
  discard : ∀ s h rs l, J s h rs → J (S.discard s l).1 h rs ∧ ∀ n ∈ (S.discard s l).2,
    D.ready n (D.start n)
  started : ∀ s h rs i n, J s h rs → rs i = D.idle →
    J s (h ++ [.started i n]) (Function.update rs i (D.start n))
  dropped : ∀ s h rs i, J s h rs → G s h (.dropped i) → J s (h ++ [.dropped i]) rs
  external : ∀ n, S.external n = true → D.ready n (D.start n)

variable {S : System Op Ans Name Choice σ ℓ} {J : σ → History Op Ans Name → (ℕ → ρ) → Prop}
  {G : σ → History Op Ans Name → Entry Op Ans Name → Prop} {t u : Traced Op Ans Name σ ℓ}

theorem Maintains.upholds (hS : Maintains S D G J) : Upholds S D G (Obeys D.toDiscipline) J where
  call := fun _ _ _ h => h
  resumed := fun r n h => hS.code n r (h n rfl)
  cut := fun _ _ _ _ => nofun
  perform := by
    intro s h rs i l op choice e hJ hpre he hguard
    obtain ⟨hJ, hready⟩ := hS.perform s h rs i l op choice e hJ hpre he hguard
    exact ⟨hJ, fun n hn => hS.code n _ (hready n hn)⟩
  discard := by
    intro s h rs l hJ
    obtain ⟨hJ, hready⟩ := hS.discard s h rs l hJ
    exact ⟨hJ, fun n hn => hS.code n _ (hready n hn)⟩
  started := hS.started
  dropped := hS.dropped
  external := fun _ _ _ n hexternal _ => hS.code n _ (hS.external n hexternal)

theorem Maintains.step (hS : Maintains S D G J) (h : Accounted D J t) (hmeets : Meets S G t label)
    (hstep : traced S t label = some u) : Accounted D J u :=
  hS.upholds.step h hmeets hstep

theorem Maintains.run (hS : Maintains S D G J) (h : Accounted D J t)
    (hmeets : Allows (traced S) (Meets S G) t labels) (hrun : runFrom (traced S) t labels = some u) :
    Accounted D J u :=
  run_invariant (fun _ _ _ h hmeets hstep => hS.step h hmeets hstep) h hmeets hrun

theorem Maintains.run_always (hS : Maintains S D (fun _ _ _ => True) J) (h : Accounted D J t)
    (hrun : runFrom (traced S) t labels = some u) : Accounted D J u :=
  runFrom_invariant (fun _ _ _ h hstep => hS.step h (fun _ _ => trivial) hstep) h hrun

/-- A task that was dropped does nothing any more, so it keeps what it held then. -/
structure Inert (D : Protocol Op Ans Name ρ) (P : ρ → Prop) (t : Traced Op Ans Name σ ℓ) (i : ℕ) :
    Prop where
  exists_task : i < t.pool.tasks.length
  ended : ∀ task, t.pool.tasks[i]? = some task → task.prog = .ret none
  held : P (D.held t.history i)

theorem Inert.keep {j : ℕ} (h : Inert D P t i) {s : σ} {task : Task Op Ans Name ℓ}
    (added : History Op Ans Name) {names : List Name} (hended : i = j → task.prog = .ret none)
    (hown : own i added = []) (hname : startedAs i added = none) :
    Inert D P ⟨⟨s, t.pool.tasks.set j task ++ names.map S.task⟩,
      t.history ++ (added ++ startedFrom t.pool.tasks.length names)⟩ i := by
  refine ⟨?_, ?_, ?_⟩
  · rw [List.length_append, List.length_set]
    exact Nat.lt_add_right _ h.exists_task
  · intro other hother
    obtain ⟨hij, rfl⟩ | ⟨-, hold⟩ | ⟨hnew, -⟩ := lookup_set_append hother
    · exact hended hij
    · exact h.ended other hold
    · exact absurd h.exists_task (Nat.not_lt_of_le hnew)
  · rw [held_append]
    · exact h.held
    · rw [own_append, hown, own_startedFrom]
      rfl
    · rw [startedAs, List.findSome?_append, show added.findSome? (Entry.nameOf i) = none from hname]
      exact startedAs_startedFrom h.exists_task names

theorem Inert.step (hG : ∀ s h i, G s h (.dropped i) → P (D.held h i))
    (h : ∀ i, .dropped i ∈ t.history → Inert D P t i) (hmeets : Meets S G t label)
    (hstep : traced S t label = some u) (i : ℕ) (hi : .dropped i ∈ u.history) : Inert D P u i := by
  cases moves_of_traced hstep with
  | @performed j choice op k l e htask he =>
    obtain hold | hnew := List.mem_append.mp hi
    · have hij : j ≠ i := by
        rintro rfl
        cases (h j hold).ended _ htask
      refine (h i hold).keep [.performed j op e.answer] (fun heq => absurd heq.symm hij) ?_ rfl
      simp [own, Entry.eventOf, hij]
    · obtain heq | hnew := List.mem_cons.mp hnew
      · cases heq
      · exact absurd hnew (notMem_startedFrom fun _ _ => nofun)
  | ended htask =>
    obtain hold | hnew := List.mem_append.mp hi
    · exact (h i hold).keep [] (fun _ => rfl) rfl rfl
    · exact absurd hnew (notMem_startedFrom fun _ _ => nofun)
  | @resumed j choice n l htask =>
    obtain hold | hnew := List.mem_append.mp hi
    · have hij : j ≠ i := by
        rintro rfl
        cases (h j hold).ended _ htask
      exact (h i hold).keep [] (fun heq => absurd heq.symm hij) rfl rfl
    · exact absurd hnew (notMem_startedFrom fun _ _ => nofun)
  | @dropped j task htask =>
    by_cases hij : i = j
    · subst hij
      -- what it holds now is what the guard was asked about
      have hguard : G t.pool.shared t.history (.dropped i) := by
        refine hmeets _ ?_
        simp only [entries, htask]
        exact List.mem_cons_self
      have hlt := (List.getElem?_eq_some_iff.mp htask).1
      refine ⟨?_, ?_, ?_⟩
      · rw [System.continueWith, List.length_append, List.length_set]
        exact Nat.lt_add_right _ hlt
      · intro other hother
        obtain ⟨-, rfl⟩ | ⟨hne, -⟩ | ⟨hnew, -⟩ := lookup_set_append hother
        · rfl
        · exact absurd rfl hne
        · exact absurd hlt (Nat.not_lt_of_le hnew)
      · rw [← List.singleton_append, ← List.append_assoc, held_startedFrom hlt, held_dropped]
        exact hG _ _ i hguard
    · obtain hold | hnew := List.mem_append.mp hi
      · exact (h i hold).keep [.dropped j] (fun _ => rfl) rfl rfl
      · obtain heq | hnew := List.mem_cons.mp hnew
        · cases heq
          exact absurd rfl hij
        · exact absurd hnew (notMem_startedFrom fun _ _ => nofun)
  | @started n hexternal =>
    obtain hold | hnew := List.mem_append.mp hi
    · have hnot : i ≠ t.pool.tasks.length := Nat.ne_of_lt (h i hold).exists_task
      have hkept : Inert D P ⟨⟨t.pool.shared, t.pool.tasks.set t.pool.tasks.length (S.task n) ++
          [n].map S.task⟩, t.history ++ ([] ++ startedFrom t.pool.tasks.length [n])⟩ i :=
        (h i hold).keep [] (fun heq => absurd heq hnot) rfl rfl
      rw [List.set_eq_of_length_le (Nat.le_refl _)] at hkept
      exact hkept
    · cases List.mem_singleton.mp hnew

theorem inert_of_dropped (hG : ∀ s h i, G s h (.dropped i) → P (D.held h i))
    (h : ∀ i, .dropped i ∈ t.history → Inert D P t i)
    (hmeets : Allows (traced S) (Meets S G) t labels) (hrun : runFrom (traced S) t labels = some u) :
    ∀ i, .dropped i ∈ u.history → Inert D P u i :=
  run_invariant (I := fun t => ∀ i, .dropped i ∈ t.history → Inert D P t i)
    (fun _ _ _ h hmeets hstep => Inert.step hG h hmeets hstep) h hmeets hrun

/-- What a task's history tells about what it owns. -/
structure Carries (S : System Op Ans Name Choice σ ℓ) (L : ℕ → History Op Ans Name → ℓ → Prop) :
    Prop where
  nothing : ∀ i h, L i h S.noLocals
  others : ∀ i h more l, own i more = [] → startedAs i more = none → L i h l → L i (h ++ more) l
  perform : ∀ i h s l op choice e, L i h l → S.perform s l op choice = some e →
    L i (h ++ [.performed i op e.answer]) e.locals

section Carries
variable {L : ℕ → History Op Ans Name → ℓ → Prop}

theorem Carries.keep (hL : Carries S L)
    (h : ∀ i task, t.pool.tasks[i]? = some task → L i t.history task.locals) {j : ℕ}
    (new : Task Op Ans Name ℓ) (added : History Op Ans Name) {names : List Name}
    (hnew : L j (t.history ++ added) new.locals) (hown : ∀ i ≠ j, own i added = [])
    (hname : ∀ i, startedAs i added = none) (hj : j < t.pool.tasks.length) (i : ℕ)
    (task : Task Op Ans Name ℓ)
    (htask : (t.pool.tasks.set j new ++ names.map S.task)[i]? = some task) :
    L i (t.history ++ (added ++ startedFrom t.pool.tasks.length names)) task.locals := by
  rw [← List.append_assoc]
  obtain ⟨rfl, rfl⟩ | ⟨hij, hold⟩ | ⟨-, hspawned⟩ := lookup_set_append htask
  · exact hL.others _ _ _ _ (own_startedFrom _ _) (startedAs_startedFrom hj _) hnew
  · have hi := (List.getElem?_eq_some_iff.mp hold).1
    refine hL.others _ _ _ _ (own_startedFrom _ _) (startedAs_startedFrom hi _) ?_
    exact hL.others _ _ _ _ (hown i hij) (hname i) (h i task hold)
  · obtain ⟨n, -, rfl⟩ := List.mem_map.mp hspawned
    exact hL.nothing _ _

theorem Carries.step (hL : Carries S L)
    (h : ∀ i task, t.pool.tasks[i]? = some task → L i t.history task.locals)
    {label : Label Name Choice} (hstep : traced S t label = some u) :
    ∀ i task, u.pool.tasks[i]? = some task → L i u.history task.locals := by
  cases moves_of_traced hstep with
  | @performed j choice op k l e htask he =>
    have hnew := hL.perform j t.history t.pool.shared l op choice e (h j _ htask) he
    refine hL.keep h ⟨k e.answer, e.locals⟩ _ hnew ?_
      (fun _ => rfl) (List.getElem?_eq_some_iff.mp htask).1
    intro i hij
    simp [own, Entry.eventOf, Ne.symm hij]
  | ended htask =>
    exact hL.keep h _ [] (hL.nothing _ _) (fun _ _ => rfl) (fun _ => rfl)
      (List.getElem?_eq_some_iff.mp htask).1
  | resumed htask =>
    exact hL.keep h _ [] (hL.nothing _ _) (fun _ _ => rfl) (fun _ => rfl)
      (List.getElem?_eq_some_iff.mp htask).1
  | @dropped j task htask =>
    exact hL.keep h _ [.dropped j] (hL.nothing _ _) (fun _ _ => rfl) (fun _ => rfl)
      (List.getElem?_eq_some_iff.mp htask).1
  | @started n hexternal =>
    intro i task htask
    by_cases hi : i < t.pool.tasks.length
    · have hnot : startedAs i ([.started t.pool.tasks.length n] : History Op Ans Name) = none :=
        startedAs_startedFrom hi [n]
      rw [List.getElem?_append_left hi] at htask
      exact hL.others _ _ _ _ rfl hnot (h i task htask)
    · rw [List.getElem?_append_right (Nat.le_of_not_lt hi)] at htask
      obtain rfl := List.mem_singleton.mp (List.mem_of_getElem? htask)
      exact hL.nothing _ _

theorem Carries.run (hL : Carries S L)
    (h : ∀ i task, t.pool.tasks[i]? = some task → L i t.history task.locals)
    {labels : List (Label Name Choice)} (hrun : runFrom (traced S) t labels = some u) :
    ∀ i task, u.pool.tasks[i]? = some task → L i u.history task.locals :=
  runFrom_invariant (I := fun t => ∀ i task, t.pool.tasks[i]? = some task → L i t.history task.locals)
    (fun _ _ _ h hstep => hL.step h hstep) h hrun

end Carries

theorem history_invariant {I : σ → History Op Ans Name → Prop}
    (hperform : ∀ s h i l op choice e, I s h → S.perform s l op choice = some e →
      I e.shared (h ++ [.performed i op e.answer]))
    (hdiscard : ∀ s h l, I s h → I (S.discard s l).1 h)
    (hstarted : ∀ s h i n, I s h → I s (h ++ [.started i n]))
    (hdropped : ∀ s h i, I s h → I s (h ++ [.dropped i])) (h : I t.pool.shared t.history)
    (hrun : runFrom (traced S) t labels = some u) : I u.pool.shared u.history := by
  have hspawn : ∀ s h names i, I s h → I s (h ++ startedFrom i names) := by
    intro s h names
    induction names generalizing h with
    | nil =>
      intro i hI
      rw [startedFrom, List.append_nil]
      exact hI
    | cons n names ih =>
      intro i hI
      have hrest := ih _ (i + 1) (hstarted s h i n hI)
      rwa [List.append_assoc] at hrest
  refine runFrom_invariant (I := fun t => I t.pool.shared t.history) ?_ h hrun
  intro t label u hI hstep
  cases moves_of_traced hstep with
  | @performed i choice op k l e htask he =>
    have hnew := hspawn _ _ e.spawned t.pool.tasks.length (hperform _ _ i l op choice e hI he)
    rwa [List.append_assoc] at hnew
  | ended htask => exact hspawn _ _ _ _ (hdiscard _ _ _ hI)
  | resumed htask => exact hspawn _ _ _ _ (hdiscard _ _ _ hI)
  | @dropped i task htask =>
    have hnew := hspawn _ _ (S.discard t.pool.shared task.locals).2 t.pool.tasks.length
      (hdropped _ _ i (hdiscard _ _ task.locals hI))
    rwa [List.append_assoc] at hnew
  | started hexternal => exact hstarted _ _ _ _ hI

end Mst5Client.TaskTraces
