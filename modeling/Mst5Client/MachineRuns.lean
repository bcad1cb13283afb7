import Mathlib.Logic.Relation
import Mathlib.Data.List.Basic

set_option autoImplicit false

/-!
# Runs of a machine

A deterministic machine answers every input and moves on, whether or not the answer is an error;
`trace` keeps the state after each input with its answer.
-/
namespace Mst5Client.MachineRuns

section Deterministic
variable {σ α β : Type*} (f : σ → α → σ × β)

def trace : σ → List α → List (σ × β)
  | _, [] => []
  | s, a :: as => f s a :: trace (f s a).1 as

def final (s : σ) (as : List α) : σ := as.foldl (fun s a => (f s a).1) s

@[simp] theorem final_nil (s : σ) : final f s [] = s := rfl

@[simp] theorem final_cons (s : σ) (a : α) (as : List α) :
    final f s (a :: as) = final f (f s a).1 as := rfl

theorem final_append (s : σ) (as bs : List α) : final f s (as ++ bs) = final f (final f s as) bs :=
  List.foldl_append

@[simp] theorem length_trace (s : σ) (as : List α) : (trace f s as).length = as.length := by
  induction as generalizing s with
  | nil => rfl
  | cons a as ih => rw [trace, List.length_cons, List.length_cons, ih]

/-- Every input of a run meets `P` in the state it comes to. -/
def Along (P : σ → α → Prop) : σ → List α → Prop
  | _, [] => True
  | s, a :: as => P s a ∧ Along P (f s a).1 as

instance decidableAlong {P : σ → α → Prop} [∀ s a, Decidable (P s a)] :
    ∀ (s : σ) (as : List α), Decidable (Along f P s as)
  | _, [] => isTrue trivial
  | s, a :: as =>
    have : Decidable (Along f P (f s a).1 as) := decidableAlong (f s a).1 as
    inferInstanceAs (Decidable (_ ∧ _))

variable {f} {P : σ → α → Prop} {s : σ} {as bs : List α}

theorem along_append : Along f P s (as ++ bs) ↔ Along f P s as ∧ Along f P (final f s as) bs := by
  induction as generalizing s with
  | nil => exact ⟨fun h => ⟨trivial, h⟩, fun h => h.2⟩
  | cons a as ih =>
    rw [List.cons_append, Along, Along, ih, and_assoc]
    rfl

theorem along_of_forall (h : ∀ a ∈ as, ∀ s, P s a) : Along f P s as := by
  induction as generalizing s with
  | nil => trivial
  | cons a as ih => exact ⟨h a List.mem_cons_self s, ih fun b hb => h b (List.mem_cons_of_mem a hb)⟩

theorem along_invariant {I : σ → Prop} (hstep : ∀ s a, I s → P s a → I (f s a).1) (hs : I s)
    (h : Along f P s as) : I (final f s as) := by
  induction as generalizing s with
  | nil => exact hs
  | cons a as ih => exact ih (hstep s a hs h.1) h.2

end Deterministic

/-- A machine that follows another one step by step has the same answers and follows it
through whole runs. `P` is an invariant the steps may use. -/
theorem trace_simulation {σ τ α β : Type*} {f : σ → α → σ × β} {g : τ → α → τ × β} (abs : σ → τ)
    (P : σ → Prop) (hstep : ∀ s a, P s → P (f s a).1 ∧ g (abs s) a = (abs (f s a).1, (f s a).2))
    {s : σ} (hs : P s) (as : List α) :
    (trace f s as).map (fun a => (abs a.1, a.2)) = trace g (abs s) as ∧
      abs (final f s as) = final g (abs s) as ∧ P (final f s as) := by
  induction as generalizing s with
  | nil => exact ⟨rfl, rfl, hs⟩
  | cons a as ih =>
    obtain ⟨hp, hg⟩ := hstep s a hs
    obtain ⟨htrace, hfinal, hlast⟩ := ih hp
    refine ⟨?_, ?_, hlast⟩
    · simp only [trace, List.map_cons, htrace, hg]
    · simp only [final_cons, hfinal, hg]

section Guarded
variable {σ α : Type*} (step : σ → α → Option σ)
variable {allowed : σ → α → Prop} {s t : σ} {as : List α}

def runFrom : σ → List α → Option σ
  | s, [] => some s
  | s, a :: as => (step s a).bind fun t => runFrom t as

/-- Every input of a run is allowed in the state it comes to, for a machine that may stop. -/
def Allows (allowed : σ → α → Prop) : σ → List α → Prop
  | _, [] => True
  | s, a :: as => allowed s a ∧ ∀ t ∈ step s a, Allows allowed t as

instance decidableAllows {allowed : σ → α → Prop} [∀ s a, Decidable (allowed s a)] :
    ∀ (s : σ) (as : List α), Decidable (Allows step allowed s as)
  | _, [] => isTrue trivial
  | s, a :: as =>
    have (t : σ) : Decidable (Allows step allowed t as) := decidableAllows t as
    inferInstanceAs (Decidable (_ ∧ ∀ t ∈ step s a, _))

variable {step}

theorem run_invariant {I : σ → Prop} (hstep : ∀ s a t, I s → allowed s a → step s a = some t → I t)
    (hs : I s) (hallowed : Allows step allowed s as) (hrun : runFrom step s as = some t) : I t := by
  induction as generalizing s with
  | nil =>
    simp only [runFrom, Option.some.injEq] at hrun
    exact hrun ▸ hs
  | cons a as ih =>
    obtain ⟨u, hu, htail⟩ := Option.bind_eq_some_iff.mp hrun
    exact ih (hstep s a u hs hallowed.1 hu) (hallowed.2 u hu) htail

theorem runFrom_append (s : σ) (as bs : List α) :
    runFrom step s (as ++ bs) = (runFrom step s as).bind fun t => runFrom step t bs := by
  induction as generalizing s with
  | nil => rfl
  | cons a as ih => simp only [List.cons_append, runFrom, ih, Option.bind_assoc]

theorem allows_append {bs : List α} (h : Allows step allowed s (as ++ bs)) :
    Allows step allowed s as ∧ ∀ t, runFrom step s as = some t → Allows step allowed t bs := by
  induction as generalizing s with
  | nil => exact ⟨trivial, fun t ht => Option.some.inj ht ▸ h⟩
  | cons a as ih =>
    obtain ⟨hfirst, hrest⟩ := h
    refine ⟨⟨hfirst, fun u hu => (ih (hrest u hu)).1⟩, fun t ht => ?_⟩
    obtain ⟨u, hu, htail⟩ := Option.bind_eq_some_iff.mp ht
    exact (ih (hrest u hu)).2 t htail

theorem Allows.mono {other : σ → α → Prop} (h : Allows step allowed s as)
    (himp : ∀ s a, allowed s a → other s a) : Allows step other s as := by
  induction as generalizing s with
  | nil => trivial
  | cons a as ih => exact ⟨himp s a h.1, fun t ht => ih (h.2 t ht)⟩

theorem Allows.and {other : σ → α → Prop} (h : Allows step allowed s as)
    (hother : ∀ a ∈ as, ∀ s, other s a) :
    Allows step (fun s a => allowed s a ∧ other s a) s as := by
  induction as generalizing s with
  | nil => trivial
  | cons a as ih =>
    exact ⟨⟨h.1, hother a List.mem_cons_self s⟩,
      fun t ht => ih (h.2 t ht) fun b hb => hother b (List.mem_cons_of_mem a hb)⟩

theorem allows_of_forall (h : ∀ a ∈ as, ∀ s, allowed s a) : Allows step allowed s as := by
  induction as generalizing s with
  | nil => trivial
  | cons a as ih => exact ⟨h a List.mem_cons_self s, fun _ _ => ih
    fun b hb => h b (List.mem_cons_of_mem a hb)⟩

theorem allows_all (s : σ) (as : List α) : Allows step (fun _ _ => True) s as :=
  allows_of_forall fun _ _ _ => trivial

theorem runFrom_invariant {I : σ → Prop} (hstep : ∀ s a t, I s → step s a = some t → I t) (hs : I s)
    (hrun : runFrom step s as = some t) : I t :=
  run_invariant (fun s a t h _ => hstep s a t h) hs (allows_all s as) hrun

theorem runFrom_history {I : List α → σ → Prop}
    (hstep : ∀ before s a t, I before s → step s a = some t → I (before ++ [a]) t) (hs : I [] s)
    (hrun : runFrom step s as = some t) : I as t := by
  suffices h : ∀ before, I before s → I (before ++ as) t from h [] hs
  intro before hbefore
  clear hs
  induction as generalizing s before with
  | nil =>
    rw [List.append_nil]
    exact Option.some.inj hrun ▸ hbefore
  | cons a as ih =>
    obtain ⟨u, hu, htail⟩ := Option.bind_eq_some_iff.mp hrun
    rw [List.append_cons]
    exact ih htail _ (hstep before s a u hbefore hu)

end Guarded

variable {σ τ α β γ ε δ : Type*} {send : σ → α → σ × Except ε β} {receive : τ → β → τ × Except δ γ}

/-- Everything sent comes through: each item is turned into a message, and the messages,
taken in order, are received as the given values. -/
def Delivered (send : σ → α → σ × Except ε β) (receive : τ → β → τ × Except δ γ) (s : σ) (r : τ)
    (items : List α) (received : List γ) : Prop :=
  ∃ wire : List β, (trace send s items).map Prod.snd = wire.map Except.ok ∧
    (trace receive r wire).map Prod.snd = received.map Except.ok

theorem delivered_nil (s : σ) (r : τ) : Delivered send receive s r [] [] := ⟨[], rfl, rfl⟩

theorem delivered_cons (s : σ) (r : τ) (a : α) (items : List α) (c : γ) (received : List γ) :
    Delivered send receive s r (a :: items) (c :: received) ↔
      ∃ b, (send s a).2 = .ok b ∧ (receive r b).2 = .ok c ∧
        Delivered send receive (send s a).1 (receive r b).1 items received := by
  constructor
  · rintro ⟨_ | ⟨b, wire⟩, hsend, hreceive⟩
    · simp [trace] at hsend
    · simp only [trace, List.map_cons, List.cons.injEq] at hsend hreceive
      exact ⟨b, hsend.1, hreceive.1, wire, hsend.2, hreceive.2⟩
  · rintro ⟨b, hsend, hreceive, wire, htail, hrest⟩
    refine ⟨b :: wire, ?_, ?_⟩
    · simp only [trace, List.map_cons, hsend, htail]
    · simp only [trace, List.map_cons, hreceive, hrest]

end Mst5Client.MachineRuns
