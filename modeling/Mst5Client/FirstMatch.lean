import Mathlib.Data.List.Basic

set_option autoImplicit false

/-!
# Updating the first match of a list

`iter_mut().find(p)` with a mutation of what it finds: the first element that satisfies `p` is
replaced and an answer is returned, or there is none.
-/
namespace Mst5Client.FirstMatch

section Update
variable {α β : Type} (p : α → Bool) (f : α → α × β)

def updateFirst : List α → Option (List α × β)
  | [] => none
  | a :: as =>
    if p a then some ((f a).1 :: as, (f a).2)
    else (updateFirst as).map fun r => (a :: r.1, r.2)

variable {p f} {as bs : List α} {b : β}

theorem updateFirst_eq_none (h : updateFirst p f as = none) : ∀ a ∈ as, p a = false := by
  induction as with
  | nil => nofun
  | cons a as ih =>
    rw [updateFirst] at h
    by_cases ha : p a = true
    · rw [if_pos ha] at h
      cases h
    · rw [if_neg ha] at h
      intro x hx
      rcases List.mem_cons.mp hx with rfl | hx
      · exact Bool.eq_false_iff.mpr ha
      · exact ih (Option.map_eq_none_iff.mp h) x hx

theorem updateFirst_eq_some (h : updateFirst p f as = some (bs, b)) :
    ∃ before a after, as = before ++ a :: after ∧ (∀ x ∈ before, p x = false) ∧ p a = true ∧
      bs = before ++ (f a).1 :: after ∧ b = (f a).2 := by
  induction as generalizing bs with
  | nil => cases h
  | cons a as ih =>
    rw [updateFirst] at h
    by_cases ha : p a = true
    · rw [if_pos ha] at h
      obtain ⟨rfl, rfl⟩ := Prod.mk.inj (Option.some.inj h)
      exact ⟨[], a, as, rfl, nofun, ha, rfl, rfl⟩
    · rw [if_neg ha] at h
      obtain ⟨⟨cs, c⟩, hrest, heq⟩ := Option.map_eq_some_iff.mp h
      obtain ⟨rfl, rfl⟩ := Prod.mk.inj heq
      obtain ⟨before, x, after, rfl, hbefore, hx, rfl, rfl⟩ := ih hrest
      refine ⟨a :: before, x, after, rfl, ?_, hx, rfl, rfl⟩
      intro y hy
      rcases List.mem_cons.mp hy with rfl | hy
      · exact Bool.eq_false_iff.mpr ha
      · exact hbefore y hy

end Update

variable {α γ : Type} {before after : List α} {a b : α}

theorem map_replace (g : α → γ) (h : g b = g a) :
    (before ++ b :: after).map g = (before ++ a :: after).map g := by
  simp only [List.map_append, List.map_cons, h]

theorem getElem?_replace {k : ℕ} (hk : k ≠ before.length) :
    (before ++ b :: after)[k]? = (before ++ a :: after)[k]? := by
  rcases Nat.lt_or_ge k before.length with hlt | hge
  · rw [List.getElem?_append_left hlt, List.getElem?_append_left hlt]
  · rw [List.getElem?_append_right hge, List.getElem?_append_right hge]
    obtain ⟨n, hn⟩ := Nat.exists_eq_succ_of_ne_zero
      (Nat.sub_ne_zero_of_lt (Nat.lt_of_le_of_ne hge hk.symm))
    rw [hn, List.getElem?_cons_succ, List.getElem?_cons_succ]

theorem getElem?_replaced : (before ++ b :: after)[before.length]? = some b := by
  rw [List.getElem?_append_right (Nat.le_refl _), Nat.sub_self, List.getElem?_cons_zero]

end Mst5Client.FirstMatch
