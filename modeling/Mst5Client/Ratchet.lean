import Mst5Client.MachineRuns
import Mathlib.Tactic

set_option autoImplicit false

/-!
# A rekeying clock with two triggers

The clock counts the records and bytes protected under the current key.
-/
namespace Mst5Client.Ratchet
open MachineRuns

structure Limits where
  records : ℕ
  bytes : ℕ

structure Position where
  generation : ℕ
  records : ℕ
  bytes : ℕ
deriving DecidableEq, Repr

def Position.start : Position := ⟨0, 0, 0⟩

def Position.Within (L : Limits) (p : Position) : Prop :=
  p.records < L.records ∧ p.bytes < L.bytes

def Position.Before (p q : Position) : Prop :=
  p.generation < q.generation ∨ p.generation = q.generation ∧ p.records < q.records

def advance (L : Limits) (p : Position) (n : ℕ) : Position :=
  if L.records ≤ p.records + 1 ∨ L.bytes ≤ p.bytes + n then ⟨p.generation + 1, 0, 0⟩
  else ⟨p.generation, p.records + 1, p.bytes + n⟩

def position (L : Limits) (ns : List ℕ) : Position := ns.foldl (advance L) Position.start

theorem Position.Before.trans {p q r : Position} (h : p.Before q) (h' : q.Before r) :
    p.Before r := by
  unfold Position.Before at *
  omega

theorem Position.Before.ne {p q : Position} (h : p.Before q) :
    ¬ (p.generation = q.generation ∧ p.records = q.records) := by
  unfold Position.Before at h
  omega

theorem advance_before (L : Limits) (p : Position) (n : ℕ) : p.Before (advance L p n) := by
  unfold advance Position.Before
  split_ifs
  · exact Or.inl (Nat.lt_succ_self _)
  · exact Or.inr ⟨rfl, Nat.lt_succ_self _⟩

theorem advance_within {L : Limits} (hr : 0 < L.records) (hb : 0 < L.bytes) (p : Position) (n : ℕ) :
    (advance L p n).Within L := by
  unfold advance Position.Within
  split_ifs with h
  · exact ⟨hr, hb⟩
  · simp only [not_or, not_le] at h
    exact h

theorem advance_generation (L : Limits) (p : Position) (n : ℕ) :
    p.generation ≤ (advance L p n).generation ∧
      (advance L p n).generation ≤ p.generation + 1 := by
  unfold advance
  split_ifs <;> simp

theorem foldl_generation_le (L : Limits) (p : Position) (ns : List ℕ) :
    p.generation ≤ (ns.foldl (advance L) p).generation := by
  induction ns generalizing p with
  | nil => exact le_refl _
  | cons n ns ih => exact (advance_generation L p n).1.trans (ih _)

theorem position_concat (L : Limits) (ns : List ℕ) (n : ℕ) :
    position L (ns ++ [n]) = advance L (position L ns) n := by
  simp [position]

theorem position_within {L : Limits} (hr : 0 < L.records) (hb : 0 < L.bytes) (ns : List ℕ) :
    (position L ns).Within L := by
  induction ns using List.reverseRecOn with
  | nil => exact ⟨hr, hb⟩
  | append_singleton ns n _ =>
    rw [position_concat]
    exact advance_within hr hb _ _

theorem position_generation_mono (L : Limits) (ms ns : List ℕ) :
    (position L ms).generation ≤ (position L (ms ++ ns)).generation := by
  rw [position, position, List.foldl_append]
  exact foldl_generation_le L _ ns

theorem position_before (L : Limits) (ms ns : List ℕ) (hn : ns ≠ []) :
    (position L ms).Before (position L (ms ++ ns)) := by
  induction ns using List.reverseRecOn with
  | nil => exact absurd rfl hn
  | append_singleton ns n ih =>
    rw [← List.append_assoc, position_concat]
    rcases eq_or_ne ns [] with rfl | hne
    · simpa using advance_before L (position L ms) n
    · exact (ih hne).trans (advance_before L _ n)

theorem position_first_generation {L : Limits} (hr : 0 < L.records) (hb : 0 < L.bytes)
    (ns : List ℕ) :
    (position L ns).generation = 0 ↔ ns.length < L.records ∧ ns.sum < L.bytes := by
  -- on the last record: the counts are exact until a limit is reached, and never come back
  have key : (position L ns = ⟨0, ns.length, ns.sum⟩ ∧ ns.length < L.records ∧ ns.sum < L.bytes) ∨
      (0 < (position L ns).generation ∧ ¬ (ns.length < L.records ∧ ns.sum < L.bytes)) := by
    induction ns using List.reverseRecOn with
    | nil => exact Or.inl ⟨rfl, hr, hb⟩
    | append_singleton ns n ih =>
      rw [position_concat]
      rcases ih with ⟨hp, hl, hs⟩ | ⟨hg, hl⟩
      · rw [hp]
        by_cases h : L.records ≤ ns.length + 1 ∨ L.bytes ≤ ns.sum + n
        · right
          simp only [advance, h, ↓reduceIte, List.length_append, List.length_singleton,
            List.sum_append, List.sum_singleton]
          omega
        · left
          simp only [advance, h, ↓reduceIte, List.length_append, List.length_singleton,
            List.sum_append, List.sum_singleton]
          exact ⟨trivial, by omega⟩
      · right
        have := (advance_generation L (position L ns) n).1
        simp only [List.length_append, List.length_singleton, List.sum_append, List.sum_singleton]
        omega
  rcases key with ⟨hp, h⟩ | ⟨hg, h⟩
  · simp [hp, h]
  · simp only [h, iff_false]
    omega

section Counting
variable {σ τ α β γ ε δ : Type*} {send : σ → α → σ × Except ε β} {receive : τ → β → τ × Except δ γ}
  {L : Limits} {size : α → ℕ} {value : α → γ}

/-- One end keeps the clock, the other only counts records; `S` and `R` give the ends at a
position and a count. If they part as soon as the count differs from the record number, then
everything comes through exactly while no message but the last completes a generation. -/
theorem delivered_iff_first_generation (hr : 0 < L.records) (hb : 0 < L.bytes)
    (S : Position → ℕ → σ) (R : Position → ℕ → τ) (valid : α → Prop)
    (hstep : ∀ (p : Position) (a : α), p.Within L → p.generation = 0 → valid a →
      ∃ b, send (S p p.records) a = (S (advance L p (size a)) (p.records + 1), .ok b) ∧
        receive (R p p.records) b = (R (advance L p (size a)) (p.records + 1), .ok (value a)))
    (hpart : ∀ (p : Position) (n : ℕ) (a : α) (b : β), n ≤ L.records → p.records ≤ L.records →
      n ≠ p.records → (send (S p n) a).2 = .ok b → ∀ c, (receive (R p n) b).2 ≠ .ok c)
    (items : List α) (hvalid : ∀ a ∈ items, valid a) {p : Position} (hp : p.Within L)
    (hg : p.generation = 0) :
    Delivered send receive (S p p.records) (R p p.records) items (items.map value) ↔
      ((items.map size).dropLast.foldl (advance L) p).generation = 0 := by
  induction items generalizing p with
  | nil => exact iff_of_true (delivered_nil _ _) hg
  | cons a items ih =>
    obtain ⟨b, hsend, hreceive⟩ := hstep p a hp hg (hvalid a (List.mem_cons_self))
    have hfirst : Delivered send receive (S p p.records) (R p p.records) (a :: items)
        ((a :: items).map value) ↔
        Delivered send receive (S (advance L p (size a)) (p.records + 1))
          (R (advance L p (size a)) (p.records + 1)) items (items.map value) := by
      rw [List.map_cons, delivered_cons]
      constructor
      · rintro ⟨b', hb', -, hrest⟩
        obtain rfl : b = b' := by simpa only [hsend, Except.ok.injEq] using hb'
        simpa only [hsend, hreceive] using hrest
      · intro hrest
        exact ⟨b, by rw [hsend], by rw [hreceive], by simpa only [hsend, hreceive] using hrest⟩
    rw [hfirst]
    cases items with
    | nil => exact iff_of_true (delivered_nil _ _) hg
    | cons a' items =>
      simp only [List.map_cons, List.dropLast_cons_cons, List.foldl_cons] at ih ⊢
      by_cases h : L.records ≤ p.records + 1 ∨ L.bytes ≤ p.bytes + size a
      -- the clock is reset, the counter is not: the next message is refused
      · have hnext : advance L p (size a) = ⟨p.generation + 1, 0, 0⟩ := by
          simp only [advance, h, ↓reduceIte]
        refine iff_of_false ?_ ?_
        · rw [hnext, delivered_cons]
          rintro ⟨b', hb', hc, -⟩
          exact hpart _ _ _ _ hp.1 (Nat.zero_le _) (Nat.succ_ne_zero _) hb' _ hc
        · have hle := foldl_generation_le L (advance L p (size a))
            ((size a' :: items.map size).dropLast)
          rw [hnext] at hle ⊢
          change p.generation + 1 ≤ _ at hle
          omega
      · have hnext : advance L p (size a) = ⟨p.generation, p.records + 1, p.bytes + size a⟩ := by
          simp only [advance, h, ↓reduceIte]
        have hgen : (advance L p (size a)).generation = 0 := by rw [hnext]; exact hg
        have hrecords : (advance L p (size a)).records = p.records + 1 := by rw [hnext]
        rw [← hrecords]
        exact ih (fun x hx => hvalid x (List.mem_cons_of_mem _ hx))
          (advance_within hr hb p (size a)) hgen

end Counting

variable {K : Type*}

def keyAt (next : K → ℕ → K) (k : K) : ℕ → K
  | 0 => k
  | g + 1 => next (keyAt next k g) (g + 1)

end Mst5Client.Ratchet
