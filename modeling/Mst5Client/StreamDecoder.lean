import Mst5Client.MachineRuns
import Mst5Client.ByteOrder

set_option autoImplicit false

/-!
# Buffering stream decoders

A decoder looks at the bytes it has and either waits for more, or consumes some of them and moves
on, possibly with an item, or consumes some of them and gives up.
-/
namespace Mst5Client.StreamDecoder
open ByteOrder MachineRuns

inductive Verdict (σ β ε : Type) where
  | wait
  | fail (n : ℕ) (state : σ) (error : ε)
  | take (n : ℕ) (state : σ) (item : Option β)

structure Drained (σ β ε : Type) where
  state : σ
  rest : Bytes
  items : List β
  error : Option ε

variable {σ β ε : Type} (next : σ → Bytes → Verdict σ β ε)

def drain : ℕ → σ → Bytes → Drained σ β ε
  | 0, s, p => ⟨s, p, [], none⟩
  | fuel + 1, s, p =>
    match next s p with
    | .wait => ⟨s, p, [], none⟩
    | .fail n s' e => ⟨s', p.drop n, [], some e⟩
    | .take n s' item =>
      let d := drain fuel s' (p.drop n)
      ⟨d.state, d.rest, item.toList ++ d.items, d.error⟩

def drainAll (s : σ) (p : Bytes) : Drained σ β ε := drain next p.length s p

/-- One fragment arrives. An error keeps the progress made but loses its items. -/
def feed (s : σ × Bytes) (fragment : Bytes) : (σ × Bytes) × Except ε (List β) :=
  let d := drainAll next s.1 (s.2 ++ fragment)
  ((d.state, d.rest), match d.error with
    | some e => .error e
    | none => .ok d.items)

/-- The decoder waits for the first byte and moves on only by consuming. -/
structure Productive : Prop where
  waits : ∀ s, next s [] = .wait
  consumes : ∀ s p n s' item, next s p = .take n s' item → 0 < n

variable {next}

theorem drain_nil (h : Productive next) (fuel : ℕ) (s : σ) :
    drain next fuel s [] = ⟨s, [], [], none⟩ := by
  cases fuel with
  | zero => rfl
  | succ fuel => simp only [drain, h.waits]

theorem drain_fuel (h : Productive next) {fuel fuel' : ℕ} {s : σ} {p : Bytes} (hp : p.length ≤ fuel)
    (hp' : p.length ≤ fuel') : drain next fuel s p = drain next fuel' s p := by
  induction fuel generalizing fuel' s p with
  | zero =>
    obtain rfl : p = [] := List.length_eq_zero_iff.mp (Nat.le_zero.mp hp)
    rw [drain_nil h, drain_nil h]
  | succ fuel ih =>
    cases fuel' with
    | zero =>
      obtain rfl : p = [] := List.length_eq_zero_iff.mp (Nat.le_zero.mp hp')
      rw [drain_nil h, drain_nil h]
    | succ fuel' =>
      cases hn : next s p with
      | wait => simp only [drain, hn]
      | fail n s' e => simp only [drain, hn]
      | take n s' item =>
        have hpos := h.consumes s p n s' item hn
        have hlen : (p.drop n).length = p.length - n := List.length_drop
        have hrest : drain next fuel s' (p.drop n) = drain next fuel' s' (p.drop n) :=
          ih (by omega) (by omega)
        simp only [drain, hn, hrest]

section Unfolding
variable (h : Productive next) {s : σ} {p : Bytes}
include h

theorem drainAll_succ : drainAll next s p = drain next (p.length + 1) s p :=
  drain_fuel h le_rfl (Nat.le_succ _)

theorem drainAll_wait (hn : next s p = .wait) : drainAll next s p = ⟨s, p, [], none⟩ := by
  rw [drainAll_succ h]
  simp only [drain, hn]

theorem drainAll_fail {n : ℕ} {s' : σ} {e : ε} (hn : next s p = .fail n s' e) :
    drainAll next s p = ⟨s', p.drop n, [], some e⟩ := by
  rw [drainAll_succ h]
  simp only [drain, hn]

theorem drainAll_take {n : ℕ} {s' : σ} {item : Option β} (hn : next s p = .take n s' item) :
    drainAll next s p = ⟨(drainAll next s' (p.drop n)).state, (drainAll next s' (p.drop n)).rest,
      item.toList ++ (drainAll next s' (p.drop n)).items, (drainAll next s' (p.drop n)).error⟩ := by
  have hrest : drainAll next s' (p.drop n) = drain next p.length s' (p.drop n) :=
    drain_fuel h le_rfl (by rw [List.length_drop]; omega)
  rw [drainAll_succ h, hrest]
  simp only [drain, hn]

theorem drainAll_outcome {I : σ → Bytes → List β → Prop}
    (htake : ∀ s p out n s' item, I s p out → next s p = .take n s' item →
      I s' (p.drop n) (out ++ item.toList)) {out : List β} (hI : I s p out) :
    (drainAll next s p).error = none ∧
        I (drainAll next s p).state (drainAll next s p).rest (out ++ (drainAll next s p).items) ∨
      ∃ e s' p' n, (drainAll next s p).error = some e ∧
        next s' p' = .fail n (drainAll next s p).state e ∧
        (drainAll next s p).rest = p'.drop n ∧ I s' p' (out ++ (drainAll next s p).items) := by
  -- on what is left: every round but the last consumes something
  induction hlen : p.length using Nat.strong_induction_on generalizing s p out with
  | _ k ih =>
    cases hn : next s p with
    | wait =>
      rw [drainAll_wait h hn, List.append_nil]
      exact .inl ⟨rfl, hI⟩
    | fail n s' e =>
      rw [drainAll_fail h hn, List.append_nil]
      exact .inr ⟨e, s, p, n, rfl, hn, rfl, hI⟩
    | take n s' item =>
      rw [drainAll_take h hn, ← List.append_assoc]
      have hpos := h.consumes s p n s' item hn
      have hp : p ≠ [] := by
        rintro rfl
        rw [h.waits] at hn
        cases hn
      have hshorter : (p.drop n).length < k := by
        have := List.length_pos_iff.mpr hp
        rw [List.length_drop]
        omega
      exact ih _ hshorter (htake s p out n s' item hI hn) rfl

end Unfolding

/-- A part of an expected stream: the bytes consumed together, the state after them and
the item they carry. -/
structure Part (σ β : Type) where
  bytes : Bytes
  state : σ
  item : Option β

def bytesOf (parts : List (Part σ β)) : Bytes := (parts.map Part.bytes).flatten

def itemsOf (parts : List (Part σ β)) : List β := parts.flatMap fun x => x.item.toList

def lastState (s : σ) (parts : List (Part σ β)) : σ := parts.foldl (fun _ x => x.state) s

def Follows (next : σ → Bytes → Verdict σ β ε) : σ → List (Part σ β) → Prop
  | _, [] => True
  | s, x :: parts => x.bytes ≠ [] ∧ (∀ q, next s (x.bytes ++ q) = .take x.bytes.length x.state x.item) ∧
    (∀ p, p <+: x.bytes → p ≠ x.bytes → next s p = .wait) ∧ Follows next x.state parts

theorem drainAll_follows (hnext : Productive next) {s : σ} {parts : List (Part σ β)}
    (h : Follows next s parts) {p : Bytes} (hp : p <+: bytesOf parts) :
    ∃ taken todo rest, parts = taken ++ todo ∧ p = bytesOf taken ++ rest ∧
      drainAll next s p = ⟨lastState s taken, rest, itemsOf taken, none⟩ ∧
      Follows next (lastState s taken) todo ∧ next (lastState s taken) rest = .wait := by
  induction parts generalizing s p with
  | nil =>
    obtain rfl : p = [] := List.prefix_nil.mp hp
    exact ⟨[], [], [], rfl, rfl, drainAll_wait hnext (hnext.waits s), h, hnext.waits s⟩
  | cons x parts ih =>
    obtain ⟨hne, htake, hwait, htail⟩ := h
    rcases le_or_gt x.bytes.length p.length with hlen | hlen
    -- the first part is complete, or `p` ends inside of it
    · obtain ⟨q, rfl⟩ : x.bytes <+: p :=
        List.prefix_of_prefix_length_le (List.prefix_append _ _) hp hlen
      have hq : q <+: bytesOf parts := (List.prefix_append_right_inj _).mp hp
      obtain ⟨taken, todo, rest, rfl, rfl, hdrain, hfollow, hsettled⟩ := ih htail hq
      refine ⟨x :: taken, todo, rest, rfl, ?_, ?_, hfollow, hsettled⟩
      · simp [bytesOf]
      · rw [drainAll_take hnext (htake _), List.drop_left, hdrain]
        simp only [itemsOf, List.flatMap_cons, lastState, List.foldl_cons]
    · have hx : p <+: x.bytes :=
        List.prefix_of_prefix_length_le hp (List.prefix_append _ _) hlen.le
      have hshort : next s p = .wait := hwait p hx (fun he => by rw [he] at hlen; omega)
      exact ⟨[], x :: parts, p, rfl, rfl, drainAll_wait hnext hshort, ⟨hne, htake, hwait, htail⟩,
        hshort⟩

theorem follows_settled {s : σ} {parts : List (Part σ β)} (h : Follows next s parts)
    (hwait : next s (bytesOf parts) = .wait) : parts = [] := by
  cases parts with
  | nil => rfl
  | cons x parts =>
    have htake := h.2.1 (bytesOf parts)
    rw [bytesOf, List.map_cons, List.flatten_cons] at hwait
    rw [bytesOf, hwait] at htake
    cases htake

theorem feed_fragments (hnext : Productive next) {s : σ} {parts : List (Part σ β)}
    (h : Follows next s parts) {rest : Bytes} (hwait : next s rest = .wait) {fragments : List Bytes}
    (hcut : rest ++ fragments.flatten = bytesOf parts) :
    ∃ items : List (List β),
      (trace (feed next) (s, rest) fragments).map Prod.snd = items.map Except.ok ∧
      items.flatten = itemsOf parts ∧
      final (feed next) (s, rest) fragments = (lastState s parts, []) := by
  induction fragments generalizing s parts rest with
  | nil =>
    rw [List.flatten_nil, List.append_nil] at hcut
    obtain rfl := follows_settled h (hcut ▸ hwait)
    subst hcut
    exact ⟨[], rfl, rfl, rfl⟩
  | cons fragment fragments ih =>
    have hp : rest ++ fragment <+: bytesOf parts :=
      ⟨fragments.flatten, by rw [← hcut, List.flatten_cons, List.append_assoc]⟩
    obtain ⟨taken, todo, rest', rfl, hsplit, hdrain, hfollow, hwait'⟩ := drainAll_follows hnext h hp
    have hcut' : rest' ++ fragments.flatten = bytesOf todo := by
      have hall : bytesOf taken ++ (rest' ++ fragments.flatten) = bytesOf taken ++ bytesOf todo := by
        calc bytesOf taken ++ (rest' ++ fragments.flatten)
            = rest ++ fragment ++ fragments.flatten := by rw [hsplit, List.append_assoc]
          _ = bytesOf (taken ++ todo) := by rw [← hcut, List.flatten_cons, List.append_assoc]
          _ = bytesOf taken ++ bytesOf todo := by
            simp only [bytesOf, List.map_append, List.flatten_append]
      exact List.append_cancel_left hall
    obtain ⟨items, hok, hitems, hfinal⟩ := ih hfollow hwait' hcut'
    have hfeed : feed next (s, rest) fragment = ((lastState s taken, rest'), .ok (itemsOf taken)) := by
      simp only [feed, hdrain]
    refine ⟨itemsOf taken :: items, ?_, ?_, ?_⟩
    · simp only [trace, List.map_cons, hfeed, hok]
    · rw [List.flatten_cons, hitems]
      simp only [itemsOf, List.flatMap_append]
    · rw [final_cons, hfeed, hfinal]
      simp only [lastState, List.foldl_append]

end Mst5Client.StreamDecoder
