import Mathlib.Data.List.DropRight
import Mst5Client.HttpResponses

set_option autoImplicit false

/-!
# Parts of a text

The functions of `str` that cut a text in two or take something off its ends, each with the texts on
which it succeeds.
-/
namespace Mst5Client.TextParts
open HttpResponses
open AccountClient (trim isWhiteSpace)

def rsplitOnce (c : Char) (cs : List Char) : Option (List Char × List Char) :=
  (splitOnce c cs.reverse).map fun parts => (parts.2.reverse, parts.1.reverse)

def stripPrefix : List Char → List Char → Option (List Char)
  | [], cs => some cs
  | p :: ps, c :: cs => if p = c then stripPrefix ps cs else none
  | _ :: _, [] => none

def trimEndMatches (c : Char) (cs : List Char) : List Char := (cs.reverse.dropWhile (· = c)).reverse

def trimText (cs : List Char) : List Char := (trim (String.ofList cs)).toList

def digits (n : ℕ) : List Char := Nat.toDigits 10 n

section Splitting
variable {c : Char} {cs before after : List Char}

theorem splitOnce_append (h : c ∉ before) :
    splitOnce c (before ++ c :: after) = some (before, after) := by
  have hbefore : ∀ x ∈ before, decide (x ≠ c) = true := fun x hx => decide_eq_true fun heq =>
    h (heq ▸ hx)
  have hc : decide (c ≠ c) = false := decide_eq_false fun hne => hne rfl
  rw [splitOnce, List.dropWhile_append_of_pos hbefore, List.takeWhile_append_of_pos hbefore,
    List.dropWhile_cons_of_neg (by rw [hc]; exact Bool.false_ne_true),
    List.takeWhile_cons_of_neg (by rw [hc]; exact Bool.false_ne_true), List.append_nil]

theorem splitOnce_of_notMem (h : c ∉ cs) : splitOnce c cs = none := by
  have hall : ∀ x ∈ cs, decide (x ≠ c) = true := fun x hx => decide_eq_true fun heq => h (heq ▸ hx)
  rw [splitOnce, List.dropWhile_eq_nil_iff.mpr hall]

theorem splitOnce_eq_some_iff :
    splitOnce c cs = some (before, after) ↔ cs = before ++ c :: after ∧ c ∉ before := by
  constructor
  · intro h
    by_cases hc : c ∈ cs
    · obtain ⟨before', after', rfl, hbefore⟩ := List.eq_append_cons_of_mem hc
      rw [splitOnce_append hbefore] at h
      cases h
      exact ⟨rfl, hbefore⟩
    · rw [splitOnce_of_notMem hc] at h
      cases h
  · rintro ⟨rfl, hbefore⟩
    exact splitOnce_append hbefore

theorem splitOnce_eq_none_iff : splitOnce c cs = none ↔ c ∉ cs := by
  refine ⟨fun h hc => ?_, splitOnce_of_notMem⟩
  obtain ⟨before, after, rfl, hbefore⟩ := List.eq_append_cons_of_mem hc
  rw [splitOnce_append hbefore] at h
  cases h

theorem rsplitOnce_append (h : c ∉ after) :
    rsplitOnce c (before ++ c :: after) = some (before, after) := by
  have hreverse : (before ++ c :: after).reverse = after.reverse ++ c :: before.reverse := by simp
  rw [rsplitOnce, hreverse, splitOnce_append (by simpa using h)]
  simp

theorem rsplitOnce_of_notMem (h : c ∉ cs) : rsplitOnce c cs = none := by
  rw [rsplitOnce, splitOnce_of_notMem (by simpa using h)]
  rfl

theorem rsplitOnce_eq_some_iff : rsplitOnce c cs = some (before, after) ↔
    cs = before ++ c :: after ∧ c ∉ after := by
  constructor
  · intro h
    obtain ⟨⟨first, second⟩, hsplit, hparts⟩ := Option.map_eq_some_iff.mp h
    cases hparts
    obtain ⟨hcs, hfirst⟩ := splitOnce_eq_some_iff.mp hsplit
    rw [List.reverse_eq_iff] at hcs
    exact ⟨by simpa using hcs, by simpa using hfirst⟩
  · rintro ⟨rfl, hafter⟩
    exact rsplitOnce_append hafter

theorem rsplitOnce_eq_none_iff : rsplitOnce c cs = none ↔ c ∉ cs := by
  rw [rsplitOnce, Option.map_eq_none_iff, splitOnce_eq_none_iff, List.mem_reverse]

theorem stripPrefix_append (p rest : List Char) : stripPrefix p (p ++ rest) = some rest := by
  induction p with
  | nil => rfl
  | cons a p ih => rw [List.cons_append, stripPrefix, if_pos rfl, ih]

theorem stripPrefix_eq_some_iff {p rest : List Char} :
    stripPrefix p cs = some rest ↔ cs = p ++ rest := by
  refine ⟨fun h => ?_, fun h => h ▸ stripPrefix_append p rest⟩
  induction p generalizing cs with
  | nil => exact Option.some.inj h
  | cons a p ih =>
    cases cs with
    | nil => cases h
    | cons b cs =>
      rw [stripPrefix] at h
      split_ifs at h with hab
      rw [ih h, hab]
      rfl

theorem stripPrefix_eq_none_iff {p : List Char} : stripPrefix p cs = none ↔ ¬ p <+: cs := by
  rw [Option.eq_none_iff_forall_ne_some]
  constructor
  · rintro h ⟨rest, rfl⟩
    exact h rest (stripPrefix_append p rest)
  · intro h rest hrest
    exact h ⟨rest, (stripPrefix_eq_some_iff.mp hrest).symm⟩

theorem stripPrefix_singleton (c : Char) (rest : List Char) :
    stripPrefix [c] (c :: rest) = some rest :=
  stripPrefix_append [c] rest

theorem stripPrefix_of_head?_ne (h : cs.head? ≠ some c) : stripPrefix [c] cs = none := by
  rw [stripPrefix_eq_none_iff]
  rintro ⟨rest, rfl⟩
  exact h rfl

end Splitting

theorem separator_notMem {c : Char} {cs part : List Char} (h : part ∈ cs.splitOn c) : c ∉ part := by
  induction cs generalizing part with
  | nil =>
    rw [List.splitOn_nil, List.mem_singleton] at h
    rw [h]
    exact List.not_mem_nil
  | cons x cs ih =>
    rw [List.splitOn_cons_eq_if_modifyHead] at h
    split_ifs at h with hx
    · rcases List.mem_cons.mp h with rfl | h
      · exact List.not_mem_nil
      · exact ih h
    · obtain ⟨first, rest, hparts⟩ := List.exists_cons_of_ne_nil (List.splitOn_ne_nil c cs)
      rw [hparts] at h ih
      rcases List.mem_cons.mp h with rfl | h
      · have hne : c ≠ x := fun heq => hx (by rw [heq]; exact beq_self_eq_true x)
        exact List.not_mem_cons_of_ne_of_not_mem hne (ih List.mem_cons_self)
      · exact ih (List.mem_cons_of_mem first h)

variable (c : Char) (cs : List Char)

theorem trimText_eq : trimText cs = (cs.dropWhile isWhiteSpace).rdropWhile isWhiteSpace := by
  rw [trimText, trim, String.toList_ofList, String.toList_ofList]
  rfl

theorem trimText_sublist : (trimText cs).Sublist cs := by
  rw [trimText_eq]
  exact (List.rdropWhile_prefix _ _).sublist.trans (List.dropWhile_sublist _)

theorem trimText_idempotent : trimText (trimText cs) = trimText cs := by
  have hstart : (trimText cs).dropWhile isWhiteSpace = trimText cs := by
    obtain ⟨rest, hrest⟩ : trimText cs <+: cs.dropWhile isWhiteSpace :=
      trimText_eq cs ▸ List.rdropWhile_prefix _ _
    have hfixed := List.dropWhile_eq_self_iff.mp (List.dropWhile_idempotent isWhiteSpace cs)
    -- taking characters off the end leaves the first one in place
    cases htrim : trimText cs with
    | nil => rfl
    | cons x text =>
      simp only [← hrest, htrim] at hfixed
      exact List.dropWhile_cons_of_neg (hfixed (Nat.succ_pos _))
  calc trimText (trimText cs)
      _ = (trimText cs).rdropWhile isWhiteSpace := by rw [trimText_eq, hstart]
      _ = trimText cs := by rw [trimText_eq, List.rdropWhile_idempotent]

theorem trimEndMatches_eq : trimEndMatches c cs = cs.rdropWhile fun x => decide (x = c) := rfl

theorem trimEndMatches_isPrefix : trimEndMatches c cs <+: cs := List.rdropWhile_prefix _ _

theorem trimEndMatches_eq_nil_iff : trimEndMatches c cs = [] ↔ ∀ x ∈ cs, x = c := by
  rw [trimEndMatches_eq, List.rdropWhile_eq_nil_iff]
  simp only [decide_eq_true_eq]

theorem digits_ne_nil (n : ℕ) : digits n ≠ [] := Nat.toDigits_ne_nil

theorem isDigit_of_mem_digits {n : ℕ} {c : Char} (h : c ∈ digits n) : c.isDigit = true :=
  Nat.isDigit_of_mem_toDigits (by omega) (by omega) h

theorem parseUnsigned_digits {n bound : ℕ} (h : n < bound) :
    parseUnsigned bound (digits n) = some n := by
  have hvalue : (digits n).foldl (fun n c => 10 * n + (c.toNat - 48)) 0 = n :=
    Nat.ofDigitChars_ten_toDigits
  have hall : (digits n).all Char.isDigit = true := List.all_eq_true.mpr fun c => isDigit_of_mem_digits
  unfold parseUnsigned
  split
  next rest hcs =>
    have hdigit := isDigit_of_mem_digits (hcs ▸ List.mem_cons_self : '+' ∈ digits n)
    exact absurd hdigit (by decide)
  next =>
    dsimp only
    rw [hvalue, if_pos ⟨digits_ne_nil n, hall, h⟩]

end Mst5Client.TextParts
