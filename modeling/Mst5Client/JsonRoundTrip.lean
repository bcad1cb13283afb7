import Mst5Client.JsonText
import Mathlib.Tactic.SplitIfs

set_option autoImplicit false

/-!
# JSON round trip

A number ends where a character follows that it cannot go on with; nothing else looks at what
follows.
-/
namespace Mst5Client.JsonRoundTrip
open JsonText

section Rules
variable {α β : Type} {F G : List Char → Prop}
variable {p : Scanner α} {text : List Char} {a : α}

/-- On `text`, with anything admissible behind it, the scanner stops after `text` and returns `a`. -/
def Scans (F : List Char → Prop) (p : Scanner α) (text : List Char) (a : α) : Prop :=
  ∀ rest, F rest → p.run (text ++ rest) = some (a, rest)

def Any (_ : List Char) : Prop := True

def NotSpace (rest : List Char) : Prop := ∀ c, rest.head? = some c → isSpace c = false

def Delimited (rest : List Char) : Prop :=
  ∀ c, rest.head? = some c → c.isDigit = false ∧ c ∉ ['.', 'e', 'E']

theorem scans_pure (a : α) : Scans F (pure a : Scanner α) [] a := fun _ _ => rfl

theorem Scans.weaken (h : Scans F p text a) (hG : ∀ rest, G rest → F rest) : Scans G p text a :=
  fun rest hrest => h rest (hG rest hrest)

theorem Scans.bind {f : α → Scanner β} {b : β} (h : Scans F p text a) (text' : List Char)
    (hf : Scans G (f a) text' b) (hF : ∀ rest, G rest → F (text' ++ rest)) :
    Scans G (p >>= f) (text ++ text') b := by
  intro rest hrest
  have hfirst := h (text' ++ rest) (hF rest hrest)
  rw [List.append_assoc, StateT.run_bind, hfirst]
  exact hf rest hrest

theorem Scans.map (h : Scans F p text a) (f : α → β) :
    Scans F (p >>= fun a => pure (f a)) text (f a) := by
  rw [← List.append_nil text]
  exact h.bind [] (scans_pure (f a)) fun _ hrest => hrest

theorem scans_skipSpace : Scans NotSpace skipSpace [] () := by
  intro rest hrest
  cases rest with
  | nil => rfl
  | cons c rest =>
    change some ((), List.dropWhile isSpace (c :: rest)) = _
    rw [List.dropWhile_cons_of_neg (by rw [hrest c rfl]; nofun)]

theorem scans_spaced (h : Scans F p text a) (hspace : ∀ rest, F rest → NotSpace (text ++ rest)) :
    Scans F (skipSpace >>= fun _ => p) text a :=
  scans_skipSpace.bind text h hspace

theorem scans_token (c : Char) : Scans Any token [c] c := fun _ _ => rfl

theorem scans_literal (text : List Char) : Scans Any (literal text) text () := by
  induction text with
  | nil => exact scans_pure ()
  | cons c text ih =>
    refine (scans_token c).bind text ?_ fun _ _ => trivial
    rw [if_pos rfl]
    exact ih

end Rules

theorem hexValue_hexDigit : ∀ n < 16, hexValue (hexDigit n) = some n := by decide

theorem escapes_back : ∀ entry ∈ escapes, ofEscape entry.2 = some entry.1 ∧ entry.2 ≠ 'u' := by decide

theorem shortEscape_mem {c e : Char} (h : shortEscape c = some e) : (c, e) ∈ escapes := by
  obtain ⟨before, after, hsplit, -⟩ := List.lookup_eq_some_iff.mp h
  rw [hsplit]
  exact List.mem_append_right _ List.mem_cons_self

theorem stringBody_quote (rest : List Char) : stringBody (quote :: rest) = some ([], rest) := by
  rw [stringBody.eq_def]
  exact if_pos rfl

theorem stringBody_escape {c e : Char} (hback : ofEscape e = some c) (hu : e ≠ 'u')
    (rest : List Char) :
    stringBody (backslash :: e :: rest) = (stringBody rest).map fun r => (c :: r.1, r.2) := by
  have hquote : backslash ≠ quote := by decide
  rw [stringBody.eq_def]
  simp only [if_neg hquote, if_neg hu, hback, ↓reduceIte, Option.bind_some]

theorem stringBody_control {c : Char} (hc : c.toNat < 0x20) (rest : List Char) :
    stringBody (backslash :: 'u' :: '0' :: '0' :: hexDigit (c.toNat / 16) ::
      hexDigit (c.toNat % 16) :: rest) = (stringBody rest).map fun r => (c :: r.1, r.2) := by
  have hquote : backslash ≠ quote := by decide
  have hzero : hexValue '0' = some 0 := by decide
  have hcode : hex4 '0' '0' (hexDigit (c.toNat / 16)) (hexDigit (c.toNat % 16)) = some c.toNat := by
    rw [hex4, hzero, hexValue_hexDigit _ (by omega), hexValue_hexDigit _ (by omega)]
    simp only [Option.pure_def, Option.bind_eq_bind, Option.bind_some, Option.some.injEq]
    omega
  rw [stringBody.eq_def]
  simp only [if_neg hquote, ↓reduceIte, hcode, Option.bind_some]
  rw [if_neg (by omega), Char.ofNat_toNat]

theorem stringBody_plain {c : Char} (hquote : c ≠ quote) (hbackslash : c ≠ backslash)
    (hc : ¬ c.toNat < 0x20) (rest : List Char) :
    stringBody (c :: rest) = (stringBody rest).map fun r => (c :: r.1, r.2) := by
  rw [stringBody.eq_def]
  simp only [if_neg hquote, if_neg hbackslash, if_neg hc]

theorem stringBody_printChar (c : Char) (rest : List Char) :
    stringBody (printChar c ++ rest) = (stringBody rest).map fun r => (c :: r.1, r.2) := by
  rw [printChar]
  cases hshort : shortEscape c with
  | some e =>
    obtain ⟨hback, hu⟩ := escapes_back (c, e) (shortEscape_mem hshort)
    exact stringBody_escape hback hu rest
  | none =>
    have hquote : c ≠ quote := by
      rintro rfl
      revert hshort
      decide
    have hbackslash : c ≠ backslash := by
      rintro rfl
      revert hshort
      decide
    dsimp only
    split_ifs with hc
    · exact stringBody_control hc rest
    · exact stringBody_plain hquote hbackslash hc rest

theorem stringBody_print (cs rest : List Char) :
    stringBody (cs.flatMap printChar ++ quote :: rest) = some (cs, rest) := by
  induction cs with
  | nil => exact stringBody_quote rest
  | cons c cs ih =>
    rw [List.flatMap_cons, List.append_assoc, stringBody_printChar, ih]
    rfl

theorem scans_string (s : String) : Scans Any string (s.toList.flatMap printChar ++ [quote]) s := by
  intro rest _
  change (stringBody (_ ++ [quote] ++ rest)).map _ = _
  rw [List.append_assoc, List.singleton_append, stringBody_print]
  simp only [Option.map_some, String.ofList_toList]

theorem takeWhile_digits {ds rest : List Char} (hds : ∀ c ∈ ds, c.isDigit = true)
    (hrest : Delimited rest) :
    (ds ++ rest).takeWhile Char.isDigit = ds ∧ (ds ++ rest).dropWhile Char.isDigit = rest := by
  induction ds with
  | nil =>
    cases rest with
    | nil => exact ⟨rfl, rfl⟩
    | cons c rest =>
      have hc := (hrest c rfl).1
      exact ⟨List.takeWhile_cons_of_neg (by rw [hc]; nofun),
        List.dropWhile_cons_of_neg (by rw [hc]; nofun)⟩
  | cons c ds ih =>
    obtain ⟨htake, hdrop⟩ := ih fun x hx => hds x (List.mem_cons_of_mem _ hx)
    have hc := hds c List.mem_cons_self
    rw [List.cons_append, List.takeWhile_cons_of_pos hc, List.dropWhile_cons_of_pos hc, htake, hdrop]
    exact ⟨rfl, rfl⟩

theorem toDigits_head {n : ℕ} (h : (Nat.toDigits 10 n).head? = some '0') : n = 0 := by
  induction n using Nat.strongRecOn with
  | ind n ih =>
    by_cases hn : n < 10
    · have hdigit : ∀ d < 10, Nat.digitChar d = '0' → d = 0 := by decide
      rw [Nat.toDigits_of_lt_base hn] at h
      exact hdigit n hn (Option.some.inj h)
    · rw [Nat.toDigits_of_base_le (by omega) (by omega),
        List.head?_append_of_ne_nil _ Nat.toDigits_ne_nil] at h
      have hquotient := ih (n / 10) (by omega) h
      omega

theorem scans_natural (n : ℕ) : Scans Delimited natural (Nat.toDigits 10 n) n := by
  intro rest hrest
  have hdigits : ∀ c ∈ Nat.toDigits 10 n, c.isDigit = true :=
    fun c hc => Nat.isDigit_of_mem_toDigits (by omega) (by omega) hc
  obtain ⟨htake, hdrop⟩ := takeWhile_digits hdigits hrest
  have hleading : ¬ (Nat.toDigits 10 n = [] ∨
      ((Nat.toDigits 10 n).head? = some '0' ∧ 1 < (Nat.toDigits 10 n).length)) := by
    rintro (hnil | ⟨hzero, hlength⟩)
    · exact Nat.toDigits_ne_nil hnil
    · rw [toDigits_head hzero, Nat.toDigits_zero] at hlength
      exact absurd hlength (by decide)
  have hends : ¬ (rest.head?.any fun c => c ∈ ['.', 'e', 'E']) = true := by
    intro hany
    obtain ⟨c, hc, hmem⟩ := (Option.any_eq_true _ _).mp hany
    exact (hrest c hc).2 (of_decide_eq_true hmem)
  change natural (Nat.toDigits 10 n ++ rest) = some (n, rest)
  simp only [natural, htake, hdrop, if_neg hleading, if_neg hends, Nat.ofDigitChars_ten_toDigits]

section Values
variable {item : Scanner Json}

/-- What a value starts with: no white space, and nothing that would end a list. -/
def Opening (text : List Char) : Prop :=
  ∃ c rest, text = c :: rest ∧ isSpace c = false ∧ c ≠ ']' ∧ c ≠ closeBrace

theorem Opening.notSpace {text : List Char} (h : Opening text) (rest : List Char) :
    NotSpace (text ++ rest) := by
  obtain ⟨c, tail, rfl, hspace, -⟩ := h
  rintro x hx
  obtain rfl := Option.some.inj hx
  exact hspace

theorem notSpace_cons {c : Char} (hc : isSpace c = false) (rest : List Char) :
    NotSpace (c :: rest) := by
  intro x hx
  obtain rfl := Option.some.inj hx
  exact hc

theorem delimited_cons {c : Char} (hc : c.isDigit = false ∧ c ∉ ['.', 'e', 'E']) (rest : List Char) :
    Delimited (c :: rest) := by
  rintro x hx
  obtain rfl := Option.some.inj hx
  exact hc

theorem toDigits_cons (n : ℕ) : ∃ c cs, Nat.toDigits 10 n = c :: cs ∧ c.isDigit = true := by
  cases h : Nat.toDigits 10 n with
  | nil => exact absurd h Nat.toDigits_ne_nil
  | cons c cs =>
    refine ⟨c, cs, rfl, Nat.isDigit_of_mem_toDigits (n := n) (b := 10) (by omega) (by omega) ?_⟩
    rw [h]
    exact List.mem_cons_self

theorem digit_ne {c : Char} (h : c.isDigit = true) :
    isSpace c = false ∧ c ≠ ']' ∧ c ≠ closeBrace ∧ c ≠ 'n' ∧
    c ≠ 't' ∧ c ≠ 'f' ∧ c ≠ quote ∧ c ≠ '[' ∧ c ≠ openBrace ∧ c ≠ '-' := by
  have hne : ∀ x : Char, x.isDigit = false → c ≠ x := by
    rintro x hx rfl
    cases h.symm.trans hx
  refine ⟨?_, hne _ rfl, hne _ rfl, hne _ rfl, hne _ rfl, hne _ rfl, hne _ rfl, hne _ rfl,
    hne _ rfl, hne _ rfl⟩
  refine decide_eq_false fun hmem => ?_
  simp only [List.mem_cons, List.not_mem_nil, or_false] at hmem
  rcases hmem with hc | hc | hc | hc
  · exact hne ' ' rfl hc
  · exact hne '\n' rfl hc
  · exact hne '\t' rfl hc
  · exact hne '\r' rfl hc

theorem opening_print (v : Json) : Opening (print v) := by
  cases v with
  | null => exact ⟨_, _, rfl, by decide⟩
  | bool b => cases b <;> exact ⟨_, _, rfl, by decide⟩
  | number n =>
    rw [print, printNumber]
    split_ifs
    · exact ⟨_, _, rfl, by decide⟩
    · obtain ⟨c, cs, heq, hdigit⟩ := toDigits_cons n.natAbs
      obtain ⟨hspace, hbracket, hbrace, -⟩ := digit_ne hdigit
      exact ⟨c, cs, heq, hspace, hbracket, hbrace⟩
  | string s => exact ⟨_, _, rfl, by decide⟩
  | array values => exact ⟨_, _, by rw [print], by decide⟩
  | object members => exact ⟨_, _, by rw [print], by decide⟩

end Values

section Lists
variable {α : Type} {item : Scanner α} {close : Char}
variable {texts : List (List Char)}

def joined (close : Char) : List (List Char) → List Char
  | [] => [close]
  | text :: texts => text ++ (if texts.isEmpty then [close] else ',' :: joined close texts)

theorem printItems_eq (values : List Json) : printItems values = joined ']' (values.map print) := by
  induction values with
  | nil => rw [printItems]; rfl
  | cons v values ih =>
    rw [printItems, List.map_cons, joined, ih]
    cases values <;> rfl

theorem printMembers_eq (members : List (String × Json)) : printMembers members =
    joined closeBrace (members.map fun m => printString m.1 ++ ':' :: print m.2) := by
  induction members with
  | nil => rw [printMembers]; rfl
  | cons m members ih =>
    rw [printMembers, List.map_cons, joined, ih]
    cases members <;> rfl

theorem length_le_joined (texts : List (List Char)) :
    texts.length ≤ (joined close texts).length := by
  induction texts with
  | nil => exact Nat.zero_le _
  | cons text texts ih =>
    rw [joined, List.length_cons, List.length_append]
    cases texts with
    | nil => exact Nat.le_add_left _ _
    | cons text' texts =>
      simp only [List.isEmpty_cons, Bool.false_eq_true, ↓reduceIte, List.length_cons] at ih ⊢
      omega

structure Closes (close : Char) : Prop where
  space : isSpace close = false
  ends : close.isDigit = false ∧ close ∉ ['.', 'e', 'E']
  comma : close ≠ ','

theorem scans_separator {β : Type} {F : List Char → Prop} {c : Char} (hspace : isSpace c = false)
    {f : Char → Scanner β} {text : List Char} {b : β} (hf : Scans F (f c) text b) :
    Scans F (skipSpace >>= fun _ => token >>= f) (c :: text) b := by
  exact scans_spaced ((scans_token c).bind _ hf fun _ _ => trivial) fun rest _ => notSpace_cons hspace _

theorem scans_itemsLoop (hclose : Closes close) {as : List α}
    (h : List.Forall₂ (fun text a => Scans Delimited item text a) texts as) (hne : texts ≠ [])
    {n : ℕ} (hn : texts.length ≤ n) :
    Scans Any (itemsLoop item close n) (joined close texts) as := by
  induction h generalizing n with
  | nil => exact absurd rfl hne
  | @cons text a texts as hitem hrest ih =>
    obtain ⟨m, rfl⟩ := Nat.exists_eq_succ_of_ne_zero
      (Nat.ne_of_gt (Nat.lt_of_lt_of_le (Nat.succ_pos _) hn))
    rw [itemsLoop, joined]
    cases hrest with
    | nil =>
      refine hitem.bind _ (scans_separator hclose.space ?_) fun rest _ =>
        delimited_cons hclose.ends rest
      rw [if_pos rfl]
      exact scans_pure [a]
    | @cons text' a' texts as hitem' hrest =>
      refine hitem.bind _ (scans_separator (by decide) ?_) fun rest _ => delimited_cons (by decide) _
      rw [if_neg hclose.comma.symm, if_pos rfl]
      exact (ih (List.cons_ne_nil _ _) (Nat.le_of_succ_le_succ hn)).map fun as => a :: as

theorem joined_notSpace (hclose : Closes close) (h : ∀ text ∈ texts, Opening text)
    (rest : List Char) : NotSpace (joined close texts ++ rest) := by
  cases texts with
  | nil =>
    intro c hc
    obtain rfl := Option.some.inj hc
    exact hclose.space
  | cons text texts =>
    rw [joined, List.append_assoc]
    exact (h text List.mem_cons_self).notSpace _

theorem scans_items (hclose : Closes close) (hends : ∀ c, c ≠ ']' → c ≠ closeBrace → c ≠ close)
    {as : List α} (h : List.Forall₂ (fun text a => Scans Delimited item text a) texts as)
    (hopening : ∀ text ∈ texts, Opening text) :
    Scans Any (items item close) (joined close texts) as := by
  refine scans_spaced ?_ fun rest _ => joined_notSpace hclose hopening rest
  intro rest _
  rw [StateT.run_bind, StateT.run_get]
  cases h with
  | nil =>
    have hhead : (joined close [] ++ rest).head? = some close := rfl
    simp only [pure_bind, if_pos hhead]
    exact ((scans_token close).map fun _ => []) rest trivial
  | @cons text a texts as hitem hrest =>
    have hhead : ¬ (joined close (text :: texts) ++ rest).head? = some close := by
      obtain ⟨c, tail, rfl, -, hbracket, hbrace⟩ := hopening text List.mem_cons_self
      exact fun heq => hends c hbracket hbrace (Option.some.inj heq)
    have hlength : (text :: texts).length ≤ (joined close (text :: texts) ++ rest).length := by
      rw [List.length_append]
      exact Nat.le_trans (length_le_joined _) (Nat.le_add_right _ _)
    simp only [pure_bind, if_neg hhead]
    exact scans_itemsLoop hclose (.cons hitem hrest) (List.cons_ne_nil _ _) hlength rest trivial

end Lists

variable {item : Scanner Json}

theorem scans_member (key : String) {text : List Char} {v : Json} (h : Scans Delimited item text v) :
    Scans Delimited (member item) (printString key ++ ':' :: text) (key, v) := by
  refine scans_spaced ?_ fun rest _ => notSpace_cons (by decide) _
  refine (scans_literal [quote]).bind (_ ++ [quote] ++ ':' :: text) ?_ fun _ _ => trivial
  refine (scans_string key).bind (':' :: text) ?_ fun _ _ => trivial
  refine scans_spaced ?_ fun rest _ => notSpace_cons (by decide) _
  refine (scans_literal [':']).bind text ?_ fun _ _ => trivial
  exact h.map fun v => (key, v)

theorem scans_valueOf {F : List Char → Prop} {c : Char} {text : List Char} {v : Json}
    (hspace : isSpace c = false) (h : Scans F (valueFrom item c) (c :: text) v) :
    Scans F (valueOf item) (c :: text) v := by
  refine scans_spaced ?_ fun rest _ => notSpace_cons hspace _
  intro rest hrest
  exact h rest hrest

theorem scans_number (n : ℤ) : Scans Delimited (valueOf item) (printNumber n) (.number n) := by
  rw [printNumber]
  split_ifs with hn
  · refine scans_valueOf (by decide) ?_
    have hdigits := (scans_natural n.natAbs).map fun m => Json.number (-m)
    rw [show -(n.natAbs : ℤ) = n by omega] at hdigits
    exact (scans_token '-').bind _ hdigits fun _ _ => trivial
  · obtain ⟨c, cs, heq, hdigit⟩ := toDigits_cons n.natAbs
    obtain ⟨hspace, -, -, hn, ht, hf, hquote, hbracket, hbrace, hminus⟩ := digit_ne hdigit
    have hdigits := (scans_natural n.natAbs).map fun m => Json.number m
    rw [show (n.natAbs : ℤ) = n by omega, heq] at hdigits
    rw [heq]
    refine scans_valueOf hspace ?_
    rw [valueFrom, if_neg hn, if_neg ht, if_neg hf, if_neg hquote, if_neg hbracket, if_neg hbrace,
      if_neg hminus]
    exact hdigits

mutual
def depth : Json → ℕ
  | .array values => depthAll values + 1
  | .object members => depthMembers members + 1
  | _ => 0

def depthAll : List Json → ℕ
  | [] => 0
  | value :: values => max (depth value) (depthAll values)

def depthMembers : List (String × Json) → ℕ
  | [] => 0
  | (_, value) :: members => max (depth value) (depthMembers members)
end

theorem closes_bracket : Closes ']' := ⟨by decide, by decide, by decide⟩

theorem closes_brace : Closes closeBrace := ⟨by decide, by decide, by decide⟩

theorem opening_members (members : List (String × Json)) :
    ∀ text ∈ members.map (fun m => printString m.1 ++ ':' :: print m.2), Opening text := by
  intro text htext
  obtain ⟨m, -, rfl⟩ := List.mem_map.mp htext
  exact ⟨_, _, rfl, by decide⟩

theorem opening_values (values : List Json) : ∀ text ∈ values.map print, Opening text := by
  intro text htext
  obtain ⟨v, -, rfl⟩ := List.mem_map.mp htext
  exact opening_print v

mutual
theorem scans_value (v : Json) (levels : ℕ) (h : depth v < levels) :
    Scans Delimited (value levels) (print v) v := by
  obtain ⟨n, rfl⟩ := Nat.exists_eq_succ_of_ne_zero (Nat.ne_of_gt (Nat.lt_of_le_of_lt (Nat.zero_le _) h))
  have hany : ∀ rest, Delimited rest → Any rest := fun _ _ => trivial
  cases v with
  | null =>
    exact scans_valueOf (by decide) (((scans_literal ['n', 'u', 'l', 'l']).map fun _ => Json.null).weaken hany)
  | bool b =>
    cases b with
    | true =>
      exact scans_valueOf (by decide)
        (((scans_literal ['t', 'r', 'u', 'e']).map fun _ => Json.bool true).weaken hany)
    | false =>
      exact scans_valueOf (by decide)
        (((scans_literal ['f', 'a', 'l', 's', 'e']).map fun _ => Json.bool false).weaken hany)
  | number m => exact scans_number m
  | string s =>
    refine scans_valueOf (by decide) (Scans.weaken ?_ hany)
    exact (scans_token quote).bind _ ((scans_string s).map Json.string) fun _ _ => trivial
  | array values =>
    have hdepth : depthAll values < n := Nat.lt_of_succ_lt_succ h
    have hitems := scans_items closes_bracket
      (fun c hbracket _ => hbracket) (scans_values values n hdepth)
      (opening_values values)
    rw [print, printItems_eq]
    refine scans_valueOf (by decide) (Scans.weaken ?_ hany)
    exact (scans_token '[').bind _ (hitems.map Json.array) fun _ _ => trivial
  | object members =>
    have hdepth : depthMembers members < n := Nat.lt_of_succ_lt_succ h
    have hitems := scans_items closes_brace (fun c _ hbrace => hbrace) (scans_members members n hdepth)
      (opening_members members)
    rw [print, printMembers_eq]
    refine scans_valueOf (by decide) (Scans.weaken ?_ hany)
    exact (scans_token openBrace).bind _ (hitems.map Json.object) fun _ _ => trivial

theorem scans_values (values : List Json) (n : ℕ) (h : depthAll values < n) :
    List.Forall₂ (fun text v => Scans Delimited (value n) text v) (values.map print) values := by
  cases values with
  | nil => exact .nil
  | cons v values =>
    rw [depthAll] at h
    exact .cons (scans_value v n (Nat.lt_of_le_of_lt (Nat.le_max_left _ _) h))
      (scans_values values n (Nat.lt_of_le_of_lt (Nat.le_max_right _ _) h))

theorem scans_members (members : List (String × Json)) (n : ℕ) (h : depthMembers members < n) :
    List.Forall₂ (fun text m => Scans Delimited (member (value n)) text m)
      (members.map fun m => printString m.1 ++ ':' :: print m.2) members := by
  cases members with
  | nil => exact .nil
  | cons m members =>
    obtain ⟨key, v⟩ := m
    rw [depthMembers] at h
    exact .cons (scans_member key (scans_value v n (Nat.lt_of_le_of_lt (Nat.le_max_left _ _) h)))
      (scans_members members n (Nat.lt_of_le_of_lt (Nat.le_max_right _ _) h))
end

theorem parse_print (v : Json) (h : depth v < 128) : parse (String.ofList (print v)) = some v := by
  have hscan := scans_value v 128 h [] nofun
  rw [List.append_nil] at hscan
  rw [parse, String.toList_ofList, hscan]
  rfl

end Mst5Client.JsonRoundTrip
