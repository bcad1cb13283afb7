import Mst5Client.Endpoints

set_option autoImplicit false

/-!
# Forced transport selection

`select_endpoint` sorts the candidates by their scheme in any case; `parse_endpoint` looks at the
scheme once the slashes at the end are gone.
-/
namespace Mst5Client.TransportSelection
open IoResult TextParts Endpoints

section Kinds
variable (socketAddr : Text → Option SocketAddrV4)

def parsesRaw (candidate : Text) : Bool :=
  match parseEndpoint socketAddr candidate with
  | .ok parsed => parsed.m5oh.isNone
  | .error _ => false

def parsesM5oh (candidate : Text) : Bool :=
  match parseEndpoint socketAddr candidate with
  | .ok parsed => parsed.m5oh.isSome
  | .error _ => false

/-- The candidate is a web scheme with nothing but slashes behind it. -/
def bareScheme (candidate : Text) : Bool :=
  isM5oh candidate && decide ('/' ∉ trimEndMatches '/' candidate)

variable {socketAddr} {candidate value : Text}

theorem toLower_head {p : Text} {c : Char} {cs : Text} (h : p <+: (c :: cs).map Char.toLower)
    (hne : p ≠ []) : p.head? = some c.toLower := by
  obtain ⟨rest, hrest⟩ := h
  rw [← List.head?_append_of_ne_nil p hne, hrest]
  rfl

theorem isM5oh_head (h : isM5oh candidate = true) :
    ∃ c cs, candidate = c :: cs ∧ c.toLower = 'h' := by
  cases candidate with
  | nil => exact absurd h (by decide)
  | cons c cs =>
    refine ⟨c, cs, rfl, ?_⟩
    rw [isM5oh, Bool.or_eq_true, decide_eq_true_eq, decide_eq_true_eq] at h
    rcases h with h | h
    · exact (Option.some.inj (toLower_head h (by decide))).symm
    · exact (Option.some.inj (toLower_head h (by decide))).symm

theorem parseEndpoint_cases {parsed : ParsedEndpoint}
    (h : parseEndpoint socketAddr candidate = .ok parsed)
    (hvalue : trimEndMatches '/' (trimText candidate) = value) :
    parsed.m5oh.isSome = true ∧ ("https://".toList <+: value ∨ "http://".toList <+: value) ∨
      parsed.m5oh = none ∧ ("mst5://".toList <+: value ∨ "tcp://".toList <+: value ∨ '/' ∉ value) := by
  rw [parseEndpoint, hvalue] at h
  dsimp only at h
  split at h
  next address hhttps =>
    obtain ⟨p, -, rfl⟩ := map_eq_ok h
    exact .inl ⟨rfl, .inl ⟨address, (stripPrefix_eq_some_iff.mp hhttps).symm⟩⟩
  next =>
    split at h
    next address hhttp =>
      obtain ⟨p, -, rfl⟩ := map_eq_ok h
      exact .inl ⟨rfl, .inr ⟨address, (stripPrefix_eq_some_iff.mp hhttp).symm⟩⟩
    next =>
      obtain ⟨-, h⟩ := ite_error_eq_ok.mp h
      split at h
      next routed hmst5 =>
        refine .inr ⟨?_, .inl ⟨routed, (stripPrefix_eq_some_iff.mp hmst5).symm⟩⟩
        split at h
        next => cases h
        next =>
          obtain ⟨_, -, hrouted⟩ := bind_eq_ok h
          obtain ⟨_, -, hparsed⟩ := bind_eq_ok hrouted
          cases hparsed
          rfl
      next =>
        obtain ⟨hplain, h⟩ := ite_error_eq_ok.mp h
        obtain ⟨address, -, rfl⟩ := map_eq_ok h
        refine .inr ⟨rfl, .inr ?_⟩
        cases htcp : stripPrefix "tcp://".toList value with
        | none =>
          rw [htcp] at hplain
          exact .inr (not_or.mp hplain).2
        | some rest => exact .inl ⟨rest, (stripPrefix_eq_some_iff.mp htcp).symm⟩

theorem parsesRaw_iff : parsesRaw socketAddr candidate = true ↔
    ∃ parsed, parseEndpoint socketAddr candidate = .ok parsed ∧ parsed.m5oh = none := by
  unfold parsesRaw
  cases parseEndpoint socketAddr candidate with
  | error e => simp
  | ok parsed => simp

theorem parsesM5oh_iff : parsesM5oh socketAddr candidate = true ↔
    ∃ parsed, parseEndpoint socketAddr candidate = .ok parsed ∧ parsed.m5oh.isSome = true := by
  unfold parsesM5oh
  cases parseEndpoint socketAddr candidate with
  | error e => simp
  | ok parsed => simp

theorem isM5oh_of_isPrefix {scheme : Text}
    (hscheme : scheme = "https://".toList ∨ scheme = "http://".toList) (h : scheme <+: candidate) :
    isM5oh candidate = true := by
  have hlower := h.map Char.toLower
  rw [isM5oh, Bool.or_eq_true, decide_eq_true_eq, decide_eq_true_eq]
  rcases hscheme with rfl | rfl
  · exact .inr hlower
  · exact .inl hlower

theorem isM5oh_of_parsesM5oh (htrim : trimText candidate = candidate)
    (h : parsesM5oh socketAddr candidate = true) : isM5oh candidate = true := by
  obtain ⟨parsed, hparse, hsome⟩ := parsesM5oh_iff.mp h
  have hstart : trimEndMatches '/' candidate <+: candidate := trimEndMatches_isPrefix '/' candidate
  rcases parseEndpoint_cases hparse rfl with ⟨-, hhttps | hhttp⟩ | ⟨hnone, -⟩
  · rw [htrim] at hhttps
    exact isM5oh_of_isPrefix (.inl rfl) (hhttps.trans hstart)
  · rw [htrim] at hhttp
    exact isM5oh_of_isPrefix (.inr rfl) (hhttp.trans hstart)
  · rw [hnone] at hsome
    cases hsome

theorem not_isPrefix_of_isM5oh {scheme : Text} (h : isM5oh candidate = true)
    (hscheme : (scheme.map Char.toLower).head? ≠ some 'h') (hne : scheme ≠ []) :
    ¬ scheme <+: candidate := by
  rintro ⟨rest, rfl⟩
  obtain ⟨c, cs, hcons, hlower⟩ := isM5oh_head h
  obtain ⟨first, tail, rfl⟩ := List.exists_cons_of_ne_nil hne
  cases hcons
  exact hscheme (congrArg some hlower)

theorem parsesRaw_of_notMem (htrim : trimText candidate = candidate)
    (hne : trimEndMatches '/' candidate ≠ []) (hslash : '/' ∉ trimEndMatches '/' candidate) :
    parsesRaw socketAddr candidate = true := by
  rw [parsesRaw_iff, parseEndpoint, htrim]
  generalize trimEndMatches '/' candidate = value at hne hslash
  have hscheme : ∀ scheme : Text, '/' ∈ scheme → ¬ scheme <+: value := fun scheme hmem hstart =>
    hslash (hstart.subset hmem)
  have hstrip : ∀ scheme : Text, '/' ∈ scheme → stripPrefix scheme value = none := fun scheme hmem =>
    stripPrefix_eq_none_iff.mpr (hscheme scheme hmem)
  have hbad : ¬ (value = [] ∨ '/' ∈ value) := not_or.mpr ⟨hne, hslash⟩
  rw [hstrip "https://".toList (by decide), hstrip "http://".toList (by decide),
    hstrip "mst5://".toList (by decide), hstrip "tcp://".toList (by decide), Option.getD_none]
  dsimp only
  rw [if_neg (hscheme "tcps://".toList (by decide)), if_neg hbad, endpointSocketAddress, if_neg hbad]
  split_ifs
  all_goals exact ⟨_, rfl, rfl⟩

theorem parsesRaw_of_isM5oh (htrim : trimText candidate = candidate) (h : isM5oh candidate = true) :
    parsesRaw socketAddr candidate = bareScheme candidate := by
  rw [bareScheme, h, Bool.true_and, Bool.eq_iff_iff, decide_eq_true_eq]
  have hstart : trimEndMatches '/' candidate <+: candidate := trimEndMatches_isPrefix '/' candidate
  constructor
  · intro hraw
    obtain ⟨parsed, hparse, hnone⟩ := parsesRaw_iff.mp hraw
    rcases parseEndpoint_cases hparse rfl with ⟨hsome, -⟩ | ⟨-, hmst5 | htcp | hslash⟩
    · rw [hnone] at hsome
      cases hsome
    · rw [htrim] at hmst5
      exact absurd (hmst5.trans hstart) (not_isPrefix_of_isM5oh h (by decide) (by decide))
    · rw [htrim] at htcp
      exact absurd (htcp.trans hstart) (not_isPrefix_of_isM5oh h (by decide) (by decide))
    · rwa [htrim] at hslash
  · intro hslash
    refine parsesRaw_of_notMem htrim (fun hnil => ?_) hslash
    obtain ⟨c, cs, rfl, hlower⟩ := isM5oh_head h
    have hc := (trimEndMatches_eq_nil_iff '/' (c :: cs)).mp hnil c List.mem_cons_self
    rw [hc] at hlower
    exact absurd hlower (by decide)

end Kinds

variable {configured candidate : Text} {mode : TransportMode}

theorem candidates_trimmed (h : candidate ∈ candidates configured) :
    trimText candidate = candidate ∧ candidate ≠ [] ∧ '|' ∉ candidate := by
  obtain ⟨hmem, hne⟩ := List.mem_filter.mp h
  obtain ⟨part, hpart, rfl⟩ := List.mem_map.mp hmem
  exact ⟨trimText_idempotent part, of_decide_eq_true hne,
    fun hbar => separator_notMem hpart ((trimText_sublist part).subset hbar)⟩

theorem mem_select {list : List Text} : candidate ∈ select mode list → candidate ∈ list := by
  cases mode with
  | auto =>
    rw [select, List.mem_append]
    rintro (h | h)
    · exact List.mem_of_mem_filter h
    · exact List.mem_of_mem_filter h
  | mst5 => exact List.mem_of_mem_filter
  | m5oh => exact List.mem_of_mem_filter

theorem select_select (list : List Text) : select mode (select mode list) = select mode list := by
  cases mode with
  | auto => simp [select, List.filter_append, List.filter_filter]
  | mst5 => simp [select, List.filter_filter]
  | m5oh => simp [select, List.filter_filter]

theorem candidates_intercalate {list : List Text} (hne : list ≠ [])
    (h : ∀ c ∈ list, c ∈ candidates configured) :
    (['|'].intercalate list).splitOn '|' = list ∧ candidates (['|'].intercalate list) = list := by
  have hsplit : (['|'].intercalate list).splitOn '|' = list :=
    List.splitOn_intercalate '|' (fun c hc => (candidates_trimmed (h c hc)).2.2) hne
  refine ⟨hsplit, ?_⟩
  have htrim : list.map trimText = list :=
    (List.map_congr_left fun c hc => (candidates_trimmed (h c hc)).1).trans (List.map_id list)
  rw [candidates, hsplit, htrim, List.filter_eq_self]
  exact fun c hc => decide_eq_true (candidates_trimmed (h c hc)).2.1

theorem selectEndpoint_eq_ok_iff {s : Text} : selectEndpoint configured mode = .ok s ↔
    select mode (candidates configured) ≠ [] ∧
      s = ['|'].intercalate (select mode (candidates configured)) := by
  have hempty : select mode (candidates configured) ≠ [] → candidates configured ≠ [] := by
    intro hne hnil
    obtain ⟨c, cs, hcons⟩ := List.exists_cons_of_ne_nil hne
    have hc : c ∈ candidates configured := mem_select (hcons ▸ List.mem_cons_self)
    rw [hnil] at hc
    exact List.not_mem_nil hc
  rw [selectEndpoint, ite_error_eq_ok, ite_error_eq_ok, Except.ok.injEq]
  constructor
  · rintro ⟨-, hne, rfl⟩
    exact ⟨hne, rfl⟩
  · rintro ⟨hne, rfl⟩
    exact ⟨hempty hne, hne, rfl⟩

theorem split_selected {s : Text} (h : selectEndpoint configured mode = .ok s) :
    s.splitOn '|' = select mode (candidates configured) ∧
      candidates s = select mode (candidates configured) := by
  obtain ⟨hne, rfl⟩ := selectEndpoint_eq_ok_iff.mp h
  exact candidates_intercalate hne fun c => mem_select

variable {socketAddr : Text → Option SocketAddrV4} {list : List Text}

/-- Each mode selects what its name says. -/
structure Honest (socketAddr : Text → Option SocketAddrV4) (configured : Text) : Prop where
  m5oh : ∀ s, selectEndpoint configured .m5oh = .ok s → ∀ c ∈ s.splitOn '|',
    parsesRaw socketAddr c = false
  mst5 : ∀ s, selectEndpoint configured .mst5 = .ok s → ∀ c ∈ s.splitOn '|',
    parsesM5oh socketAddr c = false
  auto : candidates configured ≠ [] → ∃ s, selectEndpoint configured .auto = .ok s ∧
    (s.splitOn '|').Perm (candidates configured) ∧
    (s.splitOn '|').Pairwise (fun c d => ¬ (parsesM5oh socketAddr c = true ∧
      parsesRaw socketAddr d = true)) ∧
    (s.splitOn '|').filter (parsesRaw socketAddr) = (candidates configured).filter
      (parsesRaw socketAddr) ∧
    (s.splitOn '|').filter (parsesM5oh socketAddr) = (candidates configured).filter
      (parsesM5oh socketAddr)
  idempotent : ∀ mode s, selectEndpoint configured mode = .ok s → selectEndpoint s mode = .ok s

theorem selectEndpoint_idempotent {mode : TransportMode} {s : Text}
    (h : selectEndpoint configured mode = .ok s) : selectEndpoint s mode = .ok s := by
  obtain ⟨hne, hs⟩ := selectEndpoint_eq_ok_iff.mp h
  rw [selectEndpoint_eq_ok_iff, (split_selected h).2, select_select]
  exact ⟨hne, hs⟩

/-- What the scheme and the parser say about one candidate, where they agree. -/
def Agrees (socketAddr : Text → Option SocketAddrV4) (c : Text) : Prop :=
  (isM5oh c = true → parsesRaw socketAddr c = false) ∧
    (isM5oh c = false → parsesM5oh socketAddr c = false)

theorem select_auto_perm : (select .auto list).Perm list :=
  (List.perm_append_comm).trans (List.filter_append_perm isM5oh list)

theorem select_auto_pairwise (h : ∀ c ∈ list, Agrees socketAddr c) :
    (select .auto list).Pairwise fun c d =>
    ¬ (parsesM5oh socketAddr c = true ∧ parsesRaw socketAddr d = true) := by
  have hnative : ∀ c ∈ list.filter (!isM5oh ·), parsesM5oh socketAddr c = false := fun c hc =>
    (h c (List.mem_of_mem_filter hc)).2 (by simpa using List.of_mem_filter hc)
  have htunnel : ∀ c ∈ list.filter isM5oh, parsesRaw socketAddr c = false := fun c hc =>
    (h c (List.mem_of_mem_filter hc)).1 (List.of_mem_filter hc)
  refine List.pairwise_append.mpr ⟨?_, ?_, ?_⟩
  · refine List.pairwise_of_forall_mem_list fun c hc d _ hboth => ?_
    exact Bool.false_ne_true ((hnative c hc).symm.trans hboth.1)
  · refine List.pairwise_of_forall_mem_list fun c _ d hd hboth => ?_
    exact Bool.false_ne_true ((htunnel d hd).symm.trans hboth.2)
  · intro c hc d hd hboth
    exact Bool.false_ne_true ((hnative c hc).symm.trans hboth.1)

theorem filter_and_of_imp {p q : Text → Bool} (h : ∀ c ∈ list, q c = false → p c = false) :
    list.filter (fun c => p c && q c) = list.filter p ∧ list.filter (fun c => p c && !q c) = [] := by
  constructor
  · refine List.filter_congr fun c hc => ?_
    cases hq : q c with
    | false => rw [h c hc hq, Bool.false_and]
    | true => rw [Bool.and_true]
  · rw [List.filter_eq_nil_iff]
    intro c hc
    cases hq : q c with
    | false => simp [h c hc hq]
    | true => simp

theorem filter_select_auto {p : Text → Bool}
    (h : (∀ c ∈ list, isM5oh c = true → p c = false) ∨ ∀ c ∈ list, isM5oh c = false → p c = false) :
    (select .auto list).filter p = list.filter p := by
  rw [select, List.filter_append, List.filter_filter, List.filter_filter]
  rcases h with h | h
  · obtain ⟨hall, hnone⟩ := filter_and_of_imp (p := p) (q := fun c => !isM5oh c)
      fun c (hc : c ∈ list) hm => h c hc (by simpa using hm)
    simp only [Bool.not_not] at hnone
    rw [hall, hnone, List.append_nil]
  · obtain ⟨hall, hnone⟩ := filter_and_of_imp h
    rw [hall, hnone, List.nil_append]

theorem agrees_of_not_bare {c : Text} (htrim : trimText c = c) (h : bareScheme c = false) :
    Agrees socketAddr c := by
  constructor
  · intro hm
    rw [parsesRaw_of_isM5oh htrim hm, h]
  · intro hm
    cases hp : parsesM5oh socketAddr c with
    | false => rfl
    | true => exact absurd (isM5oh_of_parsesM5oh htrim hp) (by rw [hm]; exact Bool.false_ne_true)

/-- The modes mean what they say exactly where no candidate is a web scheme with only slashes behind
it. -/
theorem selection_honest_iff (socketAddr : Text → Option SocketAddrV4) (configured : Text) :
    Honest socketAddr configured ↔ ∀ c ∈ candidates configured, bareScheme c = false := by
  constructor
  · intro h c hc
    cases hbare : bareScheme c with
    | false => rfl
    | true =>
      -- the candidate is selected in mode M5oH and parses to a raw address
      have hm : isM5oh c = true := (Bool.and_eq_true_iff.mp hbare).1
      have hmem : c ∈ select .m5oh (candidates configured) := List.mem_filter.mpr ⟨hc, hm⟩
      have hok := selectEndpoint_eq_ok_iff.mpr ⟨List.ne_nil_of_mem hmem, rfl⟩
      have hraw := h.m5oh _ hok c ((split_selected hok).1.symm ▸ hmem)
      rw [parsesRaw_of_isM5oh (candidates_trimmed hc).1 hm, hbare] at hraw
      exact hraw
  · intro h
    have hagrees : ∀ c ∈ candidates configured, Agrees socketAddr c := fun c hc =>
      agrees_of_not_bare (candidates_trimmed hc).1 (h c hc)
    refine ⟨?_, ?_, ?_, fun _ _ => selectEndpoint_idempotent⟩
    · intro s hs c hc
      obtain ⟨hmem, hm⟩ := List.mem_filter.mp ((split_selected hs).1 ▸ hc)
      exact (hagrees c hmem).1 hm
    · intro s hs c hc
      obtain ⟨hmem, hm⟩ := List.mem_filter.mp ((split_selected hs).1 ▸ hc)
      exact (hagrees c hmem).2 (by simpa using hm)
    · intro hne
      have hselected : select .auto (candidates configured) ≠ [] := fun hnil =>
        hne (List.perm_nil.mp (hnil ▸ select_auto_perm).symm)
      have hok := selectEndpoint_eq_ok_iff.mpr ⟨hselected, rfl⟩
      refine ⟨_, hok, ?_⟩
      rw [(split_selected hok).1]
      exact ⟨select_auto_perm, select_auto_pairwise hagrees,
        filter_select_auto (.inl fun c hc => (hagrees c hc).1),
        filter_select_auto (.inr fun c hc => (hagrees c hc).2)⟩

/-- In mode M5oH the only candidate is kept, and it parses to the raw address `http:`. -/
theorem forced_m5oh_selects_raw :
    selectEndpoint "http://".toList .m5oh = .ok "http://".toList ∧
      parseEndpoint (fun _ => none) "http://".toList = .ok ⟨"http:".toList, none, none⟩ ∧
      ¬ Honest (fun _ => none) "http://".toList := by
  have hselect : selectEndpoint "http://".toList .m5oh = .ok "http://".toList := by decide +kernel
  have hparse : parseEndpoint (fun _ => none) "http://".toList = .ok ⟨"http:".toList, none,
    none⟩ := by decide +kernel
  refine ⟨hselect, hparse, fun h => ?_⟩
  have hraw := h.m5oh _ hselect "http://".toList (by decide +kernel)
  rw [parsesRaw, hparse] at hraw
  cases hraw

end Mst5Client.TransportSelection
