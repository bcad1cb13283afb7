import Mathlib.Data.List.TakeWhile
import Mst5Client.Endpoints

set_option autoImplicit false

/-!
# The authority of an M5oH endpoint

The grammar of an authority and the one family of texts on which the parser leaves it: what follows
a closing bracket and does not start with a colon is dropped.
-/
namespace Mst5Client.EndpointGrammar
open IoResult HttpResponses TextParts Endpoints
open AccountClient (isWhiteSpace isControl)

variable {defaultPort port : ℕ} {authority host written : Text}

/-- The port that a text after a colon stands for. -/
def PortText (written : Text) (port : ℕ) : Prop :=
  parseUnsigned 65536 written = some port ∧ port ≠ 0

def PlainHost (host : Text) : Prop := host ≠ [] ∧ ':' ∉ host ∧ host.head? ≠ some '['

def BracketedHost (host : Text) : Prop := host ≠ [] ∧ ']' ∉ host

instance (written : Text) (port : ℕ) : Decidable (PortText written port) :=
  inferInstanceAs (Decidable (parseUnsigned 65536 written = some port ∧ port ≠ 0))

instance (host : Text) : Decidable (BracketedHost host) :=
  inferInstanceAs (Decidable (host ≠ [] ∧ ']' ∉ host))

/-- The authority stands for the host and the port. -/
inductive Denotes (defaultPort : ℕ) : Text → Text → ℕ → Prop
  | plain {host : Text} : PlainHost host → defaultPort ≠ 0 → Denotes defaultPort host host defaultPort
  | plainPort {host written : Text} {port : ℕ} : PlainHost host → PortText written port →
      Denotes defaultPort (host ++ ':' :: written) host port
  | bracketed {host : Text} : BracketedHost host → defaultPort ≠ 0 →
      Denotes defaultPort ('[' :: host ++ [']']) host defaultPort
  | bracketedPort {host written : Text} {port : ℕ} : BracketedHost host → PortText written port →
      Denotes defaultPort ('[' :: host ++ ']' :: ':' :: written) host port

/-- A bracketed host with something behind it that is no port. -/
def Trailing (authority host : Text) : Prop :=
  BracketedHost host ∧ ∃ junk, authority = '[' :: host ++ ']' :: junk ∧ junk ≠ [] ∧
    junk.head? ≠ some ':'

theorem parsePort_eq_ok_iff : parsePort written = .ok port ↔
    parseUnsigned 65536 written = some port := by
  unfold parsePort
  cases parseUnsigned 65536 written with
  | none =>
    refine iff_of_false (fun h => ?_) (fun h => ?_)
    · cases h
    · cases h
  | some p =>
    constructor
    · intro h
      cases h
      rfl
    · intro h
      cases h
      rfl

theorem parsePort_map_eq_ok_iff {name : Text} :
    (parsePort written).map (fun p => (name, p)) = .ok (host, port) ↔
    name = host ∧ parseUnsigned 65536 written = some port := by
  rw [← parsePort_eq_ok_iff]
  cases parsePort written with
  | error e =>
    refine iff_of_false (fun h => ?_) (fun h => ?_)
    · cases h
    · cases h.2
  | ok p =>
    constructor
    · intro h
      cases h
      exact ⟨rfl, rfl⟩
    · rintro ⟨rfl, h⟩
      cases h
      rfl

theorem parsePort_nil : parseUnsigned 65536 [] = none := rfl

theorem hostAndPort_bracketed {name rest : Text} (hname : ']' ∉ name) :
    hostAndPort defaultPort ('[' :: name ++ ']' :: rest) = .ok (host, port) ↔
      name = host ∧ ((∃ written, rest = ':' :: written ∧ parseUnsigned 65536 written = some port) ∨
        rest.head? ≠ some ':' ∧ port = defaultPort) := by
  rw [hostAndPort, List.cons_append, stripPrefix_singleton]
  dsimp only
  rw [splitOnce_append hname]
  dsimp only
  by_cases hcolon : rest.head? = some ':'
  · obtain ⟨written, rfl⟩ := List.head?_eq_some_iff.mp hcolon
    rw [stripPrefix_singleton]
    have hright : (∃ w, ':' :: written = ':' :: w ∧ parseUnsigned 65536 w = some port) ↔
        parseUnsigned 65536 written = some port := by
      constructor
      · rintro ⟨w, hw, hport⟩
        cases hw
        exact hport
      · exact fun hport => ⟨written, rfl, hport⟩
    rw [hright, or_iff_left (fun h => h.1 hcolon)]
    cases written with
    | nil =>
      refine iff_of_false (fun h => ?_) (fun h => ?_)
      · cases h
      · rw [parsePort_nil] at h
        cases h.2
    | cons c written => exact parsePort_map_eq_ok_iff
  · rw [stripPrefix_of_head?_ne hcolon]
    constructor
    · intro h
      cases h
      exact ⟨rfl, .inr ⟨hcolon, rfl⟩⟩
    · rintro ⟨rfl, ⟨written, rfl, -⟩ | ⟨-, rfl⟩⟩
      · exact absurd rfl hcolon
      · rfl

theorem colon_notMem_of_parse (h : parseUnsigned 65536 written = some port) : ':' ∉ written := by
  intro hcolon
  unfold parseUnsigned at h
  split at h
  next rest =>
    dsimp only at h
    split_ifs at h with hdigits
    have hrest : ':' ∈ rest := (List.mem_cons.mp hcolon).resolve_left (by decide)
    exact absurd (List.all_eq_true.mp hdigits.2.1 ':' hrest) (by decide)
  next =>
    dsimp only at h
    split_ifs at h with hdigits
    exact absurd (List.all_eq_true.mp hdigits.2.1 ':' hcolon) (by decide)

theorem hostAndPort_plain (hhead : authority.head? ≠ some '[') :
    hostAndPort defaultPort authority = .ok (host, port) ↔
      ':' ∉ host ∧ ((∃ written, authority = host ++ ':' :: written ∧
        parseUnsigned 65536 written = some port) ∨ authority = host ∧ port = defaultPort) := by
  rw [hostAndPort, stripPrefix_of_head?_ne hhead]
  dsimp only
  by_cases hcolon : ':' ∈ authority
  · -- the split is at the last colon, and a port has none
    have hwhole : ∀ {name : Text}, ':' ∉ name → authority ≠ name := fun hname heq =>
      hname (heq ▸ hcolon)
    obtain ⟨⟨name, port'⟩, hsplit⟩ := Option.ne_none_iff_exists'.mp fun h =>
      rsplitOnce_eq_none_iff.mp h hcolon
    rw [hsplit]
    dsimp only
    have hparts : ∀ {written : Text}, authority = host ++ ':' :: written →
        parseUnsigned 65536 written = some port → name = host ∧ port' = written := by
      intro written heq hport
      rw [heq, rsplitOnce_append (colon_notMem_of_parse hport)] at hsplit
      cases hsplit
      exact ⟨rfl, rfl⟩
    obtain ⟨hauthority, -⟩ := rsplitOnce_eq_some_iff.mp hsplit
    rw [ite_error_eq_ok, parsePort_map_eq_ok_iff]
    constructor
    · rintro ⟨hname, rfl, hport⟩
      exact ⟨hname, .inl ⟨port', hauthority, hport⟩⟩
    · rintro ⟨hhost, ⟨written, heq, hport⟩ | ⟨heq, -⟩⟩
      · obtain ⟨rfl, rfl⟩ := hparts heq hport
        exact ⟨hhost, rfl, hport⟩
      · exact absurd heq (hwhole hhost)
  · rw [rsplitOnce_of_notMem hcolon]
    constructor
    · intro h
      cases h
      exact ⟨hcolon, .inr ⟨rfl, rfl⟩⟩
    · rintro ⟨-, ⟨written, rfl, -⟩ | ⟨rfl, rfl⟩⟩
      · exact absurd (List.mem_append_right host List.mem_cons_self) hcolon
      · rfl

theorem hostAndPort_denotes :
    hostAndPort defaultPort authority = .ok (host, port) ∧ host ≠ [] ∧ port ≠ 0 ↔
    Denotes defaultPort authority host port ∨
      Trailing authority host ∧ port = defaultPort ∧ port ≠ 0 := by
  constructor
  · rintro ⟨hok, hne, hport⟩
    by_cases hhead : authority.head? = some '['
    · obtain ⟨inner, rfl⟩ := List.head?_eq_some_iff.mp hhead
      by_cases hclose : ']' ∈ inner
      · obtain ⟨name, rest, rfl, hname⟩ := List.eq_append_cons_of_mem hclose
        obtain ⟨rfl, ⟨written, rfl, hwritten⟩ | ⟨hrest, rfl⟩⟩ := (hostAndPort_bracketed hname).mp hok
        · exact .inl (.bracketedPort ⟨hne, hname⟩ ⟨hwritten, hport⟩)
        · by_cases hnil : rest = []
          · subst hnil
            exact .inl (.bracketed ⟨hne, hname⟩ hport)
          · exact .inr ⟨⟨⟨hne, hname⟩, rest, rfl, hnil, hrest⟩, rfl, hport⟩
      · rw [hostAndPort, stripPrefix_singleton] at hok
        dsimp only at hok
        rw [splitOnce_of_notMem hclose] at hok
        cases hok
    · obtain ⟨hcolon, ⟨written, rfl, hwritten⟩ | ⟨rfl, rfl⟩⟩ := (hostAndPort_plain hhead).mp hok
      · have hhost : host.head? ≠ some '[' := by rwa [List.head?_append_of_ne_nil host hne] at hhead
        exact .inl (.plainPort ⟨hne, hcolon, hhost⟩ ⟨hwritten, hport⟩)
      · exact .inl (.plain ⟨hne, hcolon, hhead⟩ hport)
  · rintro (hdenotes | ⟨⟨⟨hne, hname⟩, junk, rfl, -, hjunk⟩, rfl, hport⟩)
    · cases hdenotes with
      | plain hhost hport =>
        exact ⟨(hostAndPort_plain hhost.2.2).mpr ⟨hhost.2.1, .inr ⟨rfl, rfl⟩⟩, hhost.1, hport⟩
      | @plainPort _ written _ hhost hport =>
        have hhead : (host ++ ':' :: written).head? ≠ some '[' := by
          rw [List.head?_append_of_ne_nil host hhost.1]
          exact hhost.2.2
        exact ⟨(hostAndPort_plain hhead).mpr ⟨hhost.2.1, .inl ⟨written, rfl, hport.1⟩⟩, hhost.1,
          hport.2⟩
      | bracketed hhost hport =>
        exact ⟨(hostAndPort_bracketed hhost.2).mpr ⟨rfl,
          .inr ⟨Option.some_ne_none ':' ∘ Eq.symm, rfl⟩⟩, hhost.1, hport⟩
      | @bracketedPort _ written _ hhost hport =>
        exact ⟨(hostAndPort_bracketed hhost.2).mpr ⟨rfl, .inl ⟨written, rfl, hport.1⟩⟩, hhost.1,
          hport.2⟩
    · exact ⟨(hostAndPort_bracketed hname).mpr ⟨rfl, .inr ⟨hjunk, rfl⟩⟩, hne, hport⟩

theorem not_denotes_of_trailing {name : Text} (h : Trailing authority name) :
    ¬ Denotes defaultPort authority host port := by
  obtain ⟨hname, junk, rfl, hne, hjunk⟩ := h
  intro hdenotes
  have hsame : ∀ {other rest : Text}, BracketedHost other →
      '[' :: name ++ ']' :: junk = '[' :: other ++ ']' :: rest → junk = rest := by
    intro other rest hother heq
    have hsplit := congrArg (fun cs => splitOnce ']' cs.tail) heq
    dsimp only [List.cons_append, List.tail_cons] at hsplit
    rw [splitOnce_append hname.2, splitOnce_append hother.2] at hsplit
    cases hsplit
    rfl
  generalize heq : '[' :: name ++ ']' :: junk = authority at hdenotes
  cases hdenotes with
  | plain hhost _ => exact hhost.2.2 (heq ▸ rfl)
  | plainPort hhost _ =>
    refine hhost.2.2 ?_
    rw [← List.head?_append_of_ne_nil host hhost.1, ← heq]
    rfl
  | bracketed hhost _ => exact hne (hsame hhost heq)
  | bracketedPort hhost _ => exact hjunk (hsame hhost heq ▸ rfl)

theorem host_subset (h : Denotes defaultPort authority host port ∨ Trailing authority host) :
    host ⊆ authority := by
  intro c hc
  rcases h with h | ⟨-, junk, rfl, -⟩
  · cases h with
    | plain => exact hc
    | plainPort => exact List.mem_append_left _ hc
    | bracketed => exact List.mem_append_left _ (List.mem_cons_of_mem _ hc)
    | bracketedPort => exact List.mem_append_left _ (List.mem_cons_of_mem _ hc)
  · exact List.mem_append_left _ (List.mem_cons_of_mem _ hc)

theorem parseUnsigned_lt (h : parseUnsigned 65536 written = some port) : port < 65536 := by
  unfold parseUnsigned at h
  dsimp only at h
  split_ifs at h with hfits
  cases h
  exact hfits.2.2

theorem port_lt (hdefault : defaultPort < 65536) (h : Denotes defaultPort authority host port) :
    port < 65536 := by
  cases h with
  | plain => exact hdefault
  | plainPort _ hport => exact parseUnsigned_lt hport.1
  | bracketed => exact hdefault
  | bracketedPort _ hport => exact parseUnsigned_lt hport.1

theorem bracketed_of_colon (h : Denotes defaultPort authority host port ∨ Trailing authority host)
    (hcolon : ':' ∈ host) : BracketedHost host := by
  rcases h with h | h
  · cases h with
    | plain hhost _ => exact absurd hcolon hhost.2.1
    | plainPort hhost _ => exact absurd hcolon hhost.2.1
    | bracketed hhost _ => exact hhost
    | bracketedPort hhost _ => exact hhost
  · exact h.1

variable {socketAddr : Text → Option SocketAddrV4} {value : Text} {tls : Bool}

/-- The parser accepts the text with this host and this port. -/
def Accepts (socketAddr : Text → Option SocketAddrV4) (value : Text) (defaultPort : ℕ) (tls : Bool)
    (host : Text) (port : ℕ) : Prop :=
  ∃ endpoint route, parseM5ohEndpoint socketAddr value defaultPort tls = .ok (endpoint, route) ∧
    endpoint.host = host ∧ endpoint.port = port

def authorityOf (value : Text) : Text := value.takeWhile (· ≠ '/')

/-- Neither white space nor control characters. -/
def Clean (cs : Text) : Prop := ∀ c ∈ cs, (isWhiteSpace c || isControl c) = false

instance (cs : Text) : Decidable (Clean cs) :=
  List.decidableBAll (fun c => (isWhiteSpace c || isControl c) = false) cs

/-- What follows the first slash is nothing or a packet destination. -/
def RouteOk (socketAddr : Text → Option SocketAddrV4) (value : Text) : Prop :=
  ∀ address route, splitOnce '/' value = some (address, route) → route ≠ [] →
    (packetDestination socketAddr route).isSome

theorem slash_notMem_authorityOf (value : Text) : '/' ∉ authorityOf value := by
  intro h
  exact absurd (List.mem_takeWhile_imp h) (by decide)

theorem authorityOf_append {address route : Text} (h : '/' ∉ address) :
    authorityOf (address ++ '/' :: route) = address := by
  have haddress : ∀ c ∈ address, decide (c ≠ '/') = true := fun c hc => decide_eq_true fun heq =>
    h (heq ▸ hc)
  rw [authorityOf, List.takeWhile_append_of_pos haddress, List.takeWhile_cons_of_neg (by decide),
    List.append_nil]

theorem authorityOf_of_notMem (h : '/' ∉ value) : authorityOf value = value :=
  List.takeWhile_eq_self_iff.mpr fun _ hc => decide_eq_true fun heq => h (heq ▸ hc)

theorem addressAndRoute_of_notMem (h : '/' ∉ value) :
    addressAndRoute socketAddr value = .ok (value, none) := by
  rw [addressAndRoute, splitOnce_of_notMem h]

theorem addressAndRoute_of_routeOk (h : RouteOk socketAddr value) :
    ∃ route, addressAndRoute socketAddr value = .ok (authorityOf value, route) := by
  by_cases hslash : '/' ∈ value
  · obtain ⟨address, route, rfl, haddress⟩ := List.eq_append_cons_of_mem hslash
    have hsplit : splitOnce '/' (address ++ '/' :: route) = some (address, route) :=
      splitOnce_append haddress
    rw [authorityOf_append haddress, addressAndRoute, hsplit]
    cases route with
    | nil => exact ⟨none, rfl⟩
    | cons c route =>
      have hsome := h address (c :: route) hsplit (List.cons_ne_nil c route)
      have hnone : ¬ (packetDestination socketAddr (c :: route)).isNone = true := by
        obtain ⟨destination, hdestination⟩ := Option.isSome_iff_exists.mp hsome
        rw [hdestination]
        exact Bool.false_ne_true
      exact ⟨some (c :: route), if_neg hnone⟩
  · exact ⟨none, by rw [authorityOf_of_notMem hslash, addressAndRoute_of_notMem hslash]⟩

theorem parse_eq_ok_iff {endpoint : Endpoint} {route : Option Text} :
    parseM5ohEndpoint socketAddr value defaultPort tls = .ok (endpoint, route) ↔
      ∃ address host port, addressAndRoute socketAddr value = .ok (address, route) ∧
        badAddress address = false ∧
        (hostAndPort defaultPort address = .ok (host, port) ∧ host ≠ [] ∧ port ≠ 0) ∧
        endpoint = ⟨host, port, tls, route⟩ := by
  constructor
  · intro h
    obtain ⟨⟨address, found⟩, haddress, h⟩ := bind_eq_ok h
    obtain ⟨hgood, h⟩ := ite_error_eq_ok.mp h
    obtain ⟨⟨host, port⟩, hparts, h⟩ := bind_eq_ok h
    obtain ⟨hvalid, h⟩ := ite_error_eq_ok.mp h
    cases h
    obtain ⟨hhost, hport⟩ := not_or.mp hvalid
    exact ⟨address, host, port, haddress, Bool.eq_false_of_not_eq_true hgood,
      ⟨hparts, hhost, hport⟩, rfl⟩
  · rintro ⟨address, host, port, haddress, hgood, ⟨hparts, hhost, hport⟩, rfl⟩
    rw [parseM5ohEndpoint, bind_of_ok haddress]
    refine ite_error_eq_ok.mpr ⟨Bool.not_eq_true _ ▸ hgood, ?_⟩
    rw [bind_of_ok hparts]
    exact ite_error_eq_ok.mpr ⟨not_or.mpr ⟨hhost, hport⟩, rfl⟩

theorem badAddress_eq_false_iff {address : Text} :
    badAddress address = false ↔ address ≠ [] ∧ '/' ∉ address ∧ Clean address := by
  rw [badAddress, decide_eq_false_iff_not, not_or, not_or, Bool.not_eq_true, List.any_eq_false]
  simp only [Clean, Bool.not_eq_true, ne_eq]

theorem accepts_iff {route : Option Text}
    (haddress : addressAndRoute socketAddr value = .ok (authority, route))
    (hslash : '/' ∉ authority) (hclean : Clean authority) :
    Accepts socketAddr value defaultPort tls host port ↔
      Denotes defaultPort authority host port ∨ Trailing authority host ∧ port = defaultPort ∧
        port ≠ 0 := by
  rw [← hostAndPort_denotes]
  constructor
  · rintro ⟨endpoint, route', hparse, rfl, rfl⟩
    obtain ⟨address, host, port, haddress', -, hparts, rfl⟩ := parse_eq_ok_iff.mp hparse
    rw [haddress] at haddress'
    cases haddress'
    exact hparts
  · intro hparts
    have hne : authority ≠ [] := by
      rintro rfl
      have hnil : hostAndPort defaultPort [] = .ok ([], defaultPort) := rfl
      rw [hnil] at hparts
      cases hparts.1
      exact hparts.2.1 rfl
    exact ⟨_, route, parse_eq_ok_iff.mpr ⟨authority, host, port, haddress,
      badAddress_eq_false_iff.mpr ⟨hne, hslash, hclean⟩, hparts, rfl⟩, rfl, rfl⟩

theorem Clean.authorityOf (h : Clean value) : Clean (authorityOf value) :=
  fun c hc => h c (List.takeWhile_subset _ hc)

/-- The parser keeps to the grammar exactly where nothing that is no port follows a closing bracket. -/
theorem authority_grammar_iff (socketAddr : Text → Option SocketAddrV4) (value : Text)
    (defaultPort : ℕ) (tls : Bool) (hclean : Clean value) (hroute : RouteOk socketAddr value) :
    (∀ host port, Accepts socketAddr value defaultPort tls host port ↔
        Denotes defaultPort (authorityOf value) host port) ↔
      ¬ (defaultPort ≠ 0 ∧ ∃ host, Trailing (authorityOf value) host) := by
  obtain ⟨route, haddress⟩ := addressAndRoute_of_routeOk hroute
  have haccepts : ∀ host port, Accepts socketAddr value defaultPort tls host port ↔
      Denotes defaultPort (authorityOf value) host port ∨
        Trailing (authorityOf value) host ∧ port = defaultPort ∧ port ≠ 0 := fun host port =>
    accepts_iff haddress (slash_notMem_authorityOf value) hclean.authorityOf
  constructor
  · rintro h ⟨hdefault, host, htrailing⟩
    have haccepted := (haccepts host defaultPort).mpr (.inr ⟨htrailing, rfl, hdefault⟩)
    exact not_denotes_of_trailing htrailing ((h host defaultPort).mp haccepted)
  · intro h host port
    rw [haccepts, or_iff_left]
    rintro ⟨htrailing, rfl, hport⟩
    exact h ⟨hport, host, htrailing⟩

theorem authority_grammar_iff_sample :
    Clean "[::1]:8443".toList ∧
      Accepts (fun _ => none) "[::1]:8443".toList 443 true "::1".toList 8443 := by
  have hclean : Clean "[::1]:8443".toList := by decide +kernel
  have hroute : RouteOk (fun _ => none) "[::1]:8443".toList := by
    intro address route h
    cases h
  have hbracketed : BracketedHost "::1".toList := by decide +kernel
  have hport : PortText "8443".toList 8443 := by decide +kernel
  have hdenotes : Denotes 443 "[::1]:8443".toList "::1".toList 8443 := .bracketedPort hbracketed hport
  have hgrammar := authority_grammar_iff (fun _ => none) "[::1]:8443".toList 443 true hclean hroute
  refine ⟨hclean, (hgrammar.mpr ?_ _ _).mpr hdenotes⟩
  rintro ⟨-, host, hhost⟩
  exact not_denotes_of_trailing hhost hdenotes

/-- The digits behind the bracket look like a port, and the connection goes to the default one. -/
theorem trailing_port_ignored :
    Accepts (fun _ => none) "[::1]8080".toList 443 true "::1".toList 443 ∧
      ¬ Denotes 443 "[::1]8080".toList "::1".toList 443 := by
  have hbracketed : BracketedHost "::1".toList := by decide +kernel
  have htrailing : Trailing "[::1]8080".toList "::1".toList :=
    ⟨hbracketed, "8080".toList, by decide +kernel⟩
  have hparse : parseM5ohEndpoint (fun _ => none) "[::1]8080".toList 443 true =
      .ok (⟨"::1".toList, 443, true, none⟩, none) := by decide +kernel
  exact ⟨⟨_, none, hparse, rfl, rfl⟩, not_denotes_of_trailing htrailing⟩

variable {endpoint : Endpoint} {route : Option Text}

theorem digit_plain {c : Char} (h : c.isDigit = true) :
    c ≠ '/' ∧ c ≠ ']' ∧ (isWhiteSpace c || isControl c) = false := by
  have hrange : 48 ≤ c.toNat ∧ c.toNat ≤ 57 := by
    simpa [Char.isDigit, UInt32.le_iff_toNat_le] using h
  have hne : ∀ d : Char, ¬ (48 ≤ d.toNat ∧ d.toNat ≤ 57) → c ≠ d := fun d hd heq => hd (heq ▸ hrange)
  refine ⟨hne _ (by decide), hne _ (by decide), ?_⟩
  rw [Bool.or_eq_false_iff, isWhiteSpace, isControl, decide_eq_false_iff_not, decide_eq_false_iff_not]
  omega

theorem parsed_endpoint
    (h : parseM5ohEndpoint socketAddr value (defaultPortOf tls) tls = .ok (endpoint, route)) :
    endpoint.host ≠ [] ∧ endpoint.port ≠ 0 ∧ endpoint.port < 65536 ∧ '/' ∉ endpoint.host ∧
      Clean endpoint.host ∧
      endpoint.tls = tls ∧ (':' ∈ endpoint.host → BracketedHost endpoint.host) := by
  obtain ⟨address, host, port, -, hgood, hparts, rfl⟩ := parse_eq_ok_iff.mp h
  obtain ⟨-, hslash, hclean⟩ := badAddress_eq_false_iff.mp hgood
  have hdefault : defaultPortOf tls < 65536 := by
    cases tls with
    | false => decide
    | true => decide
  have hforms := hostAndPort_denotes.mp hparts
  have hhost := hforms.imp_right And.left
  have hport : port < 65536 := by
    rcases hforms with hdenotes | ⟨-, rfl, -⟩
    · exact port_lt hdefault hdenotes
    · exact hdefault
  exact ⟨hparts.2.1, hparts.2.2, hport, fun hc => hslash (host_subset hhost hc),
    fun c hc => hclean c (host_subset hhost hc), rfl, bracketed_of_colon hhost⟩

theorem plain_of_notMem {defaultPort : ℕ} {authority : Text}
    (hbracket : ']' ∈ authority → ']' ∈ host)
    (h : Denotes defaultPort authority host port ∨ Trailing authority host) : PlainHost host := by
  have hclose : ∀ rest : Text, ']' ∈ '[' :: host ++ ']' :: rest := fun rest =>
    List.mem_append_right _ List.mem_cons_self
  rcases h with h | ⟨hhost, junk, rfl, -⟩
  · cases h with
    | plain hhost _ => exact hhost
    | plainPort hhost _ => exact hhost
    | bracketed hhost _ => exact absurd (hbracket (hclose [])) hhost.2
    | bracketedPort hhost _ => exact absurd (hbracket (hclose _)) hhost.2
  · exact absurd (hbracket (hclose junk)) hhost.2

theorem hostHeader_eq (htls : endpoint.tls = tls) : endpoint.hostHeader =
    if endpoint.port = defaultPortOf tls then endpoint.host
    else if ':' ∈ endpoint.host then '[' :: endpoint.host ++ ']' :: ':' :: digits endpoint.port
    else endpoint.host ++ ':' :: digits endpoint.port := by
  have hcondition : (endpoint.tls = true ∧ endpoint.port = 443 ∨ ¬ endpoint.tls = true ∧
      endpoint.port = 80) ↔ endpoint.port = defaultPortOf tls := by
    rw [htls, defaultPortOf]
    cases tls with
    | false => simp
    | true => simp
  rw [Endpoint.hostHeader]
  exact if_congr hcondition rfl rfl

theorem mem_hostHeader {c : Char} (h : c ∈ endpoint.hostHeader) :
    c ∈ endpoint.host ∨ c ∈ ['[', ']', ':'] ∨ c.isDigit = true := by
  unfold Endpoint.hostHeader at h
  split_ifs at h with hdefault hcolon
  · exact .inl h
  · simp only [List.mem_append, List.mem_cons] at h
    rcases h with (rfl | h) | rfl | rfl | h
    · exact .inr (.inl (by decide))
    · exact .inl h
    · exact .inr (.inl (by decide))
    · exact .inr (.inl (by decide))
    · exact .inr (.inr (isDigit_of_mem_digits h))
  · simp only [List.mem_append, List.mem_cons] at h
    rcases h with h | rfl | h
    · exact .inl h
    · exact .inr (.inl (by decide))
    · exact .inr (.inr (isDigit_of_mem_digits h))

theorem hostHeader_plain (hslash : '/' ∉ endpoint.host) (hclean : Clean endpoint.host) :
    '/' ∉ endpoint.hostHeader ∧ Clean endpoint.hostHeader := by
  constructor
  · intro h
    rcases mem_hostHeader h with h | h | h
    · exact hslash h
    · exact absurd h (by decide)
    · exact (digit_plain h).1 rfl
  · intro c hc
    rcases mem_hostHeader hc with h | h | h
    · exact hclean c h
    · have hpunctuation : Clean ['[', ']', ':'] := by decide +kernel
      exact hpunctuation c h
    · exact (digit_plain h).2.2

/-- The Host header is read back as the endpoint exactly where a host with a colon has a port of its
own and a host without one does not start with a bracket. -/
theorem host_header_reads_back_iff (socketAddr : Text → Option SocketAddrV4) (value : Text)
    (tls : Bool) (endpoint : Endpoint) (route : Option Text)
    (h : parseM5ohEndpoint socketAddr value (defaultPortOf tls) tls = .ok (endpoint, route)) :
    Accepts socketAddr endpoint.hostHeader (defaultPortOf tls) tls endpoint.host endpoint.port ↔
      (':' ∈ endpoint.host → endpoint.port ≠ defaultPortOf tls) ∧
        (':' ∉ endpoint.host → endpoint.host.head? ≠ some '[') := by
  obtain ⟨hne, hport, hbound, hslash, hclean, htls, hbracketed⟩ := parsed_endpoint h
  obtain ⟨hslash', hclean'⟩ := hostHeader_plain hslash hclean
  have hheader := hostHeader_eq htls
  have hwritten : PortText (digits endpoint.port) endpoint.port := ⟨parseUnsigned_digits hbound, hport⟩
  rw [accepts_iff (addressAndRoute_of_notMem hslash') hslash' hclean']
  constructor
  · intro hforms
    have hplain : (']' ∈ endpoint.hostHeader → ']' ∈ endpoint.host) →
      PlainHost endpoint.host := fun hbracket =>
      plain_of_notMem hbracket (hforms.imp_right And.left)
    constructor
    · intro hcolon hdefault
      rw [if_pos hdefault] at hheader
      exact (hplain fun hmem => hheader ▸ hmem).2.1 hcolon
    · intro hcolon
      refine (hplain fun hmem => ?_).2.2
      rw [hheader, if_neg hcolon] at hmem
      split_ifs at hmem
      · exact hmem
      · simp only [List.mem_append, List.mem_cons] at hmem
        rcases hmem with hmem | hmem | hmem
        · exact hmem
        · exact absurd hmem (by decide)
        · exact absurd rfl (digit_plain (isDigit_of_mem_digits hmem)).2.1
  · rintro ⟨hcolons, hplain⟩
    refine .inl ?_
    rw [hheader]
    by_cases hcolon : ':' ∈ endpoint.host
    · rw [if_neg (hcolons hcolon), if_pos hcolon]
      exact .bracketedPort (hbracketed hcolon) hwritten
    · have hhost : PlainHost endpoint.host := ⟨hne, hcolon, hplain hcolon⟩
      rw [if_neg hcolon]
      split_ifs with hdefault
      · have hdenotes : Denotes (defaultPortOf tls) endpoint.host endpoint.host (defaultPortOf tls) :=
          .plain hhost (hdefault ▸ hport)
        rw [hdefault]
        exact hdenotes
      · exact .plainPort hhost hwritten

theorem host_header_reads_back_iff_sample :
    Accepts (fun _ => none) "[::1]:8443".toList 443 true "::1".toList 8443 := by
  have hparse : parseM5ohEndpoint (fun _ => none) "[::1]:8443".toList (defaultPortOf true) true =
      .ok (⟨"::1".toList, 8443, true, none⟩, none) := by decide +kernel
  exact (host_header_reads_back_iff (fun _ => none) "[::1]:8443".toList true _ none hparse).mpr
    (by decide +kernel)

/-- At the default port an IPv6 host loses its brackets, and the header is refused. -/
theorem host_header_drops_brackets :
    parseM5ohEndpoint (fun _ => none) "[::1]".toList 443 true =
      .ok (⟨"::1".toList, 443, true, none⟩, none) ∧
      (⟨"::1".toList, 443, true, none⟩ : Endpoint).hostHeader = "::1".toList ∧
      parseM5ohEndpoint (fun _ => none) "::1".toList 443 true =
        .error (invalidInput "M5oH IPv6 endpoints must use brackets") := by
  decide +kernel

end Mst5Client.EndpointGrammar
