import Mst5Client.Base64Text
import Mst5Client.BrowserTunnel
import Mst5Client.ContextBinding
import Mst5Client.Endpoints
import Mst5Client.TunnelUpload

set_option autoImplicit false

/-!
# Targets of M5oH requests

`get_target` of `m5oh.rs` and, for the browser, `encode_route` and the URL of `fetch`.
-/
namespace Mst5Client.RequestTargets
open ByteOrder IdentityMessages Base64Text HttpResponses TextParts Endpoints
open BrowserRecords (JsError)
open ContextBinding (utf8_append)

def wireOrder : List (Fin 8) := [0, 7, 3, 5, 1, 6, 4, 2]

def permute (logical : Block 8) : Block 8 := ⟨wireOrder.map logical.get, rfl⟩

def logicalRoute (destination : SocketAddrV4) : Block 8 :=
  ⟨beBytes 2 destination.port.toNat ++ destination.octets.toList ++ [0, 0], by
    rw [List.length_append, List.length_append, beBytes_length, List.Vector.toList_length]
    rfl⟩

def packetRoutePermute (destination : SocketAddrV4) : Block 8 := permute (logicalRoute destination)

def alphabetTable : List Char :=
  "ABCDEFGHIJKLMNOPQRSTUVWXYZabcdefghijklmnopqrstuvwxyz0123456789-_".toList

def alphabetChar (index : UInt8) : Char := alphabetTable.getD index.toNat 'A'

def encodeChunks : Bytes → List Char
  | [] => []
  | [first] => [alphabetChar (first >>> 2), alphabetChar ((first &&& 0x03) <<< 4 ||| (0 : UInt8) >>> 4)]
  | [first, second] =>
    [alphabetChar (first >>> 2), alphabetChar ((first &&& 0x03) <<< 4 ||| second >>> 4),
      alphabetChar ((second &&& 0x0f) <<< 2 ||| (0 : UInt8) >>> 6)]
  | first :: second :: third :: rest =>
    alphabetChar (first >>> 2) :: alphabetChar ((first &&& 0x03) <<< 4 ||| second >>> 4) ::
      alphabetChar ((second &&& 0x0f) <<< 2 ||| third >>> 6) :: alphabetChar (third &&& 0x3f) ::
        encodeChunks rest

def base64urlNoPad (input : Bytes) : String := String.ofList (encodeChunks input)

def getTarget (_route : Option Text) (packetDestination : Option SocketAddrV4) (payload : Bytes) :
    String :=
  match packetDestination with
  | some destination => "/?r=" ++ base64urlNoPad ((packetRoutePermute destination).toList ++ payload)
  | none => if payload = [] then "/" else "/?r=" ++ base64urlNoPad payload

section Browser

/-- An engine of the `base64` crate. -/
structure Engine where
  encode : Bytes → String
  decode : String → Option Bytes

/-- The engine writes unpadded base64url and reads what it has written. -/
structure Engine.UrlSafeNoPad (engine : Engine) : Prop where
  encode_eq : ∀ bytes, engine.encode bytes = Alphabet.urlSafe.text false bytes
  decode_encode : ∀ bytes, engine.decode (engine.encode bytes) = some bytes

variable (engine : Engine)

def encodeRoute (ipv4 : Text) (port reserved : UInt16) : Except JsError String :=
  match (ipv4.splitOn '.').mapM (parseUnsigned 256) with
  | some [o₀, o₁, o₂, o₃] =>
    .ok (engine.encode (permute ⟨[(port >>> 8).toUInt8, port.toUInt8, UInt8.ofNat o₀,
      UInt8.ofNat o₁, UInt8.ofNat o₂,
      UInt8.ofNat o₃, (reserved >>> 8).toUInt8, reserved.toUInt8], rfl⟩).toList)
  | _ => .error ⟨"route IPv4 address is invalid"⟩

structure M5ohFetch where
  endpoint : Text
  route : String

def isSelectorByte (byte : UInt8) : Bool :=
  (65 ≤ byte && byte ≤ 90) || (97 ≤ byte && byte ≤ 122) || (48 ≤ byte && byte ≤ 57) || byte =
    45 || byte = 95

def M5ohFetch.new (endpoint : Text) (route : String) : Except JsError M5ohFetch :=
  let endpoint := trimEndMatches '/' endpoint
  if ¬ "https://".toList <+: endpoint then .error ⟨"browser M5oHS endpoint must use HTTPS"⟩
  else if (utf8 route).length ≠ 11 ∨ ¬ (utf8 route).all isSelectorByte then
    .error ⟨"M5oH route must be an eight-byte base64url selector"⟩
  else .ok ⟨endpoint, route⟩

def M5ohFetch.url (fetch : M5ohFetch) (record : Option Bytes) : Except JsError String :=
  match record with
  | some record =>
    match engine.decode fetch.route with
    | none => .error ⟨"invalid M5oH route selector"⟩
    | some packet => .ok (String.ofList fetch.endpoint ++ "/?r=" ++ engine.encode (packet ++ record))
  | none => .ok (String.ofList fetch.endpoint ++ "/?r=" ++ fetch.route)

def ipv4Text (octets : Block 4) : Text :=
  ['.'].intercalate (octets.toList.map fun octet => digits octet.toNat)

end Browser

def urlChar (n : ℕ) : Char := Char.ofNat (Alphabet.urlSafe.byte (sextet n)).toNat

theorem alphabetChar_eq : ∀ n < 64, alphabetChar (UInt8.ofNat n) = urlChar n := by decide +kernel

theorem low_bits : ∀ byte : UInt8, (byte &&& 0x03) <<< 4 = UInt8.ofNat (2 ^ 4 * (byte.toNat % 4)) ∧
    (byte &&& 0x0f) <<< 2 = UInt8.ofNat (2 ^ 2 * (byte.toNat % 16)) ∧
      byte &&& 0x3f = UInt8.ofNat (byte.toNat % 64) :=
  forall_byte (by decide +kernel)

theorem high_bits : ∀ byte : UInt8, byte >>> 2 = UInt8.ofNat (byte.toNat / 4) ∧
    byte >>> 4 = UInt8.ofNat (byte.toNat / 16) ∧ byte >>> 6 = UInt8.ofNat (byte.toNat / 64) :=
  forall_byte (by decide +kernel)

theorem first_char (first : UInt8) : alphabetChar (first >>> 2) = urlChar (first.toNat / 4) := by
  have hbound := first.toNat_lt
  rw [(high_bits first).1, alphabetChar_eq _ (by omega)]

theorem second_char (first second : UInt8) :
    alphabetChar ((first &&& 0x03) <<< 4 ||| second >>> 4) =
      urlChar (first.toNat % 4 * 16 + second.toNat / 16) := by
  have hbound := second.toNat_lt
  rw [(low_bits first).1, (high_bits second).2.1, ofNat_or (by omega) (by omega),
    alphabetChar_eq _ (by omega), Nat.mul_comm]
  rfl

theorem third_char (second third : UInt8) :
    alphabetChar ((second &&& 0x0f) <<< 2 ||| third >>> 6) =
      urlChar (second.toNat % 16 * 4 + third.toNat / 64) := by
  have hbound := third.toNat_lt
  rw [(low_bits second).2.1, (high_bits third).2.2, ofNat_or (by omega) (by omega),
    alphabetChar_eq _ (by omega), Nat.mul_comm]
  rfl

theorem fourth_char (third : UInt8) :
    alphabetChar (third &&& 0x3f) = urlChar (third.toNat % 64) := by
  rw [(low_bits third).2.2, alphabetChar_eq _ (by omega)]

theorem encodeChunks_eq (input : Bytes) : encodeChunks input =
    ((encodeGroups false input).map Alphabet.urlSafe.byte).map fun byte => Char.ofNat byte.toNat := by
  induction input using encodeChunks.induct with
  | case1 => rfl
  | case2 first =>
    rw [encodeChunks, first_char, second_char]
    rfl
  | case3 first second =>
    rw [encodeChunks, first_char, second_char, third_char]
    rfl
  | case4 first second third rest ih =>
    rw [encodeChunks, first_char, second_char, third_char, fourth_char, ih]
    rfl

theorem base64urlNoPad_eq (input : Bytes) :
    base64urlNoPad input = Alphabet.urlSafe.text false input := by
  rw [base64urlNoPad, encodeChunks_eq]
  rfl

theorem encodeGroups_false_length (bytes : Bytes) :
    (encodeGroups false bytes).length = (4 * bytes.length + 2) / 3 := by
  induction bytes using encodeGroups.induct with
  | case1 => rfl
  | case2 x => simp [encodeGroups]
  | case3 x y => simp [encodeGroups]
  | case4 x y z rest ih =>
    rw [encodeGroups]
    simp only [List.length_cons]
    omega

theorem utf8_text (bytes : Bytes) :
    utf8 (Alphabet.urlSafe.text false bytes) = (encodeGroups false bytes).map
      Alphabet.urlSafe.byte := by
  refine utf8_ascii fun byte hbyte => ?_
  obtain ⟨original, horiginal, rfl⟩ := List.mem_map.mp hbyte
  exact Alphabet.urlSafe.byte_visible (encodeGroups_visible false bytes original horiginal)

theorem not_whitespaceChar : ∀ n < 128, isAsciiWhitespace (UInt8.ofNat n) = false →
    isWhitespaceChar (Char.ofNat n) = false := by
  decide +kernel

theorem decode_text {bytes : Bytes} (hne : bytes ≠ []) :
    decodeBase64 (Alphabet.urlSafe.text false bytes) = .ok bytes := by
  refine decode_spaced .urlSafe false hne ?_
  rw [Spaced, List.filter_eq_self, Alphabet.text, String.toList_ofList]
  intro c hc
  obtain ⟨byte, hbyte, rfl⟩ := List.mem_map.mp hc
  obtain ⟨original, horiginal, rfl⟩ := List.mem_map.mp hbyte
  obtain ⟨hspace, hascii⟩ :=
    Alphabet.urlSafe.byte_visible (encodeGroups_visible false bytes original horiginal)
  rw [← UInt8.ofNat_toNat (x := Alphabet.urlSafe.byte original)] at hspace
  rw [not_whitespaceChar _ hascii hspace]
  rfl

variable {engine : Engine} (destination : SocketAddrV4)

def logicalOrder : List (Fin 8) := [0, 4, 7, 2, 6, 3, 5, 1]

def readDestination (wire : Block 8) : SocketAddrV4 :=
  let logical : Block 8 := ⟨logicalOrder.map wire.get, rfl⟩
  ⟨⟨[logical.get 2, logical.get 3, logical.get 4, logical.get 5], rfl⟩,
    UInt16.ofNat (ofBe [logical.get 0, logical.get 1])⟩

theorem port_bytes (port : UInt16) :
    beBytes 2 port.toNat = [(port >>> 8).toUInt8, port.toUInt8] := by
  have hhigh : UInt8.ofNat (port.toNat / 256 ^ 1) = (port >>> 8).toUInt8 := by
    rw [← UInt8.toNat_inj, UInt8.toNat_ofNat', UInt16.toNat_toUInt8, UInt16.toNat_shiftRight,
      Nat.shiftRight_eq_div_pow]
    rfl
  have hlow : UInt8.ofNat (port.toNat / 256 ^ 0) = port.toUInt8 := by
    rw [← UInt8.toNat_inj, UInt8.toNat_ofNat', UInt16.toNat_toUInt8, Nat.pow_zero, Nat.div_one]
  rw [beBytes, beBytes, beBytes, hhigh, hlow]

theorem octets_cases (octets : Block 4) : ∃ a b c d, octets = ⟨[a, b, c, d], rfl⟩ := by
  obtain ⟨list, hlength⟩ := octets
  obtain ⟨a, b, c, d, rfl⟩ := List.length_eq_four.mp hlength
  exact ⟨a, b, c, d, rfl⟩

theorem readDestination_permute : readDestination (packetRoutePermute destination) = destination := by
  obtain ⟨octets, port⟩ := destination
  obtain ⟨a, b, c, d, rfl⟩ := octets_cases octets
  have hport : UInt16.ofNat (ofBe (beBytes 2 port.toNat)) = port := by
    rw [ofBe_beBytes_of_lt port.toNat_lt, UInt16.ofNat_toNat]
  exact congrArg (SocketAddrV4.mk ⟨[a, b, c, d], rfl⟩) hport

theorem encodeRoute_ipv4Text : encodeRoute engine (ipv4Text destination.octets) destination.port 0 =
    .ok (engine.encode (packetRoutePermute destination).toList) := by
  obtain ⟨octets, port⟩ := destination
  obtain ⟨a, b, c, d, rfl⟩ := octets_cases octets
  have hsplit : (ipv4Text ⟨[a, b, c, d], rfl⟩).splitOn '.' = [a, b, c, d].map fun octet =>
    digits octet.toNat := by
    refine List.splitOn_intercalate '.' (fun part hpart hdot => ?_) (List.cons_ne_nil _ _)
    obtain ⟨octet, -, rfl⟩ := List.mem_map.mp hpart
    exact absurd (isDigit_of_mem_digits hdot) (by decide)
  have hparse : ∀ octet : UInt8, parseUnsigned 256 (digits octet.toNat) = some octet.toNat :=
    fun octet =>
    parseUnsigned_digits octet.toNat_lt
  have hall : ([a, b, c, d].map fun octet => digits octet.toNat).mapM (parseUnsigned 256) =
      some [a.toNat, b.toNat, c.toNat, d.toNat] := by
    simp [hparse]
  rw [encodeRoute, hsplit, hall]
  simp only [UInt8.ofNat_toNat]
  rw [packetRoutePermute]
  congr 4
  refine Subtype.ext ?_
  change _ = beBytes 2 port.toNat ++ [a, b, c, d] ++ [0, 0]
  rw [port_bytes]
  rfl

theorem encodeGroups_sextets (bytes : Bytes) :
    ∀ byte ∈ encodeGroups false bytes, ∃ n < 64, byte = sextet n := by
  induction bytes using encodeGroups.induct with
  | case1 => exact fun _ h => absurd h List.not_mem_nil
  | case2 x =>
    have hx := x.toNat_lt
    simp only [encodeGroups, Bool.false_eq_true, if_false, List.forall_mem_cons]
    exact ⟨⟨_, by omega, rfl⟩, ⟨_, by omega, rfl⟩, fun _ h => absurd h List.not_mem_nil⟩
  | case3 x y =>
    have hx := x.toNat_lt
    have hy := y.toNat_lt
    simp only [encodeGroups, Bool.false_eq_true, if_false, List.forall_mem_cons]
    exact ⟨⟨_, by omega, rfl⟩, ⟨_, by omega, rfl⟩, ⟨_, by omega, rfl⟩,
      fun _ h => absurd h List.not_mem_nil⟩
  | case4 x y z rest ih =>
    have hx := x.toNat_lt
    have hy := y.toNat_lt
    have hz := z.toNat_lt
    simp only [encodeGroups, List.forall_mem_cons]
    exact ⟨⟨_, by omega, rfl⟩, ⟨_, by omega, rfl⟩, ⟨_, by omega, rfl⟩, ⟨_, by omega, rfl⟩, ih⟩

theorem isSelectorByte_sextet :
    ∀ n < 64, isSelectorByte (Alphabet.urlSafe.byte (sextet n)) = true := by decide +kernel

theorem new_eq_ok {endpoint : Text} (wire : Block 8)
    (h : "https://".toList <+: trimEndMatches '/' endpoint) :
    M5ohFetch.new endpoint (Alphabet.urlSafe.text false wire.toList) =
      .ok ⟨trimEndMatches '/' endpoint, Alphabet.urlSafe.text false wire.toList⟩ := by
  have hlength : (utf8 (Alphabet.urlSafe.text false wire.toList)).length = 11 := by
    rw [utf8_text, List.length_map, encodeGroups_false_length, List.Vector.toList_length]
  have hall : (utf8 (Alphabet.urlSafe.text false wire.toList)).all isSelectorByte = true := by
    rw [utf8_text, List.all_eq_true]
    intro byte hbyte
    obtain ⟨original, horiginal, rfl⟩ := List.mem_map.mp hbyte
    obtain ⟨n, hn, rfl⟩ := encodeGroups_sextets _ original horiginal
    exact isSelectorByte_sextet n hn
  rw [M5ohFetch.new, if_neg (not_not_intro h),
    if_neg (not_or.mpr ⟨not_not_intro hlength, not_not_intro hall⟩)]

variable (payload : Bytes)

def packet : Bytes := (packetRoutePermute destination).toList ++ payload

theorem getTarget_eq (route : Option Text) :
    getTarget route (some destination) payload = "/?r=" ++ Alphabet.urlSafe.text false
      (packet destination payload) := by
  rw [getTarget, base64urlNoPad_eq, packet]

theorem packet_length : (packet destination payload).length = 8 + payload.length := by
  rw [packet, List.length_append, List.Vector.toList_length]

theorem getTarget_length (route : Option Text) :
    (utf8 (getTarget route (some destination) payload)).length =
    4 + (4 * (8 + payload.length) + 2) / 3 := by
  have htext : (utf8 (Alphabet.urlSafe.text false (packet destination payload))).length =
      (4 * (8 + payload.length) + 2) / 3 := by
    rw [utf8_text, List.length_map, encodeGroups_false_length, packet_length]
  rw [getTarget_eq, utf8_append, List.length_append, htext]
  rfl

theorem url_eq {engine : Engine} (h : engine.UrlSafeNoPad) (route : Option Text) (endpoint : Text) :
    M5ohFetch.url engine ⟨endpoint, engine.encode (packetRoutePermute destination).toList⟩
      (some payload) =
      .ok (String.ofList endpoint ++ getTarget route (some destination) payload) := by
  rw [M5ohFetch.url, h.decode_encode]
  dsimp only
  rw [h.encode_eq, getTarget_eq, String.append_assoc]
  rfl

/-- Both clients ask for the same target, it decodes to the packet, and it fits exactly where the
payload does. -/
theorem request_targets (engine : Engine) (hengine : engine.UrlSafeNoPad) (route : Option Text)
    (destination : SocketAddrV4) (payload : Bytes) :
    (∃ selector, encodeRoute engine (ipv4Text destination.octets) destination.port 0 = .ok selector ∧
      ∀ endpoint, "https://".toList <+: trimEndMatches '/' endpoint →
        ∃ fetch, M5ohFetch.new endpoint selector = .ok fetch ∧
          fetch.endpoint = trimEndMatches '/' endpoint ∧ fetch.url engine (some payload) =
            .ok (String.ofList fetch.endpoint ++ getTarget route (some destination) payload)) ∧
    (∃ part, getTarget route (some destination) payload = "/?r=" ++ part ∧
      decodeBase64 part = .ok ((packetRoutePermute destination).toList ++ payload)) ∧
    readDestination (packetRoutePermute destination) = destination ∧
    ((utf8 (getTarget route (some destination) payload)).length ≤ TunnelUpload.maxGetTarget ↔
      payload.length ≤ TunnelUpload.uploadChunk) ∧
    TunnelUpload.uploadChunk = BrowserTunnel.maxGetRecordBytes := by
  refine ⟨⟨_, encodeRoute_ipv4Text destination, fun endpoint hendpoint => ?_⟩, ?_,
    readDestination_permute destination, ?_, rfl⟩
  · refine ⟨⟨trimEndMatches '/' endpoint, engine.encode (packetRoutePermute destination).toList⟩,
      ?_, rfl, url_eq destination payload hengine route _⟩
    rw [hengine.encode_eq]
    exact new_eq_ok (packetRoutePermute destination) hendpoint
  · have hne : packet destination payload ≠ [] := by
      intro hnil
      have hlength := packet_length destination payload
      rw [hnil, List.length_nil] at hlength
      omega
    exact ⟨_, getTarget_eq destination payload route, decode_text hne⟩
  · have hlimit : TunnelUpload.maxGetTarget = 23552 := rfl
    have hchunk : TunnelUpload.uploadChunk = 17653 := rfl
    rw [getTarget_length, hlimit, hchunk]
    omega

def referenceEngine : Engine where
  encode := Alphabet.urlSafe.text false
  decode text := if text = "" then some [] else (decodeBase64 text).toOption

theorem referenceEngine_urlSafeNoPad : referenceEngine.UrlSafeNoPad := by
  refine ⟨fun _ => rfl, fun bytes => ?_⟩
  by_cases hne : bytes = []
  · rw [hne]
    rfl
  · have hdecode : decodeBase64 (Alphabet.urlSafe.text false bytes) = .ok bytes := decode_text hne
    have hempty : Alphabet.urlSafe.text false bytes ≠ "" := by
      intro hnil
      rw [hnil] at hdecode
      cases hdecode
    exact (if_neg hempty).trans (congrArg Except.toOption hdecode)

theorem request_targets_sample :
    (∃ selector, encodeRoute referenceEngine "10.100.2.228".toList 8080 0 = .ok selector ∧
      ∀ endpoint, "https://".toList <+: trimEndMatches '/' endpoint →
        ∃ fetch, M5ohFetch.new endpoint selector = .ok fetch ∧
          fetch.endpoint = trimEndMatches '/' endpoint ∧
          fetch.url referenceEngine (some [1, 2, 3]) =
            .ok (String.ofList fetch.endpoint ++ getTarget none
              (some ⟨⟨[10, 100, 2, 228], rfl⟩, 8080⟩) [1, 2, 3])) ∧
    "https://".toList <+: trimEndMatches '/' "https://edge/".toList :=
  ⟨(request_targets referenceEngine referenceEngine_urlSafeNoPad none ⟨⟨[10, 100, 2, 228], rfl⟩,
    8080⟩ [1, 2, 3]).1, by decide +kernel⟩

end Mst5Client.RequestTargets
