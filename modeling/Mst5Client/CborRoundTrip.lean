import Mst5Client.CborValues

set_option autoImplicit false

/-!
# CBOR round trip

Every encoded value is consumed as a whole and read back as its normal form, in which non-negative
integers are unsigned.
-/
namespace Mst5Client.CborRoundTrip
open ByteOrder IoResult ByteReader IdentityMessages CborValues

mutual
def norm : Value → Value
  | .integer value => if 0 ≤ value.toInt then .unsigned value.toUInt64 else .integer value
  | .array values => .array (normAll values)
  | .map entries => .map (normEntries entries)
  | value => value

def normAll : List Value → List Value
  | [] => []
  | value :: values => norm value :: normAll values

def normEntries : List (String × Value) → List (String × Value)
  | [] => []
  | (key, value) :: entries => (key, norm value) :: normEntries entries
end

mutual
/-- At this depth, no node is deeper than 64 and no array or map has too many entries. -/
def Within : ℕ → Value → Prop
  | depth, .array values => depth ≤ 64 ∧ values.length ≤ maxPlainPayload ∧ AllWithin (depth + 1) values
  | depth, .map entries => depth ≤ 64 ∧ entries.length ≤ maxPlainPayload ∧
    EntriesWithin (depth + 1) entries
  | depth, _ => depth ≤ 64

def AllWithin : ℕ → List Value → Prop
  | _, [] => True
  | depth, value :: values => Within depth value ∧ AllWithin depth values

def EntriesWithin : ℕ → List (String × Value) → Prop
  | _, [] => True
  -- a key is a node of its own
  | depth, (_, value) :: entries => depth ≤ 64 ∧ Within depth value ∧ EntriesWithin depth entries
end

theorem Within.depth_le {depth : ℕ} {v : Value} (h : Within depth v) : depth ≤ 64 := by
  cases v with
  | array values => exact h.1
  | map entries => exact h.1
  | _ => exact h

variable {bits : ℕ}

abbrev Decodes {α : Type} (bits : ℕ) (m : Decoder α) : Bytes → α → Prop := Consumes bits m

theorem lead_toNat : ∀ (major : Fin 8) (additional : Fin 32),
    (UInt8.ofNat major <<< 5 ||| UInt8.ofNat additional).toNat = major * 32 + additional := by
  decide +kernel

theorem consumes_take (bits : ℕ) (bytes : Bytes) :
    Decodes bits (take bits bytes.length) bytes bytes :=
  consumes_nextBytes (invalidData "CBOR length overflow") shortInput bytes

theorem consumes_byte (bits : ℕ) (b : UInt8) : Decodes bits byte [b] b :=
  consumes_nextByte shortInput b

theorem consumes_bigEndian {width : ℕ} {v : UInt64} (h : v.toNat < 256 ^ width) :
    Decodes bits (bigEndian bits width) (beBytes width v.toNat) v := by
  have htake := consumes_take bits (beBytes width v.toNat)
  rw [beBytes_length] at htake
  have hmap := htake.map fun bytes => UInt64.ofNat (ofBe bytes)
  rw [ofBe_beBytes_of_lt h, UInt64.ofNat_toNat] at hmap
  exact hmap

theorem encodeHead_spec (bits major : ℕ) (hmajor : major < 8) (v : UInt64) :
    ∃ additional < 32, ∃ lead : UInt8, ∃ rest, lead.toNat = major * 32 + additional ∧
      encodeHead (UInt8.ofNat major) v = lead :: rest ∧
        Decodes bits (argument bits additional) rest v := by
  have hlead : ∀ additional < 32,
      (UInt8.ofNat major <<< 5 ||| UInt8.ofNat additional).toNat = major * 32 + additional :=
    fun additional h => lead_toNat ⟨major, hmajor⟩ ⟨additional, h⟩
  unfold encodeHead
  dsimp only
  split_ifs with h23 hff hffff hfull
  · refine ⟨v.toNat, by omega, _, [], hlead _ (by omega), rfl, ?_⟩
    rw [argument, if_pos h23, UInt64.ofNat_toNat]
    exact consumes_pure v
  · refine ⟨24, by omega, _, [UInt8.ofNat v.toNat], hlead 24 (by omega), rfl, ?_⟩
    have hbyte := (consumes_byte bits (UInt8.ofNat v.toNat)).map fun b => UInt64.ofNat b.toNat
    rwa [UInt8.toNat_ofNat_of_lt' (by simp only [UInt8.size]; omega), UInt64.ofNat_toNat] at hbyte
  · exact ⟨25, by omega, _, _, hlead 25 (by omega), rfl, consumes_bigEndian (by omega)⟩
  · exact ⟨26, by omega, _, _, hlead 26 (by omega), rfl, consumes_bigEndian (by omega)⟩
  · exact ⟨27, by omega, _, _, hlead 27 (by omega), rfl, consumes_bigEndian v.toNat_lt⟩

theorem consumes_length {additional : ℕ} {rest : Bytes} {n : ℕ} (hn : n < 2 ^ bits)
    (hbits : bits ≤ 64) (h : Decodes bits (argument bits additional) rest (UInt64.ofNat n)) :
    Decodes bits (length bits additional) rest n := by
  have hto : (UInt64.ofNat n).toNat = n := by
    have := Nat.pow_le_pow_right (Nat.zero_lt_two) hbits
    rw [UInt64.toNat_ofNat_of_lt' (by simp only [UInt64.size]; omega)]
  refine h.finish ?_
  rw [hto, if_pos hn]

theorem consumes_value (major : ℕ) {levels additional : ℕ} {lead : UInt8} {rest : Bytes} {v : Value}
    (hlead : lead.toNat = major * 32 + additional) (h32 : additional < 32)
    (h : Decodes bits (valueOf bits major additional (value bits levels)) rest v) :
    Decodes bits (value bits (levels + 1)) (lead :: rest) v := by
  refine (consumes_byte bits lead).bind ?_
  rw [hlead, show (major * 32 + additional) / 32 = major by omega,
    show (major * 32 + additional) % 32 = additional by omega]
  exact h

variable (levels : ℕ)

theorem consumes_unsigned (v : UInt64) :
    Decodes bits (value bits (levels + 1)) (encodeHead 0 v) (.unsigned v) := by
  obtain ⟨additional, h32, lead, rest, hlead, hhead, harg⟩ := encodeHead_spec bits 0 (by omega) v
  rw [show encodeHead 0 v = _ from hhead]
  exact consumes_value 0 hlead h32 (harg.map Value.unsigned)

theorem consumes_negative {v : Int64} (hv : v.toInt < 0) :
    Decodes bits (value bits (levels + 1)) (encodeHead 1 (UInt64.ofInt (-1 - v.toInt)))
    (.integer v) := by
  have hlow := v.le_toInt
  have hraw : ((UInt64.ofInt (-1 - v.toInt)).toNat : ℤ) = -1 - v.toInt := by
    have hmod : (-1 - v.toInt) % 2 ^ 64 = -1 - v.toInt := Int.emod_eq_of_lt (by omega) (by omega)
    rw [UInt64.ofInt, hmod, UInt64.toNat_ofNat_of_lt' (by simp only [UInt64.size]; omega),
      Int.toNat_of_nonneg (by omega)]
  obtain ⟨additional, h32, lead, rest, hlead, hhead, harg⟩ :=
    encodeHead_spec bits 1 (by omega) (UInt64.ofInt (-1 - v.toInt))
  rw [show encodeHead 1 (UInt64.ofInt (-1 - v.toInt)) = _ from hhead]
  refine consumes_value 1 hlead h32 ?_
  refine harg.finish ?_
  rw [hraw, if_neg (by omega), show (-1 - (-1 - v.toInt)) = v.toInt by omega, Int64.ofInt_toInt]

theorem consumes_float (v : UInt64) :
    Decodes bits (value bits (levels + 1)) (0xfb :: beBytes 8 v.toNat) (.float v) := by
  refine consumes_value 7 (show (0xfb : UInt8).toNat = 7 * 32 + 27 by decide) (by omega) ?_
  have htake := (consumes_take bits (beBytes 8 v.toNat)).map fun bytes =>
    Value.float (UInt64.ofNat (ofBe bytes))
  rw [beBytes_length, ofBe_beBytes_of_lt v.toNat_lt, UInt64.ofNat_toNat] at htake
  exact htake

theorem consumes_counted (major : ℕ) (hmajor : major < 8) (hbits : bits ≤ 64) {n : ℕ} {body : Bytes}
    (hn : n ≤ body.length) {v : Value}
    (h : ∀ additional : ℕ, ∀ rest, Decodes bits (length bits additional) rest n →
      Decodes bits (valueOf bits major additional (value bits levels)) (rest ++ body) v) :
    Decodes bits (value bits (levels + 1))
    (encodeHead (UInt8.ofNat major) (UInt64.ofNat n) ++ body) v := by
  refine consumes_of_lt fun hlen => ?_
  obtain ⟨additional, h32, lead, rest, hlead, hhead, harg⟩ :=
    encodeHead_spec bits major hmajor (UInt64.ofNat n)
  have hfits : n < 2 ^ bits := by
    simp only [List.length_append] at hlen
    omega
  rw [hhead, List.cons_append]
  exact consumes_value major hlead h32 (h additional rest (consumes_length hfits hbits harg))

theorem consumes_bytes (hbits : bits ≤ 64) (b : Bytes) :
    Decodes bits (value bits (levels + 1)) (encodeString 2 b) (.bytes b) :=
  consumes_counted levels 2 (by omega) hbits le_rfl fun _ _ hlength =>
    hlength.bind ((consumes_take bits b).map Value.bytes)

theorem fromUtf8_utf8 (s : String) : String.fromUTF8? ⟨(utf8 s).toArray⟩ = some s := by
  exact dif_pos s.isValidUTF8

theorem utf8_of_fromUtf8 {bytes : Bytes} {s : String}
    (h : String.fromUTF8? ⟨bytes.toArray⟩ = some s) : utf8 s = bytes := by
  unfold String.fromUTF8? at h
  split_ifs at h
  cases h
  rfl

theorem consumes_text (hbits : bits ≤ 64) (s : String) :
    Decodes bits (value bits (levels + 1)) (encodeString 3 (utf8 s)) (.text s) := by
  refine consumes_counted levels 3 (by omega) hbits le_rfl fun additional rest hlength => ?_
  refine hlength.bind ((consumes_take bits (utf8 s)).finish ?_)
  rw [fromUtf8_utf8]

theorem encodeHead_ne_nil (major : UInt8) (v : UInt64) : encodeHead major v ≠ [] := by
  unfold encodeHead
  dsimp only
  split_ifs <;> exact List.cons_ne_nil _ _

theorem encodeString_ne_nil (major : UInt8) (b : Bytes) : encodeString major b ≠ [] :=
  List.append_ne_nil_of_left_ne_nil (encodeHead_ne_nil _ _) _

theorem encodeValue_ne_nil (v : Value) : encodeValue v ≠ [] := by
  cases v with
  | null => exact List.cons_ne_nil _ _
  | bool b => cases b <;> exact List.cons_ne_nil _ _
  | unsigned v => exact encodeHead_ne_nil _ _
  | integer v =>
    rw [encodeValue]
    split_ifs <;> exact encodeHead_ne_nil _ _
  | float v => exact List.cons_ne_nil _ _
  | bytes b => exact encodeString_ne_nil _ _
  | text s => exact encodeString_ne_nil _ _
  | array values => exact List.append_ne_nil_of_left_ne_nil (encodeHead_ne_nil _ _) _
  | map entries => exact List.append_ne_nil_of_left_ne_nil (encodeHead_ne_nil _ _) _

theorem length_le_encodeValues (values : List Value) :
    values.length ≤ (encodeValues values).length := by
  induction values with
  | nil => exact Nat.zero_le _
  | cons v values ih =>
    have hv := List.length_pos_iff.mpr (encodeValue_ne_nil v)
    simp only [encodeValues, List.length_cons, List.length_append]
    omega

theorem length_le_encodeEntries (entries : List (String × Value)) :
    entries.length ≤ (encodeEntries entries).length := by
  induction entries with
  | nil => exact Nat.zero_le _
  | cons e entries ih =>
    have he := List.length_pos_iff.mpr (encodeValue_ne_nil e.2)
    simp only [encodeEntries, List.length_cons, List.length_append]
    omega

theorem consumes_array (levels : ℕ) (hbits : bits ≤ 64) {values values' : List Value}
    (hmax : values.length ≤ maxPlainPayload)
    (h : Decodes bits (times (value bits levels) values.length) (encodeValues values) values') :
    Decodes bits (value bits (levels + 1)) (encodeValue (.array values)) (.array values') := by
  refine consumes_counted levels 4 (by omega) hbits (length_le_encodeValues values)
    fun additional rest hlength => ?_
  refine hlength.bind ?_
  rw [if_neg (by omega)]
  exact h.map Value.array

theorem consumes_map (levels : ℕ) (hbits : bits ≤ 64) {entries entries' : List (String × Value)}
    (hmax : entries.length ≤ maxPlainPayload)
    (h : Decodes bits (times (entry (value bits levels)) entries.length) (encodeEntries entries)
      entries') :
    Decodes bits (value bits (levels + 1)) (encodeValue (.map entries)) (.map entries') := by
  refine consumes_counted levels 5 (by omega) hbits (length_le_encodeEntries entries)
    fun additional rest hlength => ?_
  refine hlength.bind ?_
  rw [if_neg (by omega)]
  exact h.map Value.map

theorem consumes_entry (levels : ℕ) (hbits : bits ≤ 64) (key : String) {enc : Bytes} {v : Value}
    (h : Decodes bits (value bits (levels + 1)) enc v) :
    Decodes bits (entry (value bits (levels + 1))) (encodeString 3 (utf8 key) ++ enc) (key, v) :=
  (consumes_text levels hbits key).bind (h.map fun v => (key, v))

mutual
theorem consumes_encodeValue (hbits : bits ≤ 64) :
    ∀ (v : Value) {depth levels : ℕ}, Within depth v →
    depth + levels = 64 → Decodes bits (value bits (levels + 1)) (encodeValue v) (norm v)
  | .null, _, levels, _, _ =>
    consumes_value 7 (show (0xf6 : UInt8).toNat = 7 * 32 + 22 by decide) (by omega) (consumes_pure _)
  | .bool false, _, levels, _, _ =>
    consumes_value 7 (show (0xf4 : UInt8).toNat = 7 * 32 + 20 by decide) (by omega) (consumes_pure _)
  | .bool true, _, levels, _, _ =>
    consumes_value 7 (show (0xf5 : UInt8).toNat = 7 * 32 + 21 by decide) (by omega) (consumes_pure _)
  | .unsigned v, _, levels, _, _ => consumes_unsigned levels v
  | .integer v, _, levels, _, _ => by
    rw [encodeValue, norm]
    split_ifs with h
    · exact consumes_unsigned levels v.toUInt64
    · exact consumes_negative levels (by omega)
  | .float v, _, levels, _, _ => consumes_float levels v
  | .bytes b, _, levels, _, _ => consumes_bytes levels hbits b
  | .text s, _, levels, _, _ => consumes_text levels hbits s
  | .array values, _, levels, h, hl =>
    consumes_array levels hbits h.2.1 (consumes_encodeValues hbits values h.2.2 (by omega))
  | .map entries, _, levels, h, hl =>
    consumes_map levels hbits h.2.1 (consumes_encodeEntries hbits entries h.2.2 (by omega))

theorem consumes_encodeValues (hbits : bits ≤ 64) : ∀ (values : List Value) {depth levels : ℕ},
    AllWithin depth values → depth + levels = 65 →
    Decodes bits (times (value bits levels) values.length) (encodeValues values) (normAll values)
  | [], _, _, _, _ => consumes_pure []
  | v :: values, depth, levels, h, hl => by
    obtain ⟨k, rfl⟩ : ∃ k, levels = k + 1 := ⟨levels - 1, by have := h.1.depth_le; omega⟩
    exact (consumes_encodeValue hbits v h.1 (by omega)).times
      (consumes_encodeValues hbits values h.2 hl)

theorem consumes_encodeEntries (hbits : bits ≤ 64) :
    ∀ (entries : List (String × Value)) {depth levels : ℕ},
    EntriesWithin depth entries → depth + levels = 65 →
    Decodes bits (times (entry (value bits levels)) entries.length) (encodeEntries entries)
      (normEntries entries)
  | [], _, _, _, _ => consumes_pure []
  | (key, v) :: entries, depth, levels, h, hl => by
    obtain ⟨k, rfl⟩ : ∃ k, levels = k + 1 := ⟨levels - 1, by have := h.1; omega⟩
    have hentry := consumes_entry k hbits key (consumes_encodeValue hbits v h.2.1 (by omega))
    exact hentry.times (consumes_encodeEntries hbits entries h.2.2 hl)
end

theorem toUInt64_toNat {v : Int64} (h : 0 ≤ v.toInt) : (v.toUInt64.toNat : ℤ) = v.toInt := by
  rw [Int64.toNat_toUInt64_of_le (Int64.le_iff_toInt_le.mpr h)]
  exact Int.toNat_of_nonneg h

theorem asU64_norm (v : Value) : (norm v).asU64 = v.asU64 := by
  cases v with
  | integer v =>
    rw [norm, Value.asU64]
    split_ifs with h
    · rfl
    · simp only [Value.asU64, if_neg h]
  | _ => rfl

theorem asI64_norm (v : Value) : (norm v).asI64 = v.asI64 := by
  cases v with
  | integer v =>
    rw [norm]
    split_ifs with h
    · have hlt := v.toInt_lt
      have hto := toUInt64_toNat h
      simp only [Value.asI64]
      rw [if_pos (by omega), Int64.toInt64_toUInt64]
    · rfl
  | _ => rfl

theorem asStr_norm (v : Value) : (norm v).asStr = v.asStr := by
  cases v with
  | integer v =>
    rw [norm]
    split_ifs <;> rfl
  | _ => rfl

theorem asBool_norm (v : Value) : (norm v).asBool = v.asBool := by
  cases v with
  | integer v =>
    rw [norm]
    split_ifs <;> rfl
  | _ => rfl

theorem find_normEntries (key : String) (entries : List (String × Value)) :
    ((normEntries entries).find? fun entry => entry.1 = key).map Prod.snd =
      ((entries.find? fun entry => entry.1 = key).map Prod.snd).map norm := by
  induction entries with
  | nil => rfl
  | cons e entries ih =>
    obtain ⟨k, v⟩ := e
    by_cases hk : k = key
    · simp [normEntries, hk]
    · simpa [normEntries, hk] using ih

theorem get_norm (v : Value) (key : String) : (norm v).get key = (v.get key).map norm := by
  cases v with
  | map entries => exact find_normEntries key entries
  | integer v =>
    rw [norm]
    split_ifs <;> rfl
  | _ => rfl

theorem decode_encode {v : Value} (hbits : bits ≤ 64) (hv : Within 0 v)
    (hlen : (encodeCbor v).length < 2 ^ bits) : decodeCbor bits (encodeCbor v) = .ok (norm v) := by
  have hrun := (consumes_encodeValue hbits v hv (Nat.zero_add 64)).whole hlen
  rw [decodeCbor, encodeCbor, bind_of_ok hrun]
  exact if_neg (not_not_intro rfl)

/-- Decoding what was encoded gives the value back in normal form, and no accessor tells the two
apart. A `Vec` has fewer than `2 ^ bits` bytes. -/
theorem cbor_round_trip (v : Value) (hv : Within 0 v) (hbits : bits ≤ 64)
    (hlen : (encodeCbor v).length < 2 ^ bits) :
    decodeCbor bits (encodeCbor v) = .ok (norm v) ∧ (norm v).asI64 = v.asI64 ∧
      (norm v).asU64 = v.asU64 ∧ (norm v).asStr = v.asStr ∧ (norm v).asBool = v.asBool ∧
      ∀ key, (norm v).get key = (v.get key).map norm :=
  ⟨decode_encode hbits hv hlen, asI64_norm v, asU64_norm v, asStr_norm v, asBool_norm v, get_norm v⟩

def sampleValue : Value :=
  .map [("count", .integer 42), ("delta", .integer (-7)),
    ("items", .array [.null, .text "x", .float 0x3ff8000000000000])]

theorem cbor_round_trip_sample : decodeCbor 64 (encodeCbor sampleValue) = .ok (norm sampleValue) ∧
    (norm sampleValue).get "count" = some (.unsigned 42) := by
  have hwithin : Within 0 sampleValue := by
    simp [sampleValue, Within, EntriesWithin, AllWithin, maxPlainPayload]
  have hlen : (encodeCbor sampleValue).length < 2 ^ 64 := by decide +kernel
  obtain ⟨hdecode, -, -, -, -, hget⟩ := cbor_round_trip sampleValue hwithin (Nat.le_refl 64) hlen
  exact ⟨hdecode, hget "count"⟩

end Mst5Client.CborRoundTrip
