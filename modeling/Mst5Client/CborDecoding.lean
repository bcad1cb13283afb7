import Mst5Client.CborAccesses
import Mst5Client.CborRoundTrip

set_option autoImplicit false

/-!
# What the CBOR decoder accepts

A successful decoder has consumed at least one byte for each node, has met no node deeper than 64,
and has built a value in normal form, which is read back from its own encoding.
-/
namespace Mst5Client.CborDecoding
open ByteOrder IoResult ByteReader IdentityMessages CborValues CborRoundTrip CborAccesses
  ProgramEnvironments

mutual
def nodes : Value → ℕ
  | .array values => 1 + nodesAll values
  | .map entries => 1 + nodesEntries entries
  | _ => 1

def nodesAll : List Value → ℕ
  | [] => 0
  | value :: values => nodes value + nodesAll values

def nodesEntries : List (String × Value) → ℕ
  | [] => 0
  -- a key is a node of its own
  | (_, value) :: entries => 1 + nodes value + nodesEntries entries
end

mutual
/-- No integer in the value is non-negative. -/
def Normal : Value → Prop
  | .integer value => value.toInt < 0
  | .array values => NormalAll values
  | .map entries => NormalEntries entries
  | _ => True

def NormalAll : List Value → Prop
  | [] => True
  | value :: values => Normal value ∧ NormalAll values

def NormalEntries : List (String × Value) → Prop
  | [] => True
  | (_, value) :: entries => Normal value ∧ NormalEntries entries
end

mutual
theorem norm_of_normal : ∀ (v : Value), Normal v → norm v = v
  | .null, _ | .bool _, _ | .unsigned _, _ | .float _, _ | .bytes _, _ | .text _, _ => rfl
  | .integer v, h => by
    have hneg : v.toInt < 0 := h
    rw [CborRoundTrip.norm, if_neg (by omega)]
  | .array values, h => by rw [CborRoundTrip.norm, normAll_of_normal values h]
  | .map entries, h => by rw [CborRoundTrip.norm, normEntries_of_normal entries h]

theorem normAll_of_normal : ∀ (values : List Value), NormalAll values → normAll values = values
  | [], _ => by rw [normAll]
  | v :: values, h => by rw [normAll, norm_of_normal v h.1, normAll_of_normal values h.2]

theorem normEntries_of_normal : ∀ (entries : List (String × Value)), NormalEntries entries →
    normEntries entries = entries
  | [], _ => by rw [normEntries]
  | (key, v) :: entries, h => by
    rw [normEntries, norm_of_normal v h.1, normEntries_of_normal entries h.2]
end

/-- What is known of a value at this depth that `enc` was decoded to. An `f32` is the one value
whose encoding is longer than what it was decoded from: nine bytes for five. -/
structure Decoded (depth : ℕ) (enc : Bytes) (v : Value) : Prop where
  nodes_le : nodes v ≤ enc.length
  within : Within depth v
  normal : Normal v
  encoded : (encodeValue v).length ≤ 2 * enc.length

structure DecodedAll (depth : ℕ) (enc : Bytes) (values : List Value) : Prop where
  nodes_le : nodesAll values ≤ enc.length
  within : AllWithin depth values
  normal : NormalAll values
  encoded : (encodeValues values).length ≤ 2 * enc.length

structure DecodedEntries (depth : ℕ) (enc : Bytes) (entries : List (String × Value)) : Prop where
  nodes_le : nodesEntries entries ≤ enc.length
  within : EntriesWithin depth entries
  normal : NormalEntries entries
  encoded : (encodeEntries entries).length ≤ 2 * enc.length

variable {depth : ℕ}

theorem decodedAll_nil : DecodedAll depth [] [] := by
  refine ⟨?_, trivial, trivial, ?_⟩
  · simp [nodesAll]
  · simp [encodeValues]

theorem decodedEntries_nil : DecodedEntries depth [] [] := by
  refine ⟨?_, trivial, trivial, ?_⟩
  · simp [nodesEntries]
  · simp [encodeEntries]

theorem Decoded.cons {enc enc' : Bytes} {v : Value} {values : List Value} (h : Decoded depth enc v)
    (hs : DecodedAll depth enc' values) : DecodedAll depth (enc ++ enc') (v :: values) := by
  have hnodes := h.nodes_le
  have hnodes' := hs.nodes_le
  have hencoded := h.encoded
  have hencoded' := hs.encoded
  refine ⟨?_, ⟨h.within, hs.within⟩, ⟨h.normal, hs.normal⟩, ?_⟩
  · simp only [nodesAll, List.length_append]
    omega
  · simp only [encodeValues, List.length_append]
    omega

theorem DecodedEntries.cons {key : String} {keyEnc enc enc' : Bytes} {v : Value}
    {entries : List (String × Value)} (hkey : Decoded depth keyEnc (.text key))
    (h : Decoded depth enc v) (hs : DecodedEntries depth enc' entries) :
    DecodedEntries depth (keyEnc ++ enc ++ enc') ((key, v) :: entries) := by
  have hkeyNodes : 1 ≤ keyEnc.length := hkey.nodes_le
  have hnodes := h.nodes_le
  have hnodes' := hs.nodes_le
  have hkeyEncoded : (encodeString 3 (utf8 key)).length ≤ 2 * keyEnc.length := hkey.encoded
  have hencoded := h.encoded
  have hencoded' := hs.encoded
  refine ⟨?_, ⟨hkey.within, h.within, hs.within⟩, ⟨h.normal, hs.normal⟩, ?_⟩
  · simp only [nodesEntries, List.length_append]
    omega
  · simp only [encodeEntries, List.length_append]
    omega

variable {bits : ℕ}

abbrev Accepts {α : Type} (bits : ℕ) (m : Decoder α) : (Bytes → α → Prop) → Prop := Reads bits m

theorem encodeHead_length_le (major : UInt8) {v : UInt64} {width : ℕ}
    (hwidth : width = 1 ∨ width = 2 ∨ width = 4 ∨ width = 8) (hv : v.toNat < 256 ^ width) :
    (encodeHead major v).length ≤ 1 + width := by
  unfold encodeHead
  dsimp only
  rcases hwidth with rfl | rfl | rfl | rfl <;> split_ifs <;> simp <;> omega

theorem reads_argument (additional : ℕ) :
    Accepts bits (argument bits additional) fun enc v =>
      ∀ major, (encodeHead major v).length ≤ 1 + enc.length := by
  have hbigEndian : ∀ width, width = 2 ∨ width = 4 ∨ width = 8 → Accepts bits (bigEndian bits width)
      fun enc v => ∀ major, (encodeHead major v).length ≤ 1 + enc.length := by
    intro width hwidth
    refine (reads_nextBytes (P := fun enc bytes => enc = bytes ∧ enc.length = width)
      fun enc h => ⟨rfl, h⟩).bind ?_
    rintro enc _ ⟨rfl, hlen⟩
    refine reads_pure fun major => ?_
    rw [List.append_nil, hlen]
    refine encodeHead_length_le major (.inr hwidth) ?_
    rw [UInt64.toNat_ofNat', ← hlen]
    exact (Nat.mod_le _ _).trans_lt (ofBe_lt enc)
  unfold argument
  split_ifs with h23 h24 h25 h26 h27 h31
  · refine reads_pure fun major => ?_
    have hto : (UInt64.ofNat additional).toNat = additional :=
      UInt64.toNat_ofNat_of_lt' (by simp only [UInt64.size]; omega)
    simp [encodeHead, hto, h23]
  · refine (reads_nextByte (P := fun enc b => enc = [b]) fun b => rfl).bind ?_
    rintro _ b rfl
    refine reads_pure fun major => encodeHead_length_le major (.inl rfl) ?_
    have hb : b.toNat < 256 := b.toNat_lt
    rw [UInt64.toNat_ofNat_of_lt' (by simp only [UInt64.size]; omega)]
    exact hb
  · exact hbigEndian 2 (by omega)
  · exact hbigEndian 4 (by omega)
  · exact hbigEndian 8 (by omega)
  · exact reads_throw _
  · exact reads_throw _

theorem reads_length (additional : ℕ) : Accepts bits (CborValues.length bits additional)
    fun enc n => ∀ major, (encodeHead major (UInt64.ofNat n)).length ≤ 1 + enc.length := by
  refine (reads_argument additional).bind fun enc v hv => ?_
  split_ifs
  · refine reads_pure ?_
    rw [UInt64.ofNat_toNat, List.append_nil]
    exact hv
  · exact reads_throw _

theorem reads_counted (additional : ℕ) {Q : Bytes → Value → Prop} {f : Bytes → Decoder Value}
    (hf : ∀ enc bytes : Bytes,
      (∀ major, (encodeString major bytes).length ≤ 1 + enc.length + bytes.length) →
      Accepts bits (f bytes) fun rest v => Q (enc ++ (bytes ++ rest)) v) :
    Accepts bits (CborValues.length bits additional >>= fun len => take bits len >>= f) Q := by
  refine (reads_length additional).bind fun enc n hn => ?_
  refine (reads_nextBytes (P := fun enc' bytes => enc' = bytes ∧ enc'.length = n) fun enc' h =>
    ⟨rfl, h⟩).bind ?_
  rintro bytes _ ⟨rfl, rfl⟩
  refine hf enc bytes fun major => ?_
  rw [encodeString, List.length_append]
  have := hn major
  omega

variable {lead : UInt8}

theorem reads_unsigned (hdepth : depth ≤ 64) (additional : ℕ) :
    Accepts bits (argument bits additional >>= fun v => pure (.unsigned v))
      fun enc v => Decoded depth (lead :: enc) v := by
  refine (reads_argument additional).bind fun enc v hv => reads_pure ?_
  have hencoded := hv 0
  rw [List.append_nil]
  refine ⟨?_, hdepth, trivial, ?_⟩
  · simp [nodes]
  · simp only [encodeValue, List.length_cons]
    omega

theorem ofInt_toNat (raw : UInt64) : UInt64.ofInt (raw.toNat : ℤ) = raw := by
  have hlt := raw.toNat_lt
  rw [UInt64.ofInt, Int.emod_eq_of_lt (by omega) (by omega), Int.toNat_natCast, UInt64.ofNat_toNat]

theorem reads_integer (hdepth : depth ≤ 64) (additional : ℕ) :
    Accepts bits (integer bits additional) fun enc v => Decoded depth (lead :: enc) v := by
  refine (reads_argument additional).bind fun enc raw hraw => ?_
  dsimp only
  split_ifs with hlow
  · exact reads_throw _
  · refine reads_pure ?_
    have hto : (Int64.ofInt (-1 - raw.toNat)).toInt = -1 - raw.toNat :=
      Int64.toInt_ofInt_of_le (by omega) (by omega)
    have hencoded := hraw 1
    rw [List.append_nil]
    refine ⟨?_, hdepth, ?_, ?_⟩
    · simp [nodes]
    · change (Int64.ofInt (-1 - raw.toNat)).toInt < 0
      omega
    · rw [encodeValue, hto, if_neg (by omega), show -1 - (-1 - (raw.toNat : ℤ)) = raw.toNat by omega,
        ofInt_toNat, List.length_cons]
      omega

theorem reads_bytes (hdepth : depth ≤ 64) (additional : ℕ) :
    Accepts bits (CborValues.length bits additional >>= fun len => take bits len >>=
      fun bytes => pure (.bytes bytes)) fun enc v => Decoded depth (lead :: enc) v := by
  refine reads_counted additional fun enc bytes hbytes => reads_pure ?_
  have hencoded := hbytes 2
  refine ⟨?_, hdepth, trivial, ?_⟩
  · simp [nodes]
  · simp only [encodeValue, List.append_nil, List.length_cons, List.length_append]
    omega

theorem reads_text (hdepth : depth ≤ 64) (additional : ℕ) :
    Accepts bits (CborValues.text bits additional) fun enc v => Decoded depth (lead :: enc) v := by
  refine reads_counted additional fun enc bytes hbytes => ?_
  cases hs : String.fromUTF8? ⟨bytes.toArray⟩ with
  | none => exact reads_throw _
  | some s =>
    refine reads_pure ?_
    have hencoded := hbytes 3
    refine ⟨?_, hdepth, trivial, ?_⟩
    · simp [nodes]
    · simp only [encodeValue, utf8_of_fromUtf8 hs, List.append_nil, List.length_cons,
        List.length_append]
      omega

theorem reads_simple (hdepth : depth ≤ 64) (additional : ℕ) :
    Accepts bits (simple bits additional) fun enc v => Decoded depth (lead :: enc) v := by
  have hfloat : ∀ (width : ℕ) (f : Bytes → UInt64), 4 ≤ width →
      Accepts bits (take bits width >>= fun bytes => pure (Value.float (f bytes)))
        fun enc v => Decoded depth (lead :: enc) v := by
    intro width f hwidth
    refine (reads_nextBytes (P := fun enc bytes => enc = bytes ∧ enc.length = width)
      fun enc h => ⟨rfl, h⟩).bind ?_
    rintro enc _ ⟨rfl, hlen⟩
    refine reads_pure ⟨?_, hdepth, trivial, ?_⟩
    · simp [nodes]
    · simp only [encodeValue, List.length_cons, beBytes_length, List.append_nil]
      omega
  unfold simple
  split_ifs
  · exact reads_pure ⟨by simp [nodes], hdepth, trivial, by simp [encodeValue]⟩
  · exact reads_pure ⟨by simp [nodes], hdepth, trivial, by simp [encodeValue]⟩
  · exact reads_pure ⟨by simp [nodes], hdepth, trivial, by simp [encodeValue]⟩
  · exact hfloat 4 _ (by omega)
  · exact hfloat 8 _ (by omega)
  · exact reads_throw _

variable {item : Decoder Value}

theorem reads_array (hdepth : depth ≤ 64) (hitem : Accepts bits item (Decoded (depth + 1)))
    (additional : ℕ) :
    Accepts bits (array bits additional item) fun enc v => Decoded depth (lead :: enc) v := by
  refine (reads_length additional).bind fun enc n hn => ?_
  split_ifs with hmax
  · exact reads_throw _
  refine (hitem.times decodedAll_nil (fun _ _ _ _ h hs => h.cons hs) n).bind ?_
  rintro body values ⟨rfl, h⟩
  refine reads_pure ?_
  have hnodes := h.nodes_le
  have hencoded := h.encoded
  have hhead := hn 4
  rw [List.append_nil]
  refine ⟨?_, ⟨hdepth, by omega, h.within⟩, h.normal, ?_⟩
  · simp only [nodes, List.length_cons, List.length_append]
    omega
  · simp only [encodeValue, List.length_cons, List.length_append]
    omega

theorem reads_entry (hitem : Accepts bits item (Decoded depth)) :
    Accepts bits (entry item) fun enc e => ∃ keyEnc valueEnc, enc = keyEnc ++ valueEnc ∧
      Decoded depth keyEnc (.text e.1) ∧ Decoded depth valueEnc e.2 := by
  refine hitem.bind fun keyEnc key hkey => ?_
  cases key with
  | text key =>
    refine hitem.bind fun valueEnc v hv => reads_pure ?_
    rw [List.append_nil]
    exact ⟨keyEnc, valueEnc, rfl, hkey, hv⟩
  | _ => exact reads_throw _

theorem reads_map (hdepth : depth ≤ 64) (hitem : Accepts bits item (Decoded (depth + 1)))
    (additional : ℕ) :
    Accepts bits (map bits additional item) fun enc v => Decoded depth (lead :: enc) v := by
  refine (reads_length additional).bind fun enc n hn => ?_
  split_ifs with hmax
  · exact reads_throw _
  have hcons : ∀ (enc : Bytes) (e : String × Value) (enc' : Bytes) (entries : List (String × Value)),
      (∃ keyEnc valueEnc, enc = keyEnc ++ valueEnc ∧ Decoded (depth + 1) keyEnc (.text e.1) ∧
        Decoded (depth + 1) valueEnc e.2) →
      DecodedEntries (depth + 1) enc' entries →
        DecodedEntries (depth + 1) (enc ++ enc') (e :: entries) := by
    rintro _ e enc' entries ⟨keyEnc, valueEnc, rfl, hkey, hv⟩ hs
    exact hs.cons hkey hv
  refine ((reads_entry hitem).times decodedEntries_nil hcons n).bind ?_
  rintro body entries ⟨rfl, h⟩
  refine reads_pure ?_
  have hnodes := h.nodes_le
  have hencoded := h.encoded
  have hhead := hn 5
  rw [List.append_nil]
  refine ⟨?_, ⟨hdepth, by omega, h.within⟩, h.normal, ?_⟩
  · simp only [nodes, List.length_cons, List.length_append]
    omega
  · simp only [encodeValue, List.length_cons, List.length_append]
    omega

theorem reads_valueOf (hdepth : depth ≤ 64) (hitem : Accepts bits item (Decoded (depth + 1)))
    (major additional : ℕ) :
    Accepts bits (valueOf bits major additional item) fun enc v => Decoded depth (lead :: enc) v := by
  unfold valueOf
  split_ifs
  · exact reads_unsigned hdepth additional
  · exact reads_integer hdepth additional
  · exact reads_bytes hdepth additional
  · exact reads_text hdepth additional
  · exact reads_array hdepth hitem additional
  · exact reads_map hdepth hitem additional
  · exact reads_simple hdepth additional
  · exact reads_throw _

theorem reads_value (levels : ℕ) {depth : ℕ} (h : depth + levels = 65) :
    Accepts bits (value bits levels) (Decoded depth) := by
  induction levels generalizing depth with
  | zero => exact reads_throw _
  | succ levels ih =>
    refine (reads_nextByte (P := fun enc b => enc = [b]) fun b => rfl).bind ?_
    rintro _ lead rfl
    exact reads_valueOf (by omega) (ih (by omega)) _ _

variable {input : Bytes} {v : Value}

theorem decodeCbor_eq_ok (h : decodeCbor bits input = .ok v) :
    ∃ c, (value bits 65 : Decoder Value).run ⟨input, 0⟩ = .ok (v, c) ∧ c.pos = input.length := by
  obtain ⟨⟨v', c⟩, hrun, hrest⟩ := bind_eq_ok h
  obtain ⟨hpos, hv⟩ := ite_error_eq_ok.mp hrest
  cases hv
  exact ⟨c, hrun, not_not.mp hpos⟩

theorem decodeCbor_consumes (hlen : input.length < 2 ^ bits) (h : decodeCbor bits input = .ok v) :
    Decodes bits (value bits 65) input v ∧ Decoded 0 input v := by
  obtain ⟨c, hrun, hpos⟩ := decodeCbor_eq_ok h
  exact (reads_value 65 (Nat.zero_add 65)).whole hlen hrun hpos

theorem decode_encode_decoded (hbits : bits ≤ 64) (hlen : 2 * input.length < 2 ^ bits)
    (h : Decoded 0 input v) : decodeCbor bits (encodeCbor v) = .ok v := by
  have hencoded : (encodeCbor v).length < 2 ^ bits := h.encoded.trans_lt hlen
  rw [decode_encode hbits h.within hencoded, norm_of_normal v h.normal]

theorem decodeCbor_beginning {rest : Bytes} (hlen : (input ++ rest).length < 2 ^ bits)
    (h : Decodes bits (value bits 65) input v) (hrest : rest ≠ []) :
    decodeCbor bits (input ++ rest) = .error (invalidData "trailing CBOR data") := by
  have hrun : (value bits 65 : Decoder Value).run ⟨input ++ rest, 0⟩ =
      .ok (v, ⟨input ++ rest, input.length⟩) := by
    simpa using h [] rest (by simpa using hlen)
  have hpos : input.length ≠ (input ++ rest).length := by
    have := List.length_pos_iff.mpr hrest
    rw [List.length_append]
    omega
  rw [decodeCbor, bind_of_ok hrun]
  exact if_pos hpos

/-- Every access of the decoder is in range and `pos` never passes the end. An accepted input is
consumed as a whole, has no more nodes than bytes, none deeper than 64 and no non-negative integer
among them, and its value is read back from its encoding; nothing accepted begins another accepted
input. A slice has at most `isize::MAX` bytes. -/
theorem cbor_decoding_safe (hbits : bits ≤ 64) (input : Bytes) (hlen : 2 * input.length < 2 ^ bits) :
    (∃ log pos,
      call (reading input) (Scanner.decodeCbor bits) 0 [] = (log, decodeCbor bits input, pos) ∧
      (∀ e ∈ log, InRange input e.op) ∧ pos ≤ input.length ∧
      ∀ v, decodeCbor bits input = .ok v → pos = input.length) ∧
    ∀ v, decodeCbor bits input = .ok v →
      nodes v ≤ input.length ∧ Within 0 v ∧ Normal v ∧ decodeCbor bits (encodeCbor v) = .ok v ∧
      ∀ beginning : Bytes, beginning <+: input → beginning ≠ input →
        ∀ w, decodeCbor bits beginning ≠ .ok w := by
  have hshort : input.length < 2 ^ bits := by omega
  refine ⟨decodeCbor_follows hshort, ?_⟩
  intro v hv
  obtain ⟨-, hdecoded⟩ := decodeCbor_consumes hshort hv
  refine ⟨hdecoded.nodes_le, hdecoded.within, hdecoded.normal,
    decode_encode_decoded hbits hlen hdecoded, ?_⟩
  rintro beginning ⟨rest, rfl⟩ hne w hw
  have hbeginning : beginning.length < 2 ^ bits := by
    rw [List.length_append] at hshort
    omega
  obtain ⟨hconsumes, -⟩ := decodeCbor_consumes hbeginning hw
  have hrest : rest ≠ [] := by
    rintro rfl
    exact hne (List.append_nil beginning).symm
  rw [decodeCbor_beginning hshort hconsumes hrest] at hv
  cases hv

def sampleInput : Bytes := [0xa1, 0x61, 0x6b, 0x82, 0x38, 0x05, 0xfa, 0x3f, 0xc0, 0x00, 0x00]

def sampleDecoded : Value := .map [("k", .array [.integer (-6), .float 0x3ff8000000000000])]

theorem sampleInput_decoded : decodeCbor 32 sampleInput = .ok sampleDecoded := rfl

theorem cbor_decoding_safe_sample : decodeCbor 32 sampleInput = .ok sampleDecoded ∧
    nodes sampleDecoded ≤ 11 ∧ decodeCbor 32 (encodeCbor sampleDecoded) = .ok sampleDecoded := by
  obtain ⟨-, haccepted⟩ := cbor_decoding_safe (show 32 ≤ 64 by decide) sampleInput (by decide)
  obtain ⟨hnodes, -, -, hdecode, -⟩ := haccepted sampleDecoded sampleInput_decoded
  exact ⟨sampleInput_decoded, hnodes, hdecode⟩

end Mst5Client.CborDecoding
