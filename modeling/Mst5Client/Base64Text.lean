import Mst5Client.IdentityMessages

set_option autoImplicit false

/-!
# Base64 texts

`decode_base64` of `src/lib.rs`, which adds the padding a text may lack and takes the characters of
both alphabets, and the texts of the standard alphabet that it reads.
-/
namespace Mst5Client.Base64Text
open ByteOrder IoResult IdentityMessages

def isAsciiWhitespace (byte : UInt8) : Bool := byte ∈ [32, 9, 10, 12, 13]

def equalsSign : UInt8 := 61

def base64Value (byte : UInt8) : Except IoError UInt8 :=
  if 65 ≤ byte ∧ byte ≤ 90 then .ok (byte - 65)
  else if 97 ≤ byte ∧ byte ≤ 122 then .ok (byte - 97 + 26)
  else if 48 ≤ byte ∧ byte ≤ 57 then .ok (byte - 48 + 52)
  else if byte = 43 ∨ byte = 45 then .ok 62
  else if byte = 47 ∨ byte = 95 then .ok 63
  else .error (invalidInput "invalid base64 character")

def lateValue (byte : UInt8) : Except IoError UInt8 :=
  if byte = equalsSign then .ok 0 else base64Value byte

def decodeChunk (first second third fourth : UInt8) : Except IoError Bytes := do
  let a ← base64Value first
  let b ← base64Value second
  if third = equalsSign ∧ fourth ≠ equalsSign then .error (invalidInput "invalid base64 padding")
  else
    let c ← lateValue third
    let d ← lateValue fourth
    return [(a <<< 2) ||| (b >>> 4)] ++ (if third = equalsSign then []
      else [(b <<< 4) ||| (c >>> 2)]) ++ (if fourth = equalsSign then [] else [(c <<< 6) ||| d])

def decodeChunks : Bytes → Except IoError Bytes
  | a :: b :: c :: d :: rest => do
    let out ← decodeChunk a b c d
    let tail ← decodeChunks rest
    return out ++ tail
  | _ => .ok []

def padded (clean : Bytes) : Bytes :=
  clean ++ List.replicate ((4 - clean.length % 4) % 4) equalsSign

def decodeBase64 (input : String) : Except IoError Bytes :=
  let clean := (utf8 input).filter fun byte => !isAsciiWhitespace byte
  if clean = [] then .error (invalidInput "empty base64 value")
  else if clean.length % 4 = 1 then .error (invalidInput "invalid base64 length")
  else decodeChunks (padded clean)

def sextet (n : ℕ) : UInt8 :=
  if n < 26 then UInt8.ofNat (65 + n)
  else if n < 52 then UInt8.ofNat (71 + n)
  else if n < 62 then UInt8.ofNat (n - 4)
  else if n = 62 then 43
  else 47

def encodeGroups (pad : Bool) : Bytes → Bytes
  | [] => []
  | [x] =>
    sextet (x.toNat / 4) :: sextet (x.toNat % 4 * 16) :: (if pad then [equalsSign, equalsSign] else [])
  | [x, y] =>
    sextet (x.toNat / 4) :: sextet (x.toNat % 4 * 16 + y.toNat / 16) :: sextet (y.toNat % 16 * 4) ::
      (if pad then [equalsSign] else [])
  | x :: y :: z :: rest =>
    sextet (x.toNat / 4) :: sextet (x.toNat % 4 * 16 + y.toNat / 16) ::
      sextet (y.toNat % 16 * 4 + z.toNat / 64) :: sextet (z.toNat % 64) :: encodeGroups pad rest

def encodeBase64 (pad : Bool) (bytes : Bytes) : String :=
  String.ofList ((encodeGroups pad bytes).map fun byte => Char.ofNat byte.toNat)

section Sextets

theorem base64Value_sextet : ∀ n < 64, base64Value (sextet n) = .ok (UInt8.ofNat n) := by decide +kernel

def Visible (byte : UInt8) : Prop := isAsciiWhitespace byte = false ∧ byte.toNat < 128

instance (byte : UInt8) : Decidable (Visible byte) :=
  inferInstanceAs (Decidable (isAsciiWhitespace byte = false ∧ byte.toNat < 128))

theorem sextet_visible : ∀ n < 64, Visible (sextet n) := by decide +kernel

theorem sextet_ne : ∀ n < 64, sextet n ≠ equalsSign := by decide +kernel

theorem shifted_left : ∀ n < 64, UInt8.ofNat n <<< 2 = UInt8.ofNat (2 ^ 2 * n) ∧
    UInt8.ofNat n <<< 4 = UInt8.ofNat (2 ^ 4 * (n % 16)) ∧
      UInt8.ofNat n <<< 6 = UInt8.ofNat (2 ^ 6 * (n % 4)) := by
  decide +kernel

theorem shifted_right : ∀ n < 64, UInt8.ofNat n >>> 4 = UInt8.ofNat (n / 16) ∧
    UInt8.ofNat n >>> 2 = UInt8.ofNat (n / 4) := by
  decide +kernel

theorem ofNat_or {i high low : ℕ} (hlow : low < 2 ^ i) (h : 2 ^ i * high + low < 256) :
    UInt8.ofNat (2 ^ i * high) ||| UInt8.ofNat low = UInt8.ofNat (2 ^ i * high + low) := by
  rw [← UInt8.toNat_inj, UInt8.toNat_or, UInt8.toNat_ofNat', UInt8.toNat_ofNat', UInt8.toNat_ofNat',
    Nat.mod_eq_of_lt (by omega), Nat.mod_eq_of_lt (by omega), Nat.mod_eq_of_lt h,
    Nat.two_pow_add_eq_or_of_lt hlow]

variable {a b c d : ℕ}

theorem first_byte (ha : a < 64) (hb : b < 64) :
    (UInt8.ofNat a <<< 2) ||| (UInt8.ofNat b >>> 4) = UInt8.ofNat (2 ^ 2 * a + b / 16) := by
  rw [(shifted_left a ha).1, (shifted_right b hb).1, ofNat_or (by omega) (by omega)]

theorem second_byte (hb : b < 64) (hc : c < 64) :
    (UInt8.ofNat b <<< 4) ||| (UInt8.ofNat c >>> 2) = UInt8.ofNat (2 ^ 4 * (b % 16) + c / 4) := by
  rw [(shifted_left b hb).2.1, (shifted_right c hc).2, ofNat_or (by omega) (by omega)]

theorem third_byte (hc : c < 64) (hd : d < 64) :
    (UInt8.ofNat c <<< 6) ||| UInt8.ofNat d = UInt8.ofNat (2 ^ 6 * (c % 4) + d) := by
  rw [(shifted_left c hc).2.2, ofNat_or (by omega) (by omega)]

theorem lateValue_sextet (hc : c < 64) : lateValue (sextet c) = .ok (UInt8.ofNat c) := by
  rw [lateValue, if_neg (sextet_ne c hc), base64Value_sextet c hc]

theorem decodeChunk_one (ha : a < 64) (hb : b < 64) :
    decodeChunk (sextet a) (sextet b) equalsSign equalsSign =
      .ok [UInt8.ofNat (2 ^ 2 * a + b / 16)] := by
  rw [decodeChunk, bind_of_ok (base64Value_sextet a ha), bind_of_ok (base64Value_sextet b hb),
    ← first_byte ha hb]
  rfl

theorem decodeChunk_two (ha : a < 64) (hb : b < 64) (hc : c < 64) :
    decodeChunk (sextet a) (sextet b) (sextet c) equalsSign =
      .ok [UInt8.ofNat (2 ^ 2 * a + b / 16), UInt8.ofNat (2 ^ 4 * (b % 16) + c / 4)] := by
  have hne := sextet_ne c hc
  rw [decodeChunk, bind_of_ok (base64Value_sextet a ha), bind_of_ok (base64Value_sextet b hb),
    if_neg fun h => hne h.1, bind_of_ok (lateValue_sextet hc), ← first_byte ha hb, ← second_byte hb hc,
    if_neg hne]
  rfl

theorem decodeChunk_three (ha : a < 64) (hb : b < 64) (hc : c < 64) (hd : d < 64) :
    decodeChunk (sextet a) (sextet b) (sextet c) (sextet d) =
      .ok [UInt8.ofNat (2 ^ 2 * a + b / 16), UInt8.ofNat (2 ^ 4 * (b % 16) + c / 4),
        UInt8.ofNat (2 ^ 6 * (c % 4) + d)] := by
  have hne := sextet_ne c hc
  have hne' := sextet_ne d hd
  rw [decodeChunk, bind_of_ok (base64Value_sextet a ha), bind_of_ok (base64Value_sextet b hb),
    if_neg fun h => hne h.1, bind_of_ok (lateValue_sextet hc), bind_of_ok (lateValue_sextet hd),
    ← first_byte ha hb, ← second_byte hb hc, ← third_byte hc hd, if_neg hne, if_neg hne']
  rfl

end Sextets

theorem ofNat_eq (x : UInt8) {n : ℕ} (h : n = x.toNat) : UInt8.ofNat n = x := by
  rw [h, UInt8.ofNat_toNat]

theorem decodeChunks_encodeGroups (bytes : Bytes) :
    decodeChunks (encodeGroups true bytes) = .ok bytes := by
  induction bytes using encodeGroups.induct with
  | case1 => rfl
  | case2 x =>
    have hx := x.toNat_lt
    rw [encodeGroups, if_pos rfl, decodeChunks, bind_of_ok (decodeChunk_one (by omega) (by omega)),
      ofNat_eq x (by omega)]
    rfl
  | case3 x y =>
    have hx := x.toNat_lt
    have hy := y.toNat_lt
    rw [encodeGroups, if_pos rfl, decodeChunks,
      bind_of_ok (decodeChunk_two (by omega) (by omega) (by omega)), ofNat_eq x (by omega),
      ofNat_eq y (by omega)]
    rfl
  | case4 x y z rest ih =>
    have hx := x.toNat_lt
    have hy := y.toNat_lt
    have hz := z.toNat_lt
    rw [encodeGroups, decodeChunks,
      bind_of_ok (decodeChunk_three (by omega) (by omega) (by omega) (by omega)), ih,
      ofNat_eq x (by omega), ofNat_eq y (by omega), ofNat_eq z (by omega)]
    rfl

theorem padded_cons (a b c d : UInt8) (rest : Bytes) :
    padded (a :: b :: c :: d :: rest) = a :: b :: c :: d :: padded rest := by
  have hlen : (a :: b :: c :: d :: rest).length % 4 = rest.length % 4 := by
    simp only [List.length_cons]
    omega
  rw [padded, hlen]
  rfl

theorem padded_encodeGroups (pad : Bool) (bytes : Bytes) :
    padded (encodeGroups pad bytes) = encodeGroups true bytes ∧
      (encodeGroups pad bytes).length % 4 ≠ 1 := by
  induction bytes using encodeGroups.induct with
  | case1 => simp [encodeGroups, padded]
  | case2 x => cases pad <;> simp [encodeGroups, padded]
  | case3 x y => cases pad <;> simp [encodeGroups, padded]
  | case4 x y z rest ih =>
    rw [encodeGroups, encodeGroups, padded_cons, ih.1]
    refine ⟨rfl, ?_⟩
    have hrest := ih.2
    simp only [List.length_cons]
    omega

theorem encodeGroups_visible (pad : Bool) (bytes : Bytes) :
    ∀ byte ∈ encodeGroups pad bytes, Visible byte := by
  have hequals : Visible equalsSign := by decide
  induction bytes using encodeGroups.induct with
  | case1 => exact nofun
  | case2 x =>
    have hx := x.toNat_lt
    have hfirst := sextet_visible (x.toNat / 4) (by omega)
    have hsecond := sextet_visible (x.toNat % 4 * 16) (by omega)
    cases pad <;> simp [encodeGroups, hfirst, hsecond, hequals]
  | case3 x y =>
    have hx := x.toNat_lt
    have hy := y.toNat_lt
    have hfirst := sextet_visible (x.toNat / 4) (by omega)
    have hsecond := sextet_visible (x.toNat % 4 * 16 + y.toNat / 16) (by omega)
    have hthird := sextet_visible (y.toNat % 16 * 4) (by omega)
    cases pad <;> simp [encodeGroups, hfirst, hsecond, hthird, hequals]
  | case4 x y z rest ih =>
    have hx := x.toNat_lt
    have hy := y.toNat_lt
    have hz := z.toNat_lt
    have hfirst := sextet_visible (x.toNat / 4) (by omega)
    have hsecond := sextet_visible (x.toNat % 4 * 16 + y.toNat / 16) (by omega)
    have hthird := sextet_visible (y.toNat % 16 * 4 + z.toNat / 64) (by omega)
    have hlast := sextet_visible (z.toNat % 64) (by omega)
    simpa [encodeGroups, hfirst, hsecond, hthird, hlast] using ih

theorem utf8EncodeChar_ascii :
    ∀ n < 128, String.utf8EncodeChar (Char.ofNat n) = [UInt8.ofNat n] := by decide +kernel

theorem utf8_ascii {bytes : Bytes} (h : ∀ byte ∈ bytes, Visible byte) :
    utf8 (String.ofList (bytes.map fun byte => Char.ofNat byte.toNat)) = bytes := by
  rw [utf8_eq_flatMap, String.toList_ofList, List.flatMap_map]
  induction bytes with
  | nil => rfl
  | cons byte bytes ih =>
    rw [List.forall_mem_cons] at h
    rw [List.flatMap_cons, ih h.2, utf8EncodeChar_ascii _ h.1.2, UInt8.ofNat_toNat]
    rfl

theorem encodeGroups_ne_nil (pad : Bool) {bytes : Bytes} (h : bytes ≠ []) :
    encodeGroups pad bytes ≠ [] := by
  cases bytes using encodeGroups.induct with
  | case1 => exact absurd rfl h
  | case2 x => exact nofun
  | case3 x y => exact nofun
  | case4 x y z rest => exact nofun

theorem decodeBase64_clean {input : String} {clean : Bytes}
    (h : (utf8 input).filter (fun byte => !isAsciiWhitespace byte) = clean) (hne : clean ≠ [])
    (hlen : clean.length % 4 ≠ 1) : decodeBase64 input = decodeChunks (padded clean) := by
  rw [decodeBase64, h, if_neg hne, if_neg hlen]

theorem decode_encodeBase64 (pad : Bool) {bytes : Bytes} (h : bytes ≠ []) :
    decodeBase64 (encodeBase64 pad bytes) = .ok bytes := by
  have hvisible := encodeGroups_visible pad bytes
  have hclean : (utf8 (encodeBase64 pad bytes)).filter (fun byte => !isAsciiWhitespace byte) =
      encodeGroups pad bytes := by
    rw [encodeBase64, utf8_ascii hvisible, List.filter_eq_self]
    intro byte hbyte
    rw [(hvisible byte hbyte).1]
    rfl
  obtain ⟨hpadded, hlen⟩ := padded_encodeGroups pad bytes
  rw [decodeBase64_clean hclean (encodeGroups_ne_nil pad h) hlen, hpadded, decodeChunks_encodeGroups]

inductive Alphabet where
  | standard
  | urlSafe
deriving DecidableEq

def Alphabet.byte : Alphabet → UInt8 → UInt8
  | .standard, byte => byte
  | .urlSafe, byte => if byte = 43 then 45 else if byte = 47 then 95 else byte

def Alphabet.text (alphabet : Alphabet) (pad : Bool) (bytes : Bytes) : String :=
  String.ofList (((encodeGroups pad bytes).map alphabet.byte).map fun byte => Char.ofNat byte.toNat)

theorem forall_byte {P : UInt8 → Prop} (h : ∀ n < 256, P (UInt8.ofNat n)) (byte : UInt8) :
    P byte := by
  rw [← UInt8.ofNat_toNat (x := byte)]
  exact h byte.toNat byte.toNat_lt

theorem urlSafe_byte : ∀ byte, base64Value (Alphabet.urlSafe.byte byte) = base64Value byte ∧
    (Alphabet.urlSafe.byte byte = equalsSign ↔ byte = equalsSign) ∧
    (Visible byte → Visible (Alphabet.urlSafe.byte byte)) :=
  forall_byte (by decide +kernel)

variable (alphabet : Alphabet)

theorem Alphabet.byte_value (byte : UInt8) :
    base64Value (alphabet.byte byte) = base64Value byte := by
  cases alphabet with
  | standard => rfl
  | urlSafe => exact (urlSafe_byte byte).1

theorem Alphabet.byte_equals (byte : UInt8) :
    alphabet.byte byte = equalsSign ↔ byte = equalsSign := by
  cases alphabet with
  | standard => rfl
  | urlSafe => exact (urlSafe_byte byte).2.1

theorem Alphabet.byte_visible {byte : UInt8} (h : Visible byte) : Visible (alphabet.byte byte) := by
  cases alphabet with
  | standard => exact h
  | urlSafe => exact (urlSafe_byte byte).2.2 h

theorem decodeChunk_alphabet (a b c d : UInt8) :
    decodeChunk (alphabet.byte a) (alphabet.byte b) (alphabet.byte c)
    (alphabet.byte d) = decodeChunk a b c d := by
  simp only [decodeChunk, lateValue, alphabet.byte_value, alphabet.byte_equals, ne_eq]

theorem decodeChunks_alphabet (bytes : Bytes) :
    decodeChunks (bytes.map alphabet.byte) = decodeChunks bytes := by
  induction bytes using decodeChunks.induct with
  | case1 a b c d rest ih => simp only [List.map_cons, decodeChunks, decodeChunk_alphabet, ih]
  | case2 bytes h =>
    rcases bytes with _ | ⟨a, _ | ⟨b, _ | ⟨c, _ | ⟨d, rest⟩⟩⟩⟩
    · rfl
    · rfl
    · rfl
    · rfl
    · exact (h a b c d rest rfl).elim

theorem padded_alphabet (clean : Bytes) :
    padded (clean.map alphabet.byte) = (padded clean).map alphabet.byte := by
  have hequals : alphabet.byte equalsSign = equalsSign := (alphabet.byte_equals equalsSign).mpr rfl
  rw [padded, padded, List.map_append, List.map_replicate, List.length_map, hequals]

def isWhitespaceChar (c : Char) : Bool := c ∈ [' ', '\t', '\n', '\x0c', '\r']

/-- White space was inserted into `text`. -/
def Spaced (spaced text : String) : Prop :=
  spaced.toList.filter (fun c => !isWhitespaceChar c) = text.toList

theorem whitespace_encoded {c : Char} (h : isWhitespaceChar c = true) :
    (String.utf8EncodeChar c).filter (fun byte => !isAsciiWhitespace byte) = [] := by
  simp only [isWhitespaceChar, List.mem_cons, List.not_mem_nil, or_false, decide_eq_true_eq] at h
  rcases h with rfl | rfl | rfl | rfl | rfl <;> decide

theorem clean_spaced (chars : List Char) {bytes : Bytes} (hvisible : ∀ byte ∈ bytes, Visible byte)
    (h : chars.filter (fun c => !isWhitespaceChar c) = bytes.map fun byte => Char.ofNat byte.toNat) :
    (chars.flatMap String.utf8EncodeChar).filter (fun byte => !isAsciiWhitespace byte) = bytes := by
  induction chars generalizing bytes with
  | nil =>
    rw [List.filter_nil, eq_comm, List.map_eq_nil_iff] at h
    rw [h]
    rfl
  | cons c chars ih =>
    rw [List.flatMap_cons, List.filter_append]
    cases hc : isWhitespaceChar c with
    | true =>
      rw [List.filter_cons_of_neg (by simp [hc])] at h
      rw [whitespace_encoded hc, ih hvisible h, List.nil_append]
    | false =>
      rw [List.filter_cons_of_pos (by simp [hc])] at h
      cases bytes with
      | nil => cases h
      | cons byte bytes =>
        obtain ⟨rfl, hrest⟩ := List.cons.inj h
        rw [List.forall_mem_cons] at hvisible
        rw [utf8EncodeChar_ascii _ hvisible.1.2, UInt8.ofNat_toNat, ih hvisible.2 hrest,
          List.filter_cons_of_pos (by simp [hvisible.1.1])]
        rfl

theorem decode_spaced (pad : Bool) {bytes : Bytes} (hne : bytes ≠ []) {input : String}
    (h : Spaced input (alphabet.text pad bytes)) : decodeBase64 input = .ok bytes := by
  have hvisible : ∀ byte ∈ (encodeGroups pad bytes).map alphabet.byte, Visible byte := by
    intro byte hbyte
    obtain ⟨original, horiginal, rfl⟩ := List.mem_map.mp hbyte
    exact alphabet.byte_visible (encodeGroups_visible pad bytes original horiginal)
  have hclean : (utf8 input).filter (fun byte => !isAsciiWhitespace byte) =
      (encodeGroups pad bytes).map alphabet.byte := by
    rw [utf8_eq_flatMap]
    refine clean_spaced _ hvisible ?_
    rw [h, Alphabet.text, String.toList_ofList]
  obtain ⟨hpadded, hlen⟩ := padded_encodeGroups pad bytes
  rw [decodeBase64_clean hclean (by simpa using encodeGroups_ne_nil pad hne) (by simpa using hlen),
    padded_alphabet, decodeChunks_alphabet, hpadded, decodeChunks_encodeGroups]

end Mst5Client.Base64Text
