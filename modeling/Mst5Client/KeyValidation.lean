import Mst5Client.Base64Text

set_option autoImplicit false

/-!
# Keys at build time and at run time

`build.rs` checks the pinned key with a scanner of its own, `decoded_base64_len`, before
`decode_base64` reads it in the client.
-/
namespace Mst5Client.KeyValidation
open ByteOrder IoResult IdentityMessages Base64Text

def isAsciiAlphanumeric (byte : UInt8) : Bool :=
  (65 ≤ byte && byte ≤ 90) || (97 ≤ byte && byte ≤ 122) || (48 ≤ byte && byte ≤ 57)

def isBase64 (byte : UInt8) : Bool := isAsciiAlphanumeric byte || byte ∈ [43, 47, 45, 95]

def countChunks (chunkCount : ℕ) : ℕ → ℕ → Bytes → Except Unit ℕ
  | index, decoded, a :: b :: c :: d :: rest =>
    let last : Bool := index + 1 = chunkCount
    if !isBase64 a || !isBase64 b then .error ()
    else
      let cPad : Bool := c = equalsSign
      let dPad : Bool := d = equalsSign
      if cPad && !dPad || !cPad && !isBase64 c || !dPad && !isBase64 d || !last && (cPad || dPad)
        then .error ()
      else countChunks chunkCount (index + 1) (decoded + (1 + (!cPad).toNat + (!dPad).toNat)) rest
  | _, decoded, _ => .ok decoded

def decodedBase64Len (value : String) : Except Unit ℕ :=
  let bytes := (utf8 value).filter fun byte => !isAsciiWhitespace byte
  if bytes = [] ∨ bytes.length % 4 = 1 then .error ()
  else countChunks ((padded bytes).length / 4) 0 0 (padded bytes)

variable {a b c d : UInt8}

/-- A chunk that is not the last one ends in padding. -/
def PaddedEarly : Bytes → Prop
  | _ :: _ :: c :: d :: rest => rest ≠ [] ∧ (c = equalsSign ∨ d = equalsSign) ∨ PaddedEarly rest
  | _ => False

instance decidablePaddedEarly : ∀ p, Decidable (PaddedEarly p)
  | _ :: _ :: c :: d :: rest =>
    have : Decidable (PaddedEarly rest) := decidablePaddedEarly rest
    inferInstanceAs (Decidable (rest ≠ [] ∧ (c = equalsSign ∨ d = equalsSign) ∨ PaddedEarly rest))
  | [] | [_] | [_, _] | [_, _, _] => isFalse fun h => h

theorem base64Value_ok_iff : ∀ byte, (base64Value byte).isOk = isBase64 byte :=
  forall_byte (by decide +kernel)

theorem isOk_iff {ε α : Type} {x : Except ε α} : x.isOk = true ↔ ∃ a, x = .ok a := by
  cases x with
  | error e => simp [Except.isOk, Except.toBool]
  | ok a => simp [Except.isOk, Except.toBool]

theorem base64Value_eq_ok_iff {byte : UInt8} :
    (∃ v, base64Value byte = .ok v) ↔ isBase64 byte = true := by
  rw [← base64Value_ok_iff, isOk_iff]

theorem lateValue_eq_ok_iff {byte : UInt8} :
    (∃ v, lateValue byte = .ok v) ↔ (byte ≠ equalsSign → isBase64 byte = true) := by
  unfold lateValue
  split_ifs with h
  · exact iff_of_true ⟨0, rfl⟩ fun hne => absurd h hne
  · rw [base64Value_eq_ok_iff]
    exact ⟨fun hok _ => hok, fun hok => hok h⟩

/-- What both loops require of a chunk. -/
def ChunkOk (a b c d : UInt8) : Prop :=
  isBase64 a = true ∧ isBase64 b = true ∧ ¬ (c = equalsSign ∧ d ≠ equalsSign) ∧
    (c ≠ equalsSign → isBase64 c = true) ∧ (d ≠ equalsSign → isBase64 d = true)

def chunkBytes (c d : UInt8) : ℕ :=
  1 + (!decide (c = equalsSign)).toNat + (!decide (d = equalsSign)).toNat

theorem decodeChunk_eq_ok_iff : (∃ out, decodeChunk a b c d = .ok out) ↔ ChunkOk a b c d := by
  rw [ChunkOk, ← base64Value_eq_ok_iff, ← base64Value_eq_ok_iff, ← lateValue_eq_ok_iff,
    ← lateValue_eq_ok_iff]
  constructor
  · rintro ⟨out, hout⟩
    obtain ⟨va, ha, hafter⟩ := bind_eq_ok hout
    obtain ⟨vb, hb, hchecked⟩ := bind_eq_ok hafter
    obtain ⟨hpadding, hlate⟩ := ite_error_eq_ok.mp hchecked
    obtain ⟨vc, hc, hlast⟩ := bind_eq_ok hlate
    obtain ⟨vd, hd, -⟩ := bind_eq_ok hlast
    exact ⟨⟨va, ha⟩, ⟨vb, hb⟩, hpadding, ⟨vc, hc⟩, ⟨vd, hd⟩⟩
  · rintro ⟨⟨va, ha⟩, ⟨vb, hb⟩, hpadding, ⟨vc, hc⟩, ⟨vd, hd⟩⟩
    rw [decodeChunk, bind_of_ok ha, bind_of_ok hb, if_neg hpadding, bind_of_ok hc, bind_of_ok hd]
    exact ⟨_, rfl⟩

theorem decodeChunk_length {out : Bytes} (h : decodeChunk a b c d = .ok out) :
    out.length = chunkBytes c d := by
  obtain ⟨va, -, hafter⟩ := bind_eq_ok h
  obtain ⟨vb, -, hchecked⟩ := bind_eq_ok hafter
  obtain ⟨-, hlate⟩ := ite_error_eq_ok.mp hchecked
  obtain ⟨vc, -, hlast⟩ := bind_eq_ok hlate
  obtain ⟨vd, -, hout⟩ := bind_eq_ok hlast
  cases hout
  by_cases hcPad : c = equalsSign <;> by_cases hdPad : d = equalsSign <;> simp [chunkBytes, hcPad,
    hdPad]

theorem decodeChunks_cons_ok_iff {rest : Bytes} {n : ℕ} :
    (∃ v, decodeChunks (a :: b :: c :: d :: rest) = .ok v ∧ v.length = n) ↔
      ChunkOk a b c d ∧ ∃ v, decodeChunks rest = .ok v ∧ chunkBytes c d + v.length = n := by
  constructor
  · rintro ⟨v, hv, hn⟩
    obtain ⟨out, hout, hafter⟩ := bind_eq_ok hv
    obtain ⟨tail, htail, hv⟩ := bind_eq_ok hafter
    cases hv
    rw [List.length_append, decodeChunk_length hout] at hn
    exact ⟨decodeChunk_eq_ok_iff.mp ⟨out, hout⟩, tail, htail, hn⟩
  · rintro ⟨hchunk, tail, htail, hn⟩
    obtain ⟨out, hout⟩ := decodeChunk_eq_ok_iff.mpr hchunk
    refine ⟨out ++ tail, ?_, ?_⟩
    · rw [decodeChunks, bind_of_ok hout, bind_of_ok htail]
      rfl
    · rw [List.length_append, decodeChunk_length hout]
      exact hn

theorem countChunks_cons_ok_iff {count index decoded n : ℕ} {rest : Bytes} :
    countChunks count index decoded (a :: b :: c :: d :: rest) = .ok n ↔
      ChunkOk a b c d ∧ (index + 1 ≠ count → c ≠ equalsSign ∧ d ≠ equalsSign) ∧
        countChunks count (index + 1) (decoded + chunkBytes c d) rest = .ok n := by
  rw [countChunks]
  dsimp only
  rw [ite_error_eq_ok, ite_error_eq_ok, ChunkOk, chunkBytes]
  simp only [Bool.or_eq_true, Bool.and_eq_true, Bool.not_eq_true', decide_eq_true_eq,
    decide_eq_false_iff_not, not_or, not_and, Bool.not_eq_false]
  constructor
  · rintro ⟨⟨ha, hb⟩, ⟨⟨⟨hpadding, hc⟩, hd⟩, hearly⟩, hrest⟩
    exact ⟨⟨ha, hb, hpadding, hc, hd⟩, hearly, hrest⟩
  · rintro ⟨⟨ha, hb, hpadding, hc, hd⟩, hearly, hrest⟩
    exact ⟨⟨ha, hb⟩, ⟨⟨⟨hpadding, hc⟩, hd⟩, hearly⟩, hrest⟩

/-- On whole chunks the scanner counts what the decoder returns, unless there is padding before the
last one. -/
theorem countChunks_eq_ok_iff (p : Bytes) (hlen : p.length % 4 = 0) {count index decoded n : ℕ}
    (hcount : count = index + p.length / 4) :
    countChunks count index decoded p = .ok n ↔
      (∃ v, decodeChunks p = .ok v ∧ decoded + v.length = n) ∧ ¬ PaddedEarly p := by
  induction p using decodeChunks.induct generalizing index decoded with
  | case1 a b c d rest ih =>
    simp only [List.length_cons] at hlen hcount
    have hlast : index + 1 ≠ count ↔ rest ≠ [] := by
      rw [ne_eq, ne_eq, ← List.length_eq_zero_iff]
      omega
    rw [countChunks_cons_ok_iff, ih (by omega) (by omega), hlast]
    constructor
    · rintro ⟨hchunk, hearly, ⟨tail, htail, hn⟩, hrest⟩
      obtain ⟨v, hv, hlength⟩ := decodeChunks_cons_ok_iff.mpr ⟨hchunk, tail, htail, rfl⟩
      refine ⟨⟨v, hv, by omega⟩, ?_⟩
      rintro (⟨hne, hpad | hpad⟩ | hpadded)
      · exact (hearly hne).1 hpad
      · exact (hearly hne).2 hpad
      · exact hrest hpadded
    · rintro ⟨⟨v, hv, hn⟩, hpadded⟩
      obtain ⟨hchunk, tail, htail, hlength⟩ := decodeChunks_cons_ok_iff.mp ⟨v, hv, rfl⟩
      refine ⟨hchunk, ?_, ⟨tail, htail, by omega⟩, fun h => hpadded (.inr h)⟩
      intro hne
      exact ⟨fun hpad => hpadded (.inl ⟨hne, .inl hpad⟩), fun hpad => hpadded (.inl ⟨hne, .inr hpad⟩)⟩
  | case2 p h =>
    have hnil : p = [] := by
      rcases p with _ | ⟨a, _ | ⟨b, _ | ⟨c, _ | ⟨d, rest⟩⟩⟩⟩
      · rfl
      · simp at hlen
      · simp at hlen
      · simp at hlen
      · exact (h a b c d rest rfl).elim
    rw [hnil]
    simp [countChunks, decodeChunks, PaddedEarly]

theorem padded_length_mod (clean : Bytes) : (padded clean).length % 4 = 0 := by
  rw [padded, List.length_append, List.length_replicate]
  omega

def cleaned (s : String) : Bytes := (utf8 s).filter fun byte => !isAsciiWhitespace byte

/-- Padding stands before the last chunk of the text. -/
def HasEarlyPadding (s : String) : Prop := PaddedEarly (padded (cleaned s))

/-- Every chunk has two Base64 characters and then two more, one and `=`, or `==`. -/
def ChunksOk : Bytes → Prop
  | a :: b :: c :: d :: rest => ChunkOk a b c d ∧ ChunksOk rest
  | _ => True

theorem decodeChunks_eq_ok_iff (p : Bytes) : (∃ v, decodeChunks p = .ok v) ↔ ChunksOk p := by
  induction p using decodeChunks.induct with
  | case1 a b c d rest ih =>
    rw [ChunksOk, ← ih]
    constructor
    · rintro ⟨v, hv⟩
      obtain ⟨hchunk, tail, htail, -⟩ := decodeChunks_cons_ok_iff.mp ⟨v, hv, rfl⟩
      exact ⟨hchunk, tail, htail⟩
    · rintro ⟨hchunk, tail, htail⟩
      obtain ⟨v, hv, -⟩ := decodeChunks_cons_ok_iff.mpr ⟨hchunk, tail, htail, rfl⟩
      exact ⟨v, hv⟩
  | case2 p h => simp [decodeChunks, ChunksOk]

theorem decodeBase64_eq_ok_iff (s : String) :
    (∃ v, decodeBase64 s = .ok v) ↔
      ¬ (cleaned s = [] ∨ (cleaned s).length % 4 = 1 ∨ ¬ ChunksOk (padded (cleaned s))) := by
  unfold decodeBase64 cleaned
  dsimp only
  generalize (utf8 s).filter (fun byte => !isAsciiWhitespace byte) = clean
  by_cases hempty : clean = []
  · simp [hempty]
  by_cases hlen : clean.length % 4 = 1
  · simp [hempty, hlen]
  rw [if_neg hempty, if_neg hlen, decodeChunks_eq_ok_iff]
  simp only [hempty, hlen, false_or, not_not]

theorem decodedBase64Len_eq_ok_iff (s : String) (n : ℕ) :
    decodedBase64Len s = .ok n ↔ (∃ v, decodeBase64 s = .ok v ∧ v.length = n) ∧
      ¬ HasEarlyPadding s := by
  unfold decodedBase64Len decodeBase64 HasEarlyPadding cleaned
  dsimp only
  generalize (utf8 s).filter (fun byte => !isAsciiWhitespace byte) = clean
  by_cases hempty : clean = []
  · simp [hempty]
  by_cases hlen : clean.length % 4 = 1
  · simp [hempty, hlen]
  rw [if_neg (not_or.mpr ⟨hempty, hlen⟩), if_neg hempty, if_neg hlen,
    countChunks_eq_ok_iff (padded clean) (padded_length_mod clean) (Nat.zero_add _).symm]
  simp only [Nat.zero_add]

/-- The scanner of the build agrees with the decoder on a text unless there is padding before its last
chunk in a text that is Base64 otherwise: not empty, not one character too long, every chunk well
formed. Bytes are read from every Base64 text of theirs, in either alphabet, with or without padding
and with white space anywhere. -/
theorem validators_agree_iff (s : String) :
    ((∀ n, decodedBase64Len s = .ok n ↔ ∃ v, decodeBase64 s = .ok v ∧ v.length = n) ↔
      (HasEarlyPadding s →
        cleaned s = [] ∨ (cleaned s).length % 4 = 1 ∨ ¬ ChunksOk (padded (cleaned s)))) ∧
    ∀ bytes : Bytes, bytes ≠ [] → ∀ (alphabet : Alphabet) (pad : Bool) (input : String),
      Spaced input (alphabet.text pad bytes) → decodeBase64 input = .ok bytes := by
  refine ⟨?_, fun bytes hne alphabet pad input h => decode_spaced alphabet pad hne h⟩
  simp only [decodedBase64Len_eq_ok_iff]
  constructor
  · intro hagree hearly
    by_contra hread
    obtain ⟨v, hv⟩ := (decodeBase64_eq_ok_iff s).mpr hread
    exact ((hagree v.length).mpr ⟨v, hv, rfl⟩).2 hearly
  · intro hcondition n
    refine ⟨fun h => h.1, ?_⟩
    rintro ⟨v, hv, hn⟩
    exact ⟨⟨v, hv, hn⟩, fun hearly => (decodeBase64_eq_ok_iff s).mp ⟨v, hv⟩ (hcondition hearly)⟩

theorem validators_agree_iff_sample :
    (∀ n, decodedBase64Len "QUI" = .ok n ↔ ∃ v, decodeBase64 "QUI" = .ok v ∧ v.length = n) ∧
    decodeBase64 " _-\n8=" = .ok [255, 239] := by
  obtain ⟨hagree, hread⟩ := validators_agree_iff "QUI"
  refine ⟨hagree.mpr ?_, hread [255, 239] (by decide) .urlSafe true _ ?_⟩
  · intro hearly
    have hlate : ¬ PaddedEarly (padded (cleaned "QUI")) := by decide +kernel
    exact absurd hearly hlate
  · rw [Spaced]
    decide +kernel

/-- Two padded chunks: the build refuses them, the client reads two bytes. -/
theorem validators_differ :
    decodedBase64Len "QQ==QQ==" = .error () ∧ decodeBase64 "QQ==QQ==" = .ok [65, 65] := by
  decide +kernel

end Mst5Client.KeyValidation
