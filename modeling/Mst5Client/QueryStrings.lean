import Mst5Client.CborRoundTrip
import Mst5Client.KeyValidation
import Mst5Client.TextParts

set_option autoImplicit false

/-!
# Query strings

`QueryBuilder` and `percent_encode` of `lib.rs`, over texts as lists of characters, and how a query
is read: at its separators, and then by the bytes that a percent sign announces.
-/
namespace Mst5Client.QueryStrings
open ByteOrder IdentityMessages HttpResponses TextParts
open Base64Text (forall_byte)
open KeyValidation (isAsciiAlphanumeric)

def hexTable : List Char := "0123456789ABCDEF".toList

def hexChar (index : UInt8) : Char := hexTable.getD index.toNat '0'

def isUnreserved (byte : UInt8) : Bool := isAsciiAlphanumeric byte || byte ∈ [45, 46, 95, 126]

def encodeByte (byte : UInt8) : List Char :=
  if isUnreserved byte then [Char.ofNat byte.toNat]
  else ['%', hexChar (byte >>> 4), hexChar (byte &&& 0x0f)]

def percentEncode (value : String) : List Char := (utf8 value).flatMap encodeByte

structure QueryBuilder where
  value : List Char
deriving DecidableEq

def QueryBuilder.new : QueryBuilder := ⟨[]⟩

def QueryBuilder.push (q : QueryBuilder) (key value : String) : QueryBuilder :=
  ⟨(if q.value ≠ [] then q.value ++ ['&'] else q.value) ++ percentEncode key ++
    '=' :: percentEncode value⟩

def QueryBuilder.pushI64 (q : QueryBuilder) (key : String) (value : Int64) : QueryBuilder :=
  q.push key (toString value.toInt)

def QueryBuilder.pushU64 (q : QueryBuilder) (key : String) (value : UInt64) : QueryBuilder :=
  q.push key (toString value.toNat)

def QueryBuilder.pushUsize (q : QueryBuilder) (key : String) (value : ℕ) : QueryBuilder :=
  q.push key (toString value)

def QueryBuilder.finish (q : QueryBuilder) : List Char := q.value

def QueryBuilder.pushAll (q : QueryBuilder) (pairs : List (String × String)) : QueryBuilder :=
  pairs.foldl (fun q pair => q.push pair.1 pair.2) q

def hexValue (c : Char) : Option ℕ :=
  if c.isDigit then some (c.toNat - 48)
  else if 'A' ≤ c ∧ c ≤ 'F' then some (c.toNat - 55)
  else if 'a' ≤ c ∧ c ≤ 'f' then some (c.toNat - 87)
  else none

def decodeBytes : List Char → Option Bytes
  | [] => some []
  | '%' :: high :: low :: rest => do
    let high ← hexValue high
    let low ← hexValue low
    let bytes ← decodeBytes rest
    return UInt8.ofNat (16 * high + low) :: bytes
  | c :: rest => if c = '%' then none else (decodeBytes rest).map (String.utf8EncodeChar c ++ ·)

def percentDecode (text : List Char) : Option String :=
  (decodeBytes text).bind fun bytes => String.fromUTF8? ⟨bytes.toArray⟩

def readPair (part : List Char) : Option (String × String) := do
  let (key, value) ← splitOnce '=' part
  let key ← percentDecode key
  let value ← percentDecode value
  return (key, value)

def readQuery (query : List Char) : Option (List (String × String)) :=
  (query.splitOn '&').mapM readPair

def isQueryChar (c : Char) : Bool := c.isAlphanum || c ∈ ['-', '.', '_', '~', '%', '&', '=']

def isComponentChar (c : Char) : Bool := isQueryChar c && decide (c ≠ '&' ∧ c ≠ '=')

theorem encodeByte_chars : ∀ byte : UInt8, (encodeByte byte).all isComponentChar = true :=
  forall_byte (by decide +kernel)

theorem percentEncode_chars {value : String} {c : Char} (h : c ∈ percentEncode value) :
    isQueryChar c = true ∧ c ≠ '&' ∧ c ≠ '=' := by
  obtain ⟨byte, -, hc⟩ := List.mem_flatMap.mp h
  have hchar := List.all_eq_true.mp (encodeByte_chars byte) c hc
  rwa [isComponentChar, Bool.and_eq_true, decide_eq_true_eq] at hchar

theorem hexValue_hexChar : ∀ byte : UInt8, hexValue (hexChar (byte >>> 4)) = some (byte.toNat / 16) ∧
    hexValue (hexChar (byte &&& 0x0f)) = some (byte.toNat % 16) :=
  forall_byte (by decide +kernel)

theorem unreserved_char : ∀ byte : UInt8, isUnreserved byte = true →
    Char.ofNat byte.toNat ≠ '%' ∧ String.utf8EncodeChar (Char.ofNat byte.toNat) = [byte] :=
  forall_byte (by decide +kernel)

theorem decodeBytes_of_ne {c : Char} (h : c ≠ '%') (rest : List Char) :
    decodeBytes (c :: rest) = (decodeBytes rest).map (String.utf8EncodeChar c ++ ·) := by
  rw [decodeBytes]
  · exact if_neg h
  · rintro high low tail rfl
    exact absurd rfl h

theorem decodeBytes_encodeByte (byte : UInt8) (rest : List Char) :
    decodeBytes (encodeByte byte ++ rest) = (decodeBytes rest).map (byte :: ·) := by
  unfold encodeByte
  split_ifs with h
  · obtain ⟨hne, hbyte⟩ := unreserved_char byte h
    rw [List.singleton_append, decodeBytes_of_ne hne, hbyte]
    rfl
  · obtain ⟨hhigh, hlow⟩ := hexValue_hexChar byte
    have hvalue : UInt8.ofNat (16 * (byte.toNat / 16) + byte.toNat % 16) = byte := by
      rw [Nat.div_add_mod, UInt8.ofNat_toNat]
    simp only [List.cons_append, List.nil_append, decodeBytes, hhigh, hlow]
    cases decodeBytes rest with
    | none => rfl
    | some bytes => exact congrArg (fun b => some (b :: bytes)) hvalue

theorem decodeBytes_encoded (bytes : Bytes) :
    decodeBytes (bytes.flatMap encodeByte) = some bytes := by
  induction bytes with
  | nil => rfl
  | cons byte bytes ih =>
    rw [List.flatMap_cons, decodeBytes_encodeByte, ih]
    rfl

theorem percentDecode_percentEncode (value : String) :
    percentDecode (percentEncode value) = some value := by
  rw [percentDecode, percentEncode, decodeBytes_encoded]
  exact CborRoundTrip.fromUtf8_utf8 value

def encodePair (pair : String × String) : List Char :=
  percentEncode pair.1 ++ '=' :: percentEncode pair.2

theorem encodePair_ne_nil (pair : String × String) : encodePair pair ≠ [] :=
  List.append_ne_nil_of_right_ne_nil _ (List.cons_ne_nil _ _)

theorem encodePair_chars {pair : String × String} {c : Char} (h : c ∈ encodePair pair) :
    isQueryChar c = true ∧ c ≠ '&' := by
  rw [encodePair, List.mem_append, List.mem_cons] at h
  rcases h with h | rfl | h
  · exact ⟨(percentEncode_chars h).1, (percentEncode_chars h).2.1⟩
  · decide
  · exact ⟨(percentEncode_chars h).1, (percentEncode_chars h).2.1⟩

theorem readPair_encodePair (pair : String × String) : readPair (encodePair pair) = some pair := by
  have hkey : '=' ∉ percentEncode pair.1 := fun h => (percentEncode_chars h).2.2 rfl
  simp only [readPair, encodePair, splitOnce_append hkey, Option.bind_eq_bind, Option.bind_some,
    percentDecode_percentEncode]
  rfl

theorem mapM_readPair (pairs : List (String × String)) :
    (pairs.map encodePair).mapM readPair = some pairs := by
  induction pairs with
  | nil => rfl
  | cons pair pairs ih =>
    rw [List.map_cons, List.mapM_cons, readPair_encodePair, ih]
    rfl

theorem push_new (pair : String × String) :
    QueryBuilder.new.push pair.1 pair.2 = ⟨encodePair pair⟩ :=
  rfl

theorem push_of_ne_nil {q : QueryBuilder} (h : q.value ≠ []) (pair : String × String) :
    q.push pair.1 pair.2 = ⟨q.value ++ '&' :: encodePair pair⟩ := by
  simp only [QueryBuilder.push, if_pos h, encodePair, List.append_assoc, List.cons_append,
    List.nil_append]

theorem pushAll_of_ne_nil {q : QueryBuilder} (h : q.value ≠ []) (pairs : List (String × String)) :
    q.pushAll pairs = ⟨q.value ++ pairs.flatMap fun pair => '&' :: encodePair pair⟩ := by
  induction pairs generalizing q with
  | nil => exact congrArg QueryBuilder.mk (List.append_nil _).symm
  | cons pair pairs ih =>
    have hne : (QueryBuilder.mk (q.value ++ '&' :: encodePair pair)).value ≠ [] :=
      List.append_ne_nil_of_left_ne_nil h _
    calc q.pushAll (pair :: pairs)
        _ = (q.push pair.1 pair.2).pushAll pairs := rfl
        _ = (QueryBuilder.mk (q.value ++ '&' :: encodePair pair)).pushAll pairs := by
          rw [push_of_ne_nil h]
        _ = _ := by rw [ih hne, List.flatMap_cons, List.append_assoc]

theorem intercalate_cons (first : List Char) (parts : List (List Char)) :
    ['&'].intercalate (first :: parts) = first ++ parts.flatMap ('&' :: ·) := by
  induction parts generalizing first with
  | nil => simp
  | cons part parts ih =>
    rw [List.intercalate_cons_cons, ih, List.flatMap_cons, List.append_assoc]
    rfl

theorem finish_pushAll {pairs : List (String × String)} (h : pairs ≠ []) :
    (QueryBuilder.new.pushAll pairs).finish = ['&'].intercalate (pairs.map encodePair) := by
  obtain ⟨pair, pairs, rfl⟩ := List.exists_cons_of_ne_nil h
  have hne : (QueryBuilder.mk (encodePair pair)).value ≠ [] := encodePair_ne_nil pair
  calc (QueryBuilder.new.pushAll (pair :: pairs)).finish
      _ = ((QueryBuilder.new.push pair.1 pair.2).pushAll pairs).finish := rfl
      _ = ((QueryBuilder.mk (encodePair pair)).pushAll pairs).finish := by rw [push_new]
      _ = encodePair pair ++ pairs.flatMap fun pair => '&' :: encodePair pair := by
        rw [pushAll_of_ne_nil hne]; rfl
      _ = _ := by rw [List.map_cons, intercalate_cons, List.flatMap_map]

theorem mem_intercalate {c : Char} {parts : List (List Char)} (h : c ∈ ['&'].intercalate parts) :
    c = '&' ∨ ∃ part ∈ parts, c ∈ part := by
  cases parts with
  | nil => cases h
  | cons first parts =>
    rw [intercalate_cons, List.mem_append, List.mem_flatMap] at h
    rcases h with h | ⟨part, hpart, h⟩
    · exact .inr ⟨first, List.mem_cons_self, h⟩
    · rcases List.mem_cons.mp h with rfl | h
      · exact .inl rfl
      · exact .inr ⟨part, List.mem_cons_of_mem _ hpart, h⟩

/-- A query has only query characters and is read as the pairs that were pushed. -/
theorem query_reads_back (pairs : List (String × String)) (hne : pairs ≠ []) :
    (∀ c ∈ (QueryBuilder.new.pushAll pairs).finish, isQueryChar c = true) ∧
      readQuery (QueryBuilder.new.pushAll pairs).finish = some pairs := by
  rw [finish_pushAll hne]
  constructor
  · intro c hc
    rcases mem_intercalate hc with rfl | ⟨part, hpart, h⟩
    · decide
    · obtain ⟨pair, -, rfl⟩ := List.mem_map.mp hpart
      exact (encodePair_chars h).1
  · have hsplit : (['&'].intercalate (pairs.map encodePair)).splitOn '&' = pairs.map encodePair := by
      refine List.splitOn_intercalate '&' (fun part hpart h => ?_)
        (fun hnil => hne (List.map_eq_nil_iff.mp hnil))
      obtain ⟨pair, -, rfl⟩ := List.mem_map.mp hpart
      exact (encodePair_chars h).2 rfl
    rw [readQuery, hsplit, mapM_readPair]

example : ((QueryBuilder.new.push "peer" "@alice").pushI64 "after" 42).finish =
  "peer=%40alice&after=42".toList := by
  decide +kernel

theorem query_reads_back_sample :
    readQuery (QueryBuilder.new.pushAll [("", "a&b=c"), ("%", "")]).finish =
      some [("", "a&b=c"), ("%", "")] :=
  (query_reads_back [("", "a&b=c"), ("%", "")] (List.cons_ne_nil _ _)).2

end Mst5Client.QueryStrings
