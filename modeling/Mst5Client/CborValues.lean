import Mst5Client.ByteReader
import Mst5Client.IdentityMessages

set_option autoImplicit false

/-!
# CBOR values

`Value` of `src/lib.rs` with its accessors, `encode_cbor_value` and `CborDecoder`. Floats are their
bit patterns; `bits` is the width of `usize`.
-/
namespace Mst5Client.CborValues
open ByteOrder IoResult ByteReader IdentityMessages

inductive Value where
  | null
  | bool (value : Bool)
  | unsigned (value : UInt64)
  | integer (value : Int64)
  | float (bits : UInt64)
  | bytes (value : Bytes)
  | text (value : String)
  | array (values : List Value)
  | map (entries : List (String × Value))

def Value.get (key : String) : Value → Option Value
  | .map entries => (entries.find? fun entry => entry.1 = key).map Prod.snd
  | _ => none

def Value.asStr : Value → Option String
  | .text value => some value
  | _ => none

def Value.asU64 : Value → Option UInt64
  | .unsigned value => some value
  | .integer value => if 0 ≤ value.toInt then some value.toUInt64 else none
  | _ => none

def Value.asI64 : Value → Option Int64
  | .integer value => some value
  | .unsigned value => if value.toNat ≤ 2 ^ 63 - 1 then some value.toInt64 else none
  | _ => none

def Value.asBool : Value → Option Bool
  | .bool value => some value
  | _ => none

def encodeHead (major : UInt8) (value : UInt64) : Bytes :=
  let lead := major <<< 5
  let n := value.toNat
  if n ≤ 23 then [lead ||| UInt8.ofNat n]
  else if n ≤ 0xff then [lead ||| 24, UInt8.ofNat n]
  else if n ≤ 0xffff then (lead ||| 25) :: beBytes 2 n
  else if n ≤ 0xffffffff then (lead ||| 26) :: beBytes 4 n
  else (lead ||| 27) :: beBytes 8 n

def encodeString (major : UInt8) (value : Bytes) : Bytes :=
  encodeHead major (UInt64.ofNat value.length) ++ value

mutual
def encodeValue : Value → Bytes
  | .null => [0xf6]
  | .bool false => [0xf4]
  | .bool true => [0xf5]
  | .unsigned value => encodeHead 0 value
  | .integer value =>
    if 0 ≤ value.toInt then encodeHead 0 value.toUInt64
    -- `i128` has room for the negation of `i64::MIN`
    else encodeHead 1 (UInt64.ofInt (-1 - value.toInt))
  | .float bits => 0xfb :: beBytes 8 bits.toNat
  | .bytes value => encodeString 2 value
  | .text value => encodeString 3 (utf8 value)
  | .array values => encodeHead 4 (UInt64.ofNat values.length) ++ encodeValues values
  | .map entries => encodeHead 5 (UInt64.ofNat entries.length) ++ encodeEntries entries

def encodeValues : List Value → Bytes
  | [] => []
  | value :: values => encodeValue value ++ encodeValues values

def encodeEntries : List (String × Value) → Bytes
  | [] => []
  | (key, value) :: entries => encodeString 3 (utf8 key) ++ encodeValue value ++ encodeEntries entries
end

def encodeCbor (value : Value) : Bytes := encodeValue value

def maxPlainPayload : ℕ := 4 * 1024 * 1024

/-- `f32::from_bits(bits) as f64`, on bit patterns; a NaN is made quiet. -/
def widen (bits : ℕ) : ℕ :=
  let sign := bits / 2 ^ 31 * 2 ^ 63
  let exponent := bits / 2 ^ 23 % 2 ^ 8
  let fraction := bits % 2 ^ 23
  if exponent = 255 then
    if fraction = 0 then sign + 0x7ff * 2 ^ 52
    else sign + 0x7ff * 2 ^ 52 + (fraction * 2 ^ 29 ||| 2 ^ 51)
  else if exponent = 0 then
    if fraction = 0 then sign
    -- a subnormal has a normal double: its leading bit becomes the hidden one
    else
      let top := fraction.log2
      sign + (top + 874) * 2 ^ 52 + (fraction - 2 ^ top) * 2 ^ (52 - top)
  else sign + (exponent + 896) * 2 ^ 52 + fraction * 2 ^ 29

section Decoding

/-- The two ways in which `CborDecoder` gets at its input. `take` has the width of `usize` beside the
length, and checks the sum. -/
class Input (M : Type → Type) where
  byte : M UInt8
  take : ℕ → ℕ → M Bytes

export Input (byte take)

def shortInput : IoError := ⟨.unexpectedEof, "short CBOR input"⟩

instance : Input (StateT Cursor (Except IoError)) where
  byte := nextByte shortInput
  take bits := nextBytes bits (invalidData "CBOR length overflow") shortInput

variable {M : Type → Type} [Monad M] [MonadExceptOf IoError M] [Input M] (bits : ℕ)

def bigEndian (width : ℕ) : M UInt64 := do
  let bytes ← take bits width
  return UInt64.ofNat (ofBe bytes)

def argument (additional : ℕ) : M UInt64 :=
  if additional ≤ 23 then return UInt64.ofNat additional
  else if additional = 24 then do
    let value ← byte
    return UInt64.ofNat value.toNat
  else if additional = 25 then bigEndian bits 2
  else if additional = 26 then bigEndian bits 4
  else if additional = 27 then bigEndian bits 8
  else if additional = 31 then throw (invalidData "indefinite-length CBOR is not supported")
  else throw (invalidData "invalid CBOR additional information")

def length (additional : ℕ) : M ℕ := do
  let value ← argument bits additional
  if value.toNat < 2 ^ bits then return value.toNat
  else throw (invalidData "CBOR length is too large")

def integer (additional : ℕ) : M Value := do
  let raw ← argument bits additional
  let value : ℤ := -1 - raw.toNat
  if value < -2 ^ 63 then throw (invalidData "CBOR negative integer is out of range")
  else return .integer (Int64.ofInt value)

def text (additional : ℕ) : M Value := do
  let len ← length bits additional
  let bytes ← take bits len
  match String.fromUTF8? ⟨bytes.toArray⟩ with
  | none => throw (invalidData "invalid UTF-8 in CBOR text")
  | some value => return .text value

def array (additional : ℕ) (item : M Value) : M Value := do
  let len ← length bits additional
  if maxPlainPayload < len then throw (invalidData "CBOR array is too large")
  else
    let values ← times item len
    return .array values

def entry (item : M Value) : M (String × Value) := do
  match ← item with
  | .text key =>
    let value ← item
    return (key, value)
  | _ => throw (invalidData "CBOR map key must be text")

def map (additional : ℕ) (item : M Value) : M Value := do
  let len ← length bits additional
  if maxPlainPayload < len then throw (invalidData "CBOR map is too large")
  else
    let entries ← times (entry item) len
    return .map entries

def simple (additional : ℕ) : M Value :=
  if additional = 20 then return .bool false
  else if additional = 21 then return .bool true
  else if additional = 22 then return .null
  else if additional = 26 then do
    let bytes ← take bits 4
    return .float (UInt64.ofNat (widen (ofBe bytes)))
  else if additional = 27 then do
    let bytes ← take bits 8
    return .float (UInt64.ofNat (ofBe bytes))
  else throw (invalidData "unsupported CBOR simple value")

def valueOf (major additional : ℕ) (item : M Value) : M Value :=
  if major = 0 then do
    let value ← argument bits additional
    return .unsigned value
  else if major = 1 then integer bits additional
  else if major = 2 then do
    let len ← length bits additional
    let bytes ← take bits len
    return .bytes bytes
  else if major = 3 then text bits additional
  else if major = 4 then array bits additional item
  else if major = 5 then map bits additional item
  else if major = 7 then simple bits additional
  else throw (invalidData "unsupported CBOR major type")

/-- `CborDecoder::value(depth)`, with `65 - depth` levels left. -/
def value : ℕ → M Value
  | 0 => throw (invalidData "CBOR nesting is too deep")
  | levels + 1 => do
    let initial ← byte
    valueOf bits (initial.toNat / 32) (initial.toNat % 32) (value levels)

abbrev Decoder (α : Type) := Reader IoError α

def decodeCbor (input : Bytes) : Except IoError Value := do
  let (value, cursor) ← (value bits 65 : Decoder Value).run ⟨input, 0⟩
  if cursor.pos ≠ input.length then throw (invalidData "trailing CBOR data")
  else return value

end Decoding

end Mst5Client.CborValues
