import Mst5Client.CborRoundTrip
import Mst5Client.JsonValues
import Mst5Client.OutboxJson

set_option autoImplicit false

/-!
# Session documents

The values that `SessionStorage` of `src/messenger.rs` keeps, the checks on them, and their JSON
forms.
-/
namespace Mst5Client.SessionDocuments
open ByteOrder IoResult IdentityMessages JsonText JsonRoundTrip
open AccountClient (isControl)
open JsonValues (Ascending collect collect_ascending ascending_collect)
open OutboxJson (asString asUnsigned asUnsigned_of_lt structured required required_eq)

def sessionVersion : UInt8 := 1
def maxSessionBytes : ℕ := 1024 * 1024
def maxSessionKeyChars : ℕ := 256
def maxSessionValueBytes : ℕ := 256 * 1024

/-- A `BTreeMap<String, String>`. -/
structure SessionMap where
  entries : List (String × String)
  ascending : Ascending entries

def SessionMap.empty : SessionMap := ⟨[], .nil⟩

structure SessionDocument where
  version : UInt8
  values : SessionMap

/-- The path is the same for all objects of one root. -/
structure SessionStorage where
  values : SessionMap
  existing : Bool

def validateSessionEntry (entry : String × String) : Except IoError Unit :=
  if entry.1 = "" ∨ maxSessionKeyChars < entry.1.length ∨ entry.1.toList.any isControl then
    .error (invalidInput "invalid messenger session key")
  else if maxSessionValueBytes < entry.2.utf8ByteSize ∨ Char.ofNat 0 ∈ entry.2.toList then
    .error (invalidInput "invalid messenger session value")
  else .ok ()

def validateSessionValues (values : SessionMap) : Except IoError Unit :=
  values.entries.forM validateSessionEntry

def valuesValue (values : SessionMap) : Json :=
  .object (values.entries.map fun entry => (entry.1, .string entry.2))

def documentValue (document : SessionDocument) : Json :=
  .object [("version", .number document.version.toNat), ("values", valuesValue document.values)]

def snapshotValue (self : SessionStorage) : Json :=
  .object [("exists", .bool self.existing), ("values", valuesValue self.values),
    ("version", .number sessionVersion.toNat)]

/-- `serde_json` on these values. -/
structure SessionSerde where
  parseValues : String → Except String SessionMap
  encode : SessionDocument → Except String Bytes
  decode : Bytes → Except String SessionDocument
  render : Json → Except String String
  parse : String → Except String Json
  document_round_trip : ∀ document, ∃ bytes, encode document = .ok bytes ∧ decode bytes = .ok document
  snapshot_round_trip : ∀ self, ∃ text, render (snapshotValue self) = .ok text ∧
    parse text = .ok (snapshotValue self)

def readEntry (member : String × Json) : Except String (String × String) := do
  return (member.1, ← asString member.2)

def readValues : Json → Except String SessionMap
  | .object members => do
    let entries ← members.mapM readEntry
    return ⟨collect entries, ascending_collect entries⟩
  | _ => .error "invalid type: expected a map"

def readDocument (v : Json) : Except String SessionDocument := do
  structured "SessionDocument" 2 v
  let version ← required v "version" 0 (asUnsigned 8)
  let values ← required v "values" 1 readValues
  return ⟨UInt8.ofNat version, values⟩

theorem readValues_valuesValue (values : SessionMap) :
    readValues (valuesValue values) = .ok values := by
  have hentries : ∀ entries : List (String × String),
      (entries.map fun entry => (entry.1, Json.string entry.2)).mapM readEntry = .ok entries := by
    intro entries
    induction entries with
    | nil => rfl
    | cons entry entries ih =>
      rw [List.map_cons, List.mapM_cons, ih]
      rfl
  obtain ⟨entries, hascending⟩ := values
  rw [valuesValue, readValues, hentries entries]
  change Except.ok (SessionMap.mk (collect entries) _) = _
  congr 2
  exact collect_ascending hascending

theorem readDocument_documentValue (document : SessionDocument) :
    readDocument (documentValue document) = .ok document := by
  rw [documentValue, readDocument, structured, required_eq rfl, required_eq rfl,
    asUnsigned_of_lt document.version.toNat_lt, readValues_valuesValue]
  change Except.ok (SessionDocument.mk (UInt8.ofNat _) _) = _
  rw [UInt8.ofNat_toNat]

theorem depth_valuesValue (values : SessionMap) : depth (valuesValue values) ≤ 1 := by
  have hentries : ∀ entries : List (String × String),
      depthMembers (entries.map fun entry => (entry.1, Json.string entry.2)) = 0 := by
    intro entries
    induction entries with
    | nil => rfl
    | cons entry entries ih => simp [depthMembers, depth, ih]
  rw [valuesValue, depth, hentries]

def readWith {α : Type} (read : Json → Except String α) (text : String) : Except String α :=
  match parse text with
  | none => .error "invalid JSON"
  | some value => read value

theorem readWith_print {α : Type} (read : Json → Except String α) {value : Json}
    (h : depth value < 128) : readWith read (String.ofList (print value)) = read value := by
  rw [readWith, parse_print value h]

def sessionSerde : SessionSerde where
  parseValues := readWith readValues
  encode document := .ok (utf8 (String.ofList (print (documentValue document))))
  decode bytes :=
    match String.fromUTF8? ⟨bytes.toArray⟩ with
    | none => .error "invalid unicode code point"
    | some text => readWith readDocument text
  render value := .ok (String.ofList (print value))
  parse := readWith .ok
  document_round_trip document := by
    refine ⟨_, rfl, ?_⟩
    have hvalues := depth_valuesValue document.values
    rw [CborRoundTrip.fromUtf8_utf8]
    change readWith readDocument _ = _
    rw [readWith_print readDocument (by simp only [documentValue, depth, depthMembers]; omega),
      readDocument_documentValue]
  snapshot_round_trip self := by
    have hvalues := depth_valuesValue self.values
    exact ⟨_, rfl, readWith_print .ok (by simp only [snapshotValue, depth, depthMembers]; omega)⟩

end Mst5Client.SessionDocuments
