import Mst5Client.CborRoundTrip
import Mst5Client.JsonValues

set_option autoImplicit false

/-!
# JSON across the command boundary

`json_to_cbor` and `cbor_to_json` of `src/messenger.rs`.
-/
namespace Mst5Client.JsonCbor
open IoResult CborValues CborRoundTrip JsonValues

section Conversions
variable (nearest : ℤ → UInt64)

def jsonNumberToCbor (value : JsonNumber) : Except IoError Value :=
  match value.asU64 with
  | some value => .ok (.unsigned value)
  | none =>
    match value.asI64 with
    | some value => .ok (.integer value)
    | none =>
      match (value.asF64 nearest).filter IsFinite with
      | some bits => .ok (.float bits)
      | none => .error (invalidInput "messenger JSON contains a non-finite number")

mutual
def jsonToCbor : Json → Except IoError Value
  | .null => .ok .null
  | .bool value => .ok (.bool value)
  | .number value => jsonNumberToCbor nearest value
  | .string value => .ok (.text value)
  | .array values => do
    let values ← jsonToCborAll values
    return .array values
  | .object members => do
    let entries ← jsonToCborMembers members
    return .map entries

def jsonToCborAll : List Json → Except IoError (List Value)
  | [] => .ok []
  | value :: values => do
    let value ← jsonToCbor value
    let values ← jsonToCborAll values
    return value :: values

def jsonToCborMembers : List (String × Json) → Except IoError (List (String × Value))
  | [] => .ok []
  | (key, value) :: members => do
    let value ← jsonToCbor value
    let entries ← jsonToCborMembers members
    return (key, value) :: entries
end

mutual
def cborToJson : Value → Json
  | .null => .null
  | .bool value => .bool value
  | .unsigned value => .number (.posInt value)
  | .integer value => .number (.ofI64 value)
  | .float bits =>
    match JsonNumber.fromF64 bits with
    | some value => .number value
    | none => .null
  -- byte strings have always been shown as arrays of numbers
  | .bytes values => .array (values.map fun value => .number (.posInt (UInt64.ofNat value.toNat)))
  | .text value => .string value
  | .array values => .array (cborToJsonAll values)
  | .map entries => .object (collect (cborToJsonEntries entries))

def cborToJsonAll : List Value → List Json
  | [] => []
  | value :: values => cborToJson value :: cborToJsonAll values

def cborToJsonEntries : List (String × Value) → List (String × Json)
  | [] => []
  | (key, value) :: entries => (key, cborToJson value) :: cborToJsonEntries entries
end

end Conversions

mutual
/-- At this depth, no node is deeper than 64 and no container has more than 4 Mi entries. -/
def Bounded : ℕ → Json → Prop
  | depth, .array values => depth ≤ 64 ∧ values.length ≤ 4 * 1024 * 1024 ∧ AllBounded (depth + 1) values
  | depth, .object members => depth ≤ 64 ∧ members.length ≤ 4 * 1024 * 1024 ∧
    MembersBounded (depth + 1) members
  | depth, _ => depth ≤ 64

def AllBounded : ℕ → List Json → Prop
  | _, [] => True
  | depth, value :: values => Bounded depth value ∧ AllBounded depth values

def MembersBounded : ℕ → List (String × Json) → Prop
  | _, [] => True
  -- a key is a node of its own
  | depth, (_, value) :: members => depth ≤ 64 ∧ Bounded depth value ∧ MembersBounded depth members
end

variable (nearest : ℤ → UInt64)

/-- `v` is read back from CBOR as the JSON value `j`. -/
structure Returns (j : Json) (v : Value) : Prop where
  within : ∀ depth, Bounded depth j → Within depth v
  back : cborToJson (norm v) = j

structure AllReturn (js : List Json) (vs : List Value) : Prop where
  length : vs.length = js.length
  within : ∀ depth, AllBounded depth js → AllWithin depth vs
  back : cborToJsonAll (normAll vs) = js

structure MembersReturn (members : List (String × Json)) (entries : List (String × Value)) :
    Prop where
  length : entries.length = members.length
  within : ∀ depth, MembersBounded depth members → EntriesWithin depth entries
  back : cborToJsonEntries (normEntries entries) = members

theorem jsonNumberToCbor_returns (value : JsonNumber) :
    ∃ v, jsonNumberToCbor nearest value = .ok v ∧ Returns (.number value) v := by
  cases value with
  | posInt value => exact ⟨.unsigned value, rfl, fun _ h => h, rfl⟩
  | negInt value negative =>
    refine ⟨.integer value, rfl, fun _ h => h, ?_⟩
    rw [CborRoundTrip.norm, if_neg (Int.not_le.mpr negative), cborToJson, JsonNumber.ofI64,
      dif_pos negative]
  | float bits finite =>
    refine ⟨.float bits, ?_, fun _ h => h, ?_⟩
    · simp [jsonNumberToCbor, JsonNumber.asU64, JsonNumber.asI64, JsonNumber.asF64, Option.filter,
        finite]
    · simp [CborRoundTrip.norm, cborToJson, JsonNumber.fromF64, finite]

theorem Returns.array {js : List Json} {vs : List Value} (h : AllReturn js vs) :
    Returns (.array js) (.array vs) := by
  constructor
  · rintro depth ⟨hdepth, hlength, hall⟩
    exact ⟨hdepth, h.length ▸ hlength, h.within _ hall⟩
  · rw [CborRoundTrip.norm, cborToJson, h.back]

theorem Returns.object {members : List (String × Json)} {entries : List (String × Value)}
    (hmap : Ascending members) (h : MembersReturn members entries) :
    Returns (.object members) (.map entries) := by
  constructor
  · rintro depth ⟨hdepth, hlength, hall⟩
    exact ⟨hdepth, h.length ▸ hlength, h.within _ hall⟩
  · rw [CborRoundTrip.norm, cborToJson, h.back, collect_ascending hmap]

mutual
theorem jsonToCbor_returns : ∀ j : Json, Maps j → ∃ v, jsonToCbor nearest j = .ok v ∧ Returns j v
  | .null, _ => ⟨.null, rfl, fun _ h => h, rfl⟩
  | .bool value, _ => ⟨.bool value, rfl, fun _ h => h, rfl⟩
  | .number value, _ => jsonNumberToCbor_returns nearest value
  | .string value, _ => ⟨.text value, rfl, fun _ h => h, rfl⟩
  | .array js, hmaps => by
    obtain ⟨vs, hvs, hreturn⟩ := jsonToCborAll_returns js hmaps
    exact ⟨.array vs, bind_of_ok hvs _, .array hreturn⟩
  | .object members, hmaps => by
    obtain ⟨entries, hentries, hreturn⟩ := jsonToCborMembers_returns members hmaps.2
    exact ⟨.map entries, bind_of_ok hentries _, .object hmaps.1 hreturn⟩

theorem jsonToCborAll_returns : ∀ js : List Json, AllMaps js →
    ∃ vs, jsonToCborAll nearest js = .ok vs ∧ AllReturn js vs
  | [], _ => ⟨[], rfl, rfl, fun _ h => h, rfl⟩
  | j :: js, hmaps => by
    obtain ⟨v, hv, hreturn⟩ := jsonToCbor_returns j hmaps.1
    obtain ⟨vs, hvs, hreturns⟩ := jsonToCborAll_returns js hmaps.2
    refine ⟨v :: vs, ?_, ?_, ?_, ?_⟩
    · rw [jsonToCborAll, bind_of_ok hv, bind_of_ok hvs]
      rfl
    · rw [List.length_cons, List.length_cons, hreturns.length]
    · rintro depth ⟨hj, hjs⟩
      exact ⟨hreturn.within _ hj, hreturns.within _ hjs⟩
    · rw [normAll, cborToJsonAll, hreturn.back, hreturns.back]

theorem jsonToCborMembers_returns : ∀ members : List (String × Json), MembersMaps members →
    ∃ entries, jsonToCborMembers nearest members = .ok entries ∧ MembersReturn members entries
  | [], _ => ⟨[], rfl, rfl, fun _ h => h, rfl⟩
  | (key, j) :: members, hmaps => by
    obtain ⟨v, hv, hreturn⟩ := jsonToCbor_returns j hmaps.1
    obtain ⟨entries, hentries, hreturns⟩ := jsonToCborMembers_returns members hmaps.2
    refine ⟨(key, v) :: entries, ?_, ?_, ?_, ?_⟩
    · rw [jsonToCborMembers, bind_of_ok hv, bind_of_ok hentries]
      rfl
    · rw [List.length_cons, List.length_cons, hreturns.length]
    · rintro depth ⟨hkey, hj, hmembers⟩
      exact ⟨hkey, hreturn.within _ hj, hreturns.within _ hmembers⟩
    · rw [normEntries, cborToJsonEntries, hreturn.back, hreturns.back]
end

/-- JSON sent as CBOR and read back is the JSON that was sent. A `Vec` has fewer than `2 ^ bits`
bytes. -/
theorem json_survives (nearest : ℤ → UInt64) {bits : ℕ} (j : JsonValue) (hj : Bounded 0 j.tree)
    (hbits : bits ≤ 64)
    (hlen : ∀ v, jsonToCbor nearest j.tree = .ok v → (encodeCbor v).length < 2 ^ bits) :
    (do
      let sent ← jsonToCbor nearest j.tree
      let received ← decodeCbor bits (encodeCbor sent)
      return cborToJson received) = .ok j.tree := by
  obtain ⟨v, hv, hreturn⟩ := jsonToCbor_returns nearest j.tree j.maps
  have hdecode := decode_encode hbits (hreturn.within 0 hj) (hlen v hv)
  rw [bind_of_ok hv, bind_of_ok hdecode, hreturn.back]
  rfl

theorem minus_seven : (-7 : Int64).toInt < 0 := by decide

theorem minus_zero : IsFinite 0x8000000000000000 := by decide

def sampleTree : Json := .object [("a", .number (.negInt (-7) minus_seven)),
  ("b", .array [.number (.posInt 0xFFFFFFFFFFFFFFFF),
    .number (.float 0x8000000000000000 minus_zero), .null])]

theorem sampleTree_maps : Maps sampleTree := by
  refine ⟨?_, trivial, ⟨trivial, trivial, trivial, trivial⟩, trivial⟩
  unfold Ascending
  decide

def sampleJson : JsonValue := ⟨sampleTree, sampleTree_maps⟩

theorem json_survives_sample :
    (do
      let sent ← jsonToCbor (fun _ => 0) sampleJson.tree
      let received ← decodeCbor 64 (encodeCbor sent)
      return cborToJson received) = .ok sampleJson.tree := by
  apply json_survives (fun _ => 0) sampleJson _ (Nat.le_refl 64)
  · intro v hv
    cases hv
    decide +kernel
  · simp [sampleJson, sampleTree, Bounded, MembersBounded, AllBounded]

end Mst5Client.JsonCbor
