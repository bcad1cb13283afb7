import Mst5Client.JsonCbor

set_option autoImplicit false

/-!
# Looking a key up in a decoded map

`Value::get` takes the first entry with a key, an object made by `cbor_to_json` has the last one,
and `CborDecoder` lets a key occur more than once.
-/
namespace Mst5Client.MapLookups
open ByteOrder CborValues CborRoundTrip JsonValues JsonCbor

section Entries
variable {V : Type} {key : String} {entries : List (String × V)}
variable {before after : List (String × V)}

/-- Of several entries with one key, these are the first and the last. -/
def Repeated (entries : List (String × V)) (first last : String × V) : Prop :=
  ∃ before between after, entries = before ++ first :: (between ++ last :: after) ∧ first.1 = last.1 ∧
    (∀ e ∈ before, e.1 ≠ first.1) ∧ ∀ e ∈ after, e.1 ≠ last.1

theorem find_first {first : String × V} (hbefore : ∀ e ∈ before, e.1 ≠ first.1) :
    (before ++ first :: after).find? (fun e => e.1 = first.1) = some first := by
  have hnone : before.find? (fun e => e.1 = first.1) = none := by
    rw [List.find?_eq_none]
    intro e he
    simpa using hbefore e he
  rw [List.find?_append, hnone, Option.none_or]
  exact List.find?_cons_of_pos (by simp)

theorem find_last {last : String × V} (hafter : ∀ e ∈ after, e.1 ≠ last.1) :
    (before ++ last :: after).reverse.find? (fun e => e.1 = last.1) = some last := by
  rw [List.reverse_append, List.reverse_cons, List.append_assoc]
  exact find_first fun e he => hafter e (List.mem_reverse.mp he)

theorem find_cases (key : String) (entries : List (String × V)) :
    entries.find? (fun e => e.1 = key) = entries.reverse.find? (fun e => e.1 = key) ∨
      ∃ first last, Repeated entries first last ∧ entries.find? (fun e => e.1 = key) = some first ∧
        entries.reverse.find? (fun e => e.1 = key) = some last := by
  cases hfirst : entries.find? (fun e => e.1 = key) with
  | none =>
    left
    symm
    rw [List.find?_eq_none] at hfirst ⊢
    intro e he
    exact hfirst e (List.mem_reverse.mp he)
  | some first =>
    obtain ⟨hkey, before, after, rfl, hbefore⟩ := List.find?_eq_some_iff_append.mp hfirst
    obtain rfl : first.1 = key := by simpa using hkey
    have hbefore : ∀ e ∈ before, e.1 ≠ first.1 := fun e he => by simpa using hbefore e he
    cases hlast : after.reverse.find? (fun e => e.1 = first.1) with
    | none =>
      left
      refine (find_last ?_).symm
      intro e he
      simpa using List.find?_eq_none.mp hlast e (List.mem_reverse.mpr he)
    | some last =>
      right
      obtain ⟨hsame, rest, between, hafter, hrest⟩ := List.find?_eq_some_iff_append.mp hlast
      have hsame : last.1 = first.1 := by simpa using hsame
      have hsplit : after = between.reverse ++ last :: rest.reverse := by
        rw [← List.reverse_reverse after, hafter, List.reverse_append, List.reverse_cons,
          List.append_assoc]
        rfl
      refine ⟨first, last, ⟨before, between.reverse, rest.reverse, by rw [hsplit], hsame.symm,
        hbefore, ?_⟩, rfl, ?_⟩
      · intro e he
        rw [hsame]
        simpa using hrest e (List.mem_reverse.mp he)
      · rw [List.reverse_append, List.reverse_cons, List.append_assoc, List.find?_append, hlast,
          Option.some_or]

theorem Repeated.finds {first last : String × V} (h : Repeated entries first last) :
    entries.find? (fun e => e.1 = first.1) = some first ∧
      entries.reverse.find? (fun e => e.1 = first.1) = some last := by
  obtain ⟨before, between, after, rfl, hsame, hbefore, hafter⟩ := h
  refine ⟨find_first hbefore, ?_⟩
  rw [hsame, ← List.cons_append, ← List.append_assoc]
  exact find_last hafter

theorem lookup_collect (entries : List (String × V)) (key : String) :
    (collect entries).lookup key = (entries.reverse.find? fun e => e.1 = key).map Prod.snd := by
  induction entries using List.reverseRecOn with
  | nil => rfl
  | append_singleton entries e ih =>
    have hcollect : collect (entries ++ [e]) = insertMember e.1 e.2 (collect entries) := by
      unfold collect
      rw [List.foldl_append]
      rfl
    rw [hcollect, lookup_insertMember, ih, List.reverse_append, List.reverse_singleton,
      List.singleton_append]
    by_cases hkey : key = e.1
    · rw [if_pos hkey, List.find?_cons_of_pos (by simp [hkey])]
      rfl
    · rw [if_neg hkey, List.find?_cons_of_neg (by simpa using Ne.symm hkey)]

end Entries

/-- `v` stands at some depth in a value. -/
inductive Node (v : Value) : Value → Prop
  | self : Node v v
  | element {values : List Value} {value : Value} (hmem : value ∈ values) (h : Node v value) :
      Node v (.array values)
  | entry {entries : List (String × Value)} {e : String × Value} (hmem : e ∈ entries) (h : Node v e.2) :
      Node v (.map entries)

theorem cborToJsonEntries_eq (entries : List (String × Value)) :
    cborToJsonEntries entries = entries.map fun e => (e.1, cborToJson e.2) := by
  induction entries with
  | nil => rfl
  | cons e entries ih =>
    rw [cborToJsonEntries, ih]
    rfl

variable (entries : List (String × Value)) (key : String)

theorem get_native : ((Value.map entries).get key).map cborToJson =
    (entries.find? fun e => e.1 = key).map fun e => cborToJson e.2 := by
  rw [Value.get, Option.map_map]
  rfl

theorem get_json : (cborToJson (.map entries)).get key =
    (entries.reverse.find? fun e => e.1 = key).map fun e => cborToJson e.2 := by
  rw [cborToJson, Json.get, lookup_collect, cborToJsonEntries_eq, ← List.map_reverse,
    List.find?_map, Option.map_map]
  rfl

/-- A decoded map is read alike natively and as JSON exactly when no key is repeated with another
value in the end than at first. -/
theorem lookups_agree_iff (bits : ℕ) (input : Bytes) :
    (∀ value, decodeCbor bits input = .ok value → ∀ entries, Node (.map entries) value → ∀ key,
      ((Value.map entries).get key).map cborToJson = (cborToJson (.map entries)).get key) ↔
    ∀ value, decodeCbor bits input = .ok value → ∀ entries, Node (.map entries) value → ∀ first last,
      Repeated entries first last → cborToJson first.2 = cborToJson last.2 := by
  refine forall₄_congr fun value hvalue entries hnode => ?_
  constructor
  · intro hagree first last hrepeated
    obtain ⟨hfirst, hlast⟩ := hrepeated.finds
    have hkey := hagree first.1
    rw [get_native, get_json, hfirst, hlast] at hkey
    exact Option.some.inj hkey
  · intro hsame key
    rw [get_native, get_json]
    obtain hequal | ⟨first, last, hrepeated, hfirst, hlast⟩ := find_cases key entries
    · rw [hequal]
    · rw [hfirst, hlast, Option.map_some, Option.map_some, hsame first last hrepeated]

def ambiguous : Value := .map [("a", .unsigned 1), ("a", .unsigned 2)]

theorem lookups_disagree :
    decodeCbor 64 [0xa2, 0x61, 0x61, 0x01, 0x61, 0x61, 0x02] = .ok ambiguous ∧
      (ambiguous.get "a").map cborToJson = some (.number (.posInt 1)) ∧
      (cborToJson ambiguous).get "a" = some (.number (.posInt 2)) := by
  have hwithin : Within 0 ambiguous := by simp [ambiguous, Within, EntriesWithin, maxPlainPayload]
  refine ⟨decode_encode (Nat.le_refl 64) hwithin (by decide +kernel), rfl, rfl⟩

end Mst5Client.MapLookups
