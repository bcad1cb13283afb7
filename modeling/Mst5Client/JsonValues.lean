import Mst5Client.IdentityMessages

set_option autoImplicit false

/-!
# JSON values

The values of `serde_json`. A number is a `u64`, a negative `i64` or a finite `f64`, which stands
here as its bit pattern.
-/
namespace Mst5Client.JsonValues
open IdentityMessages

def IsFinite (bits : UInt64) : Prop := bits.toNat / 2 ^ 52 % 2 ^ 11 ≠ 2 ^ 11 - 1

instance (bits : UInt64) : Decidable (IsFinite bits) :=
  inferInstanceAs (Decidable (bits.toNat / 2 ^ 52 % 2 ^ 11 ≠ 2 ^ 11 - 1))

inductive JsonNumber where
  | posInt (value : UInt64)
  | negInt (value : Int64) (negative : value.toInt < 0)
  | float (bits : UInt64) (finite : IsFinite bits)

namespace JsonNumber

def asU64 : JsonNumber → Option UInt64
  | .posInt value => some value
  | _ => none

def asI64 : JsonNumber → Option Int64
  | .posInt value => if value.toNat ≤ 2 ^ 63 - 1 then some value.toInt64 else none
  | .negInt value _ => some value
  | .float _ _ => none

def asF64 (nearest : ℤ → UInt64) : JsonNumber → Option UInt64
  | .posInt value => some (nearest value.toNat)
  | .negInt value _ => some (nearest value.toInt)
  | .float bits _ => some bits

def ofI64 (value : Int64) : JsonNumber :=
  if h : value.toInt < 0 then .negInt value h else .posInt value.toUInt64

def fromF64 (bits : UInt64) : Option JsonNumber :=
  if h : IsFinite bits then some (.float bits h) else none

end JsonNumber

inductive Json where
  | null
  | bool (value : Bool)
  | number (value : JsonNumber)
  | string (value : String)
  | array (values : List Json)
  | object (members : List (String × Json))

section Objects
variable {V : Type}
variable {a b : String} {members : List (String × V)} {key : String}

/-- Strings are compared by their bytes. -/
def KeyLt (a b : String) : Prop := utf8 a < utf8 b

instance (a b : String) : Decidable (KeyLt a b) := inferInstanceAs (Decidable (utf8 a < utf8 b))

def Ascending (members : List (String × V)) : Prop :=
  members.Pairwise fun a b => KeyLt a.1 b.1

def insertMember (key : String) (value : V) : List (String × V) → List (String × V)
  | [] => [(key, value)]
  | (k, v) :: members =>
    if key = k then (k, value) :: members
    else if KeyLt key k then (key, value) :: (k, v) :: members
    else (k, v) :: insertMember key value members

def collect (entries : List (String × V)) : List (String × V) :=
  entries.foldl (fun members entry => insertMember entry.1 entry.2 members) []

theorem KeyLt.ne (h : KeyLt a b) : b ≠ a := by
  rintro rfl
  exact List.lt_irrefl _ h

theorem KeyLt.asymm (h : KeyLt a b) : ¬ KeyLt b a := List.lt_asymm h

theorem KeyLt.trans {c : String} (h : KeyLt a b) (h' : KeyLt b c) : KeyLt a c := List.lt_trans h h'

theorem KeyLt.of_not (hne : a ≠ b) (h : ¬ KeyLt a b) : KeyLt b a :=
  Std.lt_of_le_of_ne h fun heq => hne (utf8_injective heq.symm)

theorem insertMember_last (value : V) (h : ∀ m ∈ members, KeyLt m.1 key) :
    insertMember key value members = members ++ [(key, value)] := by
  induction members with
  | nil => rfl
  | cons m members ih =>
    rw [List.forall_mem_cons] at h
    rw [insertMember, if_neg h.1.ne, if_neg h.1.asymm, ih h.2]
    rfl

theorem collect_ascending (h : Ascending members) : collect members = members := by
  induction members using List.reverseRecOn with
  | nil => rfl
  | append_singleton members m ih =>
    obtain ⟨hmembers, -, hlast⟩ := List.pairwise_append.mp h
    unfold collect at *
    rw [List.foldl_append, ih hmembers]
    exact insertMember_last m.2 fun a ha => hlast a ha m (List.mem_singleton_self m)

theorem lookup_cons_ite (m : String × V) (members : List (String × V)) (x : String) :
    (m :: members).lookup x = if x = m.1 then some m.2 else members.lookup x := by
  rw [List.lookup_cons]
  by_cases hx : x = m.1
  · rw [if_pos hx, beq_iff_eq.mpr hx]
  · rw [if_neg hx, beq_eq_false_iff_ne.mpr hx]

theorem lookup_insertMember (key : String) (value : V) (members : List (String × V)) (x : String) :
    (insertMember key value members).lookup x = if x = key then some value else members.lookup x := by
  induction members with
  | nil => exact lookup_cons_ite (key, value) [] x
  | cons first members ih =>
    rw [insertMember]
    by_cases heq : key = first.1
    · rw [if_pos heq, lookup_cons_ite, lookup_cons_ite, ← heq]
      split_ifs <;> rfl
    · by_cases hlt : KeyLt key first.1
      · rw [if_neg heq, if_pos hlt]
        exact lookup_cons_ite (key, value) (first :: members) x
      · rw [if_neg heq, if_neg hlt, lookup_cons_ite, ih, lookup_cons_ite]
        split_ifs with hfirst hkey
        · exact absurd (hkey.symm.trans hfirst) heq
        · rfl
        · rfl
        · rfl

theorem keys_insertMember (value : V) (h : key ∉ members.map Prod.fst) :
    ((insertMember key value members).map Prod.fst).Perm (key :: members.map Prod.fst) := by
  induction members with
  | nil => exact .refl _
  | cons first members ih =>
    rw [List.map_cons, List.mem_cons, not_or] at h
    rw [insertMember, if_neg h.1]
    split_ifs
    · exact .refl _
    · exact ((ih h.2).cons first.1).trans (.swap _ _ _)

theorem mem_insertMember {value : V} {m : String × V} (h : m ∈ insertMember key value members) :
    m.1 = key ∨ m ∈ members := by
  induction members with
  | nil =>
    cases List.mem_singleton.mp h
    exact .inl rfl
  | cons first members ih =>
    rw [insertMember] at h
    split_ifs at h with heq hlt
    · obtain rfl | h := List.mem_cons.mp h
      · exact .inl heq.symm
      · exact .inr (List.mem_cons_of_mem _ h)
    · obtain rfl | h := List.mem_cons.mp h
      · exact .inl rfl
      · exact .inr h
    · obtain rfl | h := List.mem_cons.mp h
      · exact .inr List.mem_cons_self
      · exact (ih h).imp_right (List.mem_cons_of_mem _)

theorem Ascending.insertMember (h : Ascending members) (key : String) (value : V) :
    Ascending (insertMember key value members) := by
  induction members with
  | nil => exact List.pairwise_singleton _ _
  | cons first members ih =>
    obtain ⟨hfirst, hmembers⟩ := List.pairwise_cons.mp h
    rw [JsonValues.insertMember]
    split_ifs with heq hlt
    · exact List.pairwise_cons.mpr ⟨hfirst, hmembers⟩
    · refine List.pairwise_cons.mpr ⟨?_, h⟩
      intro m hm
      obtain rfl | hm := List.mem_cons.mp hm
      · exact hlt
      · exact hlt.trans (hfirst m hm)
    · refine List.pairwise_cons.mpr ⟨?_, ih hmembers⟩
      intro m hm
      obtain hkey | hm := mem_insertMember hm
      · rw [hkey]
        exact KeyLt.of_not heq hlt
      · exact hfirst m hm

theorem ascending_collect (entries : List (String × V)) : Ascending (collect entries) := by
  suffices h : ∀ members : List (String × V), Ascending members →
      Ascending (entries.foldl (fun members entry => insertMember entry.1 entry.2 members) members) from
    h [] .nil
  induction entries with
  | nil => exact fun _ h => h
  | cons entry entries ih => exact fun members h => ih _ (h.insertMember entry.1 entry.2)

end Objects

mutual
/-- Every object in the tree is a map. -/
def Maps : Json → Prop
  | .array values => AllMaps values
  | .object members => Ascending members ∧ MembersMaps members
  | _ => True

def AllMaps : List Json → Prop
  | [] => True
  | value :: values => Maps value ∧ AllMaps values

def MembersMaps : List (String × Json) → Prop
  | [] => True
  | (_, value) :: members => Maps value ∧ MembersMaps members
end

structure JsonValue where
  tree : Json
  maps : Maps tree

def Json.get (value : Json) (key : String) : Option Json :=
  match value with
  | .object members => members.lookup key
  | _ => none

def Json.asStr : Json → Option String
  | .string value => some value
  | _ => none

def Json.asU64 : Json → Option UInt64
  | .number value => value.asU64
  | _ => none

def Json.asObject : Json → Option (List (String × Json))
  | .object members => some members
  | _ => none

end Mst5Client.JsonValues
