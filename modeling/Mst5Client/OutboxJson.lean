import Mst5Client.JsonRoundTrip
import Mst5Client.OutboxQueue

set_option autoImplicit false

/-!
# The JSON form of the outbox

The representation that `Serialize` and `Deserialize` derive for `Outbox` and `QueueItem`: objects
with the fields in their order.
-/
namespace Mst5Client.OutboxJson
open JsonText JsonRoundTrip OutboxQueue

def stateName : DeliveryState → String
  | .queued => "queued"
  | .sending => "sending"
  | .delivered => "delivered"
  | .failed => "failed"

def itemValue (item : QueueItem) : Json :=
  .object [("id", .string item.id), ("payload", .string item.payload),
    ("state", .string (stateName item.state)), ("attempts", .number item.attempts.toNat),
    ("next_attempt_at_ms", .number item.nextAttemptAtMs.toNat),
    ("progress_percent", .number item.progressPercent.toNat),
    ("error", (item.error.map Json.string).getD .null)]

def outboxValue (q : Outbox) : Json := .object [("items", .array (q.items.map itemValue))]

def asString : Json → Except String String
  | .string s => .ok s
  | _ => .error "invalid type: expected a string"

def stateOf : String → Except String DeliveryState
  | "queued" => .ok .queued
  | "sending" => .ok .sending
  | "delivered" => .ok .delivered
  | "failed" => .ok .failed
  | _ => .error "unknown variant"

/-- A unit variant is its name, or an object of its name and `null`. -/
def asState : Json → Except String DeliveryState
  | .string name => stateOf name
  | .object [(name, .null)] => stateOf name
  | _ => .error "invalid type: expected a variant"

def asUnsigned (bits : ℕ) : Json → Except String ℕ
  | .number n => if 0 ≤ n ∧ n < 2 ^ bits then .ok n.toNat else .error "invalid value: integer"
  | _ => .error "invalid type: expected an integer"

def asError : Json → Except String (Option String)
  | .null => .ok none
  | .string s => .ok (some s)
  | _ => .error "invalid type: expected a string"

def structured (name : String) (fields : ℕ) : Json → Except String Unit
  | .object _ => .ok ()
  | .array values => if fields < values.length then .error "trailing characters" else .ok ()
  | _ => .error ("invalid type: expected struct " ++ name)

/-- A field of a struct: by its name in an object, by its position in an array. -/
def field (key : String) (position : ℕ) : Json → Except String (Option Json)
  | .object members =>
    match members.filter fun m => m.1 = key with
    | [] => .ok none
    | [m] => .ok (some m.2)
    | _ => .error ("duplicate field " ++ key)
  | .array values => .ok values[position]?
  | _ => .ok none

def required {α : Type} (v : Json) (key : String) (position : ℕ) (read : Json → Except String α) :
    Except String α := do
  match ← field key position v with
  | none => .error ("missing field " ++ key)
  | some v => read v

def optional {α : Type} (v : Json) (key : String) (position : ℕ) (read : Json → Except String α)
    (default : α) : Except String α := do
  match ← field key position v with
  | none => .ok default
  | some v => read v

def readItem (v : Json) : Except String QueueItem := do
  structured "QueueItem" 7 v
  let id ← required v "id" 0 asString
  let payload ← required v "payload" 1 asString
  let state ← optional v "state" 2 asState .queued
  let attempts ← optional v "attempts" 3 (asUnsigned 32) 0
  let nextAttemptAtMs ← optional v "next_attempt_at_ms" 4 (asUnsigned 64) 0
  let progressPercent ← optional v "progress_percent" 5 (asUnsigned 8) 0
  let error ← optional v "error" 6 asError none
  return ⟨id, payload, state, UInt32.ofNat attempts, UInt64.ofNat nextAttemptAtMs,
    UInt8.ofNat progressPercent, error⟩

def readItems : Json → Except String (List QueueItem)
  | .array values => values.mapM readItem
  | _ => .error "invalid type: expected a sequence"

def readOutbox (v : Json) : Except String Outbox := do
  structured "Outbox" 1 v
  let items ← optional v "items" 0 readItems []
  return ⟨items⟩

theorem asState_stateName (s : DeliveryState) : asState (.string (stateName s)) = .ok s := by
  cases s <;> rfl

theorem asUnsigned_of_lt {bits n : ℕ} (h : n < 2 ^ bits) : asUnsigned bits (.number n) = .ok n := by
  have hn : (0 : ℤ) ≤ n ∧ (n : ℤ) < 2 ^ bits := ⟨Int.natCast_nonneg n, by exact_mod_cast h⟩
  rw [asUnsigned, if_pos hn, Int.toNat_natCast]

theorem asError_map (e : Option String) : asError ((e.map Json.string).getD .null) = .ok e := by
  cases e <;> rfl

theorem required_eq {α : Type} {v w : Json} {key : String} {position : ℕ}
    (h : field key position v = .ok (some w)) (read : Json → Except String α) :
    required v key position read = read w := by
  rw [required, h]
  rfl

theorem optional_eq {α : Type} {v w : Json} {key : String} {position : ℕ}
    (h : field key position v = .ok (some w)) (read : Json → Except String α) (default : α) :
    optional v key position read default = read w := by
  rw [optional, h]
  rfl

theorem readItem_itemValue (item : QueueItem) : readItem (itemValue item) = .ok item := by
  rw [itemValue, readItem, structured, required_eq rfl, required_eq rfl, optional_eq rfl,
    optional_eq rfl, optional_eq rfl, optional_eq rfl, optional_eq rfl, asState_stateName,
    asUnsigned_of_lt item.attempts.toNat_lt,
    asUnsigned_of_lt item.nextAttemptAtMs.toNat_lt, asUnsigned_of_lt item.progressPercent.toNat_lt,
    asError_map]
  change Except.ok (QueueItem.mk _ _ _ (UInt32.ofNat _) (UInt64.ofNat _) (UInt8.ofNat _) _) = _
  rw [UInt32.ofNat_toNat, UInt64.ofNat_toNat, UInt8.ofNat_toNat]

theorem readItems_map (items : List QueueItem) :
    (items.map itemValue).mapM readItem = .ok items := by
  induction items with
  | nil => rfl
  | cons item items ih =>
    rw [List.map_cons, List.mapM_cons, readItem_itemValue, ih]
    rfl

theorem readOutbox_outboxValue (q : Outbox) : readOutbox (outboxValue q) = .ok q := by
  rw [outboxValue, readOutbox, structured, optional_eq rfl, readItems, readItems_map]
  rfl

theorem depthAll_items (items : List QueueItem) : depthAll (items.map itemValue) ≤ 1 := by
  induction items with
  | nil => exact Nat.zero_le _
  | cons item items ih =>
    have hitem : depth (itemValue item) = 1 := by
      cases h : item.error <;> simp [itemValue, depth, depthMembers, h]
    rw [List.map_cons, depthAll, hitem]
    omega

theorem depth_outboxValue (q : Outbox) : depth (outboxValue q) < 128 := by
  have hitems := depthAll_items q.items
  simp only [outboxValue, depth, depthMembers]
  omega

def serdeJson : SerdeJson where
  toString q := .ok (String.ofList (print (outboxValue q)))
  fromStr raw :=
    match parse raw with
    | none => .error "invalid JSON"
    | some v => readOutbox v
  round_trip q := by
    refine ⟨_, rfl, ?_⟩
    rw [parse_print _ (depth_outboxValue q)]
    exact readOutbox_outboxValue q

end Mst5Client.OutboxJson
