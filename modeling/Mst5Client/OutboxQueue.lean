import Mst5Client.AccountClient
import Mst5Client.FirstMatch
import Mst5Client.MachineRuns

set_option autoImplicit false

/-!
# The persistent send queue

`Outbox` of `src/outbox.rs`. The clock that `mark_failed` reads comes with the call; the JSON text
is that of `serde_json`.
-/
namespace Mst5Client.OutboxQueue
open IoResult AccountClient FirstMatch

inductive DeliveryState where
  | queued
  | sending
  | delivered
  | failed
deriving DecidableEq, Repr

structure QueueItem where
  id : String
  payload : String
  state : DeliveryState
  attempts : UInt32
  nextAttemptAtMs : UInt64
  progressPercent : UInt8
  error : Option String
deriving DecidableEq, Repr

def QueueItem.new (id payload : String) : Except IoError QueueItem :=
  if trim id = "" ∨ 256 < id.utf8ByteSize ∨ id.toList.any isControl then
    .error (invalidInput "queue item id is invalid")
  else .ok ⟨id, payload, .queued, 0, 0, 0, none⟩

structure RetryPolicy where
  maxAttempts : UInt32
  initialDelayMs : UInt64
  maxDelayMs : UInt64
deriving DecidableEq

def RetryPolicy.default : RetryPolicy := ⟨8, 1000, 5 * 60 * 1000⟩

structure Outbox where
  items : List QueueItem
deriving DecidableEq

def Outbox.default : Outbox := ⟨[]⟩

def saturatingAdd32 (a b : UInt32) : UInt32 := UInt32.ofNat (min (a.toNat + b.toNat) (2 ^ 32 - 1))

def saturatingAdd (a b : UInt64) : UInt64 := UInt64.ofNat (min (a.toNat + b.toNat) (2 ^ 64 - 1))

def saturatingMul (a b : UInt64) : UInt64 := UInt64.ofNat (min (a.toNat * b.toNat) (2 ^ 64 - 1))

theorem toNat_saturatingAdd32 (a b : UInt32) :
    (saturatingAdd32 a b).toNat = min (a.toNat + b.toNat) (2 ^ 32 - 1) :=
  UInt32.toNat_ofNat_of_lt' (by simp only [UInt32.size]; omega)

theorem toNat_saturatingAdd (a b : UInt64) :
    (saturatingAdd a b).toNat = min (a.toNat + b.toNat) (2 ^ 64 - 1) :=
  UInt64.toNat_ofNat_of_lt' (by simp only [UInt64.size]; omega)

theorem toNat_saturatingMul (a b : UInt64) :
    (saturatingMul a b).toNat = min (a.toNat * b.toNat) (2 ^ 64 - 1) :=
  UInt64.toNat_ofNat_of_lt' (by simp only [UInt64.size]; omega)

section Items
variable (item : QueueItem)

def QueueItem.ready (nowMs : UInt64) : Bool := item.state = .queued ∧ item.nextAttemptAtMs ≤ nowMs

def QueueItem.claim : QueueItem :=
  { item with state := .sending, progressPercent := min item.progressPercent 99, error := none }

def QueueItem.deliver : QueueItem :=
  { item with state := .delivered, progressPercent := 100, error := none }

def exponent (attempts : UInt32) : UInt32 :=
  let previous := if attempts = 0 then 0 else attempts - 1 -- `saturating_sub(1)`
  min previous 31

def RetryPolicy.delay (policy : RetryPolicy) (attempts : UInt32) : UInt64 :=
  min (saturatingMul policy.initialDelayMs (1 <<< (exponent attempts).toUInt64)) policy.maxDelayMs

def QueueItem.fail (error : String) (policy : RetryPolicy) (nowMs : UInt64) : QueueItem :=
  let attempts := saturatingAdd32 item.attempts 1
  let item := { item with attempts, error := some error }
  if policy.maxAttempts ≤ attempts then { item with state := .failed, nextAttemptAtMs := 0 }
  else { item with
    state := .queued
    nextAttemptAtMs := saturatingAdd nowMs (policy.delay attempts) }

def QueueItem.retry : QueueItem := { item with state := .queued, nextAttemptAtMs := 0, error := none }

def QueueItem.validate : Except IoError Unit :=
  if trim item.id = "" ∨ 256 < item.id.utf8ByteSize then
    .error (invalidInput "outbox contains invalid item id")
  else if 100 < item.progressPercent then .error (invalidInput "outbox contains invalid progress")
  else .ok ()

variable (q : Outbox)

def Outbox.enqueue (item : QueueItem) : Outbox × Except IoError Unit :=
  if q.items.any fun existing => existing.id = item.id then
    (q, .error ⟨.alreadyExists, "queue item already exists"⟩)
  else (⟨q.items ++ [item]⟩, .ok ())

def Outbox.claimReady (nowMs : UInt64) : Outbox × Option String :=
  match updateFirst (fun item => item.ready nowMs) (fun item => (item.claim, item.id)) q.items with
  | none => (q, none)
  | some (items, id) => (⟨items⟩, some id)

/-- The operations that address one id find the first item with it and return whether they did
something. -/
def Outbox.withItem (id : String) (f : QueueItem → QueueItem × Bool) : Outbox × Bool :=
  match updateFirst (fun item => item.id = id) f q.items with
  | none => (q, false)
  | some (items, answer) => (⟨items⟩, answer)

def Outbox.updateProgress (id : String) (percent : UInt8) : Outbox × Bool :=
  q.withItem id fun item =>
    if item.state ≠ .sending then (item, false)
    else ({ item with progressPercent := min percent 99 }, true)

def Outbox.markDelivered (id : String) : Outbox × Bool :=
  q.withItem id fun item => (item.deliver, true)

def Outbox.markFailed (id error : String) (policy : RetryPolicy) (nowMs : UInt64) : Outbox × Bool :=
  q.withItem id fun item => (item.fail error policy nowMs, true)

def Outbox.retryFailed (id : String) : Outbox × Bool :=
  q.withItem id fun item => if item.state ≠ .failed then (item, false) else (item.retry, true)

def Outbox.removeDelivered : Outbox := ⟨q.items.filter fun item => item.state ≠ .delivered⟩

def Outbox.validate : Except IoError Unit := q.items.forM QueueItem.validate

end Items

/-- `serde_json` on the derived representation of an outbox. -/
structure SerdeJson where
  toString : Outbox → Except String String
  fromStr : String → Except String Outbox
  round_trip : ∀ q, ∃ raw, toString q = .ok raw ∧ fromStr raw = .ok q

variable (json : SerdeJson)

def Outbox.fromJson (raw : String) : Except IoError Outbox :=
  match json.fromStr raw with
  | .error error => .error (invalidInput ("invalid outbox JSON: " ++ error))
  | .ok queue => queue.validate.map fun _ => queue

def Outbox.toJson (q : Outbox) : Except IoError String :=
  (json.toString q).mapError fun error => ⟨.other, "cannot encode outbox: " ++ error⟩

inductive Op where
  | enqueue (item : QueueItem)
  | claimReady (nowMs : UInt64)
  | updateProgress (id : String) (percent : UInt8)
  | markDelivered (id : String)
  | markFailed (id error : String) (policy : RetryPolicy) (nowMs : UInt64)
  | retryFailed (id : String)
  | removeDelivered
  /-- `from_json` of the text that `to_json` gives. -/
  | reload
deriving DecidableEq

inductive Answer where
  | result (r : Except IoError Unit)
  | claimed (id : Option String)
  | changed (b : Bool)
  | unit

def Outbox.reload (json : SerdeJson) (q : Outbox) : Outbox × Except IoError Unit :=
  match (q.toJson json).bind (Outbox.fromJson json) with
  | .error e => (q, .error e)
  | .ok restored => (restored, .ok ())

def step (json : SerdeJson) (q : Outbox) : Op → Outbox × Answer
  | .enqueue item => (q.enqueue item).map id .result
  | .claimReady nowMs => (q.claimReady nowMs).map id .claimed
  | .updateProgress i percent => (q.updateProgress i percent).map id .changed
  | .markDelivered i => (q.markDelivered i).map id .changed
  | .markFailed i error policy nowMs => (q.markFailed i error policy nowMs).map id .changed
  | .retryFailed i => (q.retryFailed i).map id .changed
  | .removeDelivered => (q.removeDelivered, .unit)
  | .reload => (q.reload json).map id .result

end Mst5Client.OutboxQueue
