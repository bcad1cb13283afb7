import Mst5Client.OutboxDelivery

set_option autoImplicit false

/-!
# Bounded retries

With one policy throughout and no manual retry, an item is claimed at most `max_attempts` times:
each claim uses up one of the claims that its state and its failure count still allow.
-/
namespace Mst5Client.OutboxRetries
open FirstMatch MachineRuns OutboxQueue OutboxRuns OutboxDelivery OutboxJson

section Delays
variable (policy : RetryPolicy)

def delayAfter (n : ℕ) : ℕ :=
  min (min (policy.initialDelayMs.toNat * 2 ^ min (n - 1) 31) (2 ^ 64 - 1)) policy.maxDelayMs.toNat

theorem delayAfter_le (n : ℕ) : delayAfter policy n ≤ policy.maxDelayMs.toNat :=
  Nat.min_le_right _ _

theorem delayAfter_mono {m n : ℕ} (h : m ≤ n) : delayAfter policy m ≤ delayAfter policy n := by
  have hpow : 2 ^ min (m - 1) 31 ≤ 2 ^ min (n - 1) 31 := Nat.pow_le_pow_right (by omega) (by omega)
  have hmul := Nat.mul_le_mul_left policy.initialDelayMs.toNat hpow
  simp only [delayAfter]
  omega

theorem delayAfter_cap (n : ℕ) : delayAfter policy (min n (2 ^ 32 - 1)) = delayAfter policy n := by
  have hmin : min (min n (2 ^ 32 - 1) - 1) 31 = min (n - 1) 31 := by omega
  simp only [delayAfter, hmin]

theorem toNat_exponent (attempts : UInt32) :
    (exponent attempts).toNat = min (attempts.toNat - 1) 31 := by
  have hmin (a b : UInt32) : (min a b).toNat = min a.toNat b.toNat := by
    change (if a ≤ b then a else b).toNat = _
    rw [Nat.min_def, apply_ite UInt32.toNat]
    simp only [UInt32.le_iff_toNat_le]
  rw [exponent, hmin]
  by_cases hzero : attempts = 0
  · rw [if_pos hzero, hzero]
    rfl
  · rw [if_neg hzero]
    have hpos : (1 : UInt32) ≤ attempts := by
      have hne : attempts.toNat ≠ 0 := fun h => hzero (UInt32.toNat_inj.mp h)
      rw [UInt32.le_iff_toNat_le]
      exact Nat.pos_of_ne_zero hne
    rw [UInt32.toNat_sub_of_le _ _ hpos]
    rfl

theorem toNat_shift (attempts : UInt32) :
    ((1 : UInt64) <<< (exponent attempts).toUInt64).toNat = 2 ^ min (attempts.toNat - 1) 31 := by
  have hpow : 2 ^ min (attempts.toNat - 1) 31 ≤ 2 ^ 31 := Nat.pow_le_pow_right (by omega) (by omega)
  have hsmall : min (attempts.toNat - 1) 31 % 64 = min (attempts.toNat - 1) 31 :=
    Nat.mod_eq_of_lt (by omega)
  rw [UInt64.toNat_shiftLeft, UInt32.toNat_toUInt64, toNat_exponent, hsmall, Nat.shiftLeft_eq,
    UInt64.toNat_one, Nat.one_mul, Nat.mod_eq_of_lt (by omega)]

theorem toNat_delay (attempts : UInt32) :
    (policy.delay attempts).toNat = delayAfter policy attempts.toNat := by
  have hmin (a b : UInt64) : (min a b).toNat = min a.toNat b.toNat := by
    change (if a ≤ b then a else b).toNat = _
    rw [Nat.min_def, apply_ite UInt64.toNat]
    simp only [UInt64.le_iff_toNat_le]
  rw [RetryPolicy.delay, hmin, toNat_saturatingMul, toNat_shift, delayAfter]

end Delays

def claimedId : Answer → Option String
  | .claimed id => id
  | _ => none

def claims (id : String) (log : List (Outbox × Answer)) : ℕ :=
  log.countP fun r => claimedId r.2 = some id

def failures (id : String) (ops : List Op) : ℕ := ops.countP (failsWith id)

/-- The operation is no manual retry of the id, and reports its failures with this policy. -/
def Automatic (policy : RetryPolicy) (id : String) : Op → Prop
  | .retryFailed i => i ≠ id
  | .markFailed i _ p _ => i = id → p = policy
  | _ => True

def left (m : ℕ) (e : QueueItem) : ℕ :=
  if e.state = .queued then m - e.attempts.toNat else m - e.attempts.toNat - 1

def Budgeted (m : ℕ) (e : QueueItem) : Prop := e.state = .queued → e.attempts.toNat < m

section Budget
variable {policy : RetryPolicy} {op : Op} {answer : Answer} {e e' : QueueItem}

theorem fail_cases (e : QueueItem) (error : String) (policy : RetryPolicy) (nowMs : UInt64) :
    ((e.fail error policy nowMs).state = .failed ∧
      policy.maxAttempts.toNat ≤ (e.fail error policy nowMs).attempts.toNat) ∨
    ((e.fail error policy nowMs).state = .queued ∧
      (e.fail error policy nowMs).attempts.toNat < policy.maxAttempts.toNat ∧
      (e.fail error policy nowMs).nextAttemptAtMs =
        saturatingAdd nowMs (policy.delay (e.fail error policy nowMs).attempts)) := by
  simp only [QueueItem.fail]
  split_ifs with h
  · exact .inl ⟨rfl, UInt32.le_iff_toNat_le.mp h⟩
  · exact .inr ⟨rfl, Nat.lt_of_not_le fun hle => h (UInt32.le_iff_toNat_le.mpr hle), rfl⟩

theorem fail_attempts (e : QueueItem) (error : String) (policy : RetryPolicy) (nowMs : UInt64) :
    (e.fail error policy nowMs).attempts.toNat = min (e.attempts.toNat + 1) (2 ^ 32 - 1) := by
  have hadd := toNat_saturatingAdd32 e.attempts 1
  simp only [QueueItem.fail]
  split_ifs <;> exact hadd

theorem left_fail_le (e : QueueItem) (error : String) (policy : RetryPolicy) (nowMs : UInt64) :
    left policy.maxAttempts.toNat (e.fail error policy nowMs) ≤ left policy.maxAttempts.toNat e := by
  have hattempts := fail_attempts e error policy nowMs
  have hmax := policy.maxAttempts.toNat_lt
  obtain ⟨hstate, hexhausted⟩ | ⟨hstate, hless, -⟩ := fail_cases e error policy nowMs
  · rw [left, hstate, if_neg (by nofun)]
    omega
  · rw [left, hstate, if_pos rfl, left]
    -- below the bound the count has not saturated
    split_ifs <;> omega

theorem evolves_left (hop : Automatic policy e.id op) (h : Evolves op answer e e')
    (hbudget : Budgeted policy.maxAttempts.toNat e) : Budgeted policy.maxAttempts.toNat e' ∧
      (if claimedId answer = some e.id then 1 else 0) + left policy.maxAttempts.toNat e' ≤
        left policy.maxAttempts.toNat e := by
  cases h with
  | idle hclaim hfails =>
    have hnone : claimedId answer ≠ some e.id := by
      intro hid
      cases answer with
      | claimed id => exact hclaim (congrArg _ hid)
      | _ => cases hid
    rw [if_neg hnone, Nat.zero_add]
    exact ⟨hbudget, Nat.le_refl _⟩
  | touched htouch =>
    cases htouch with
    | claimed hready =>
      have hqueued : e.state = .queued := (of_decide_eq_true hready).1
      have hless := hbudget hqueued
      refine ⟨nofun, ?_⟩
      have hclaim : left policy.maxAttempts.toNat e.claim = policy.maxAttempts.toNat -
        e.attempts.toNat - 1 :=
        if_neg nofun
      rw [hclaim, left, if_pos hqueued,
        if_pos (show claimedId (.claimed (some e.id)) = some e.id from rfl)]
      omega
    | progressed percent hsending =>
      refine ⟨hbudget, ?_⟩
      rw [if_neg (by nofun), Nat.zero_add]
      exact Nat.le_refl _
    | delivered =>
      refine ⟨nofun, ?_⟩
      have hdeliver : left policy.maxAttempts.toNat e.deliver = policy.maxAttempts.toNat -
        e.attempts.toNat - 1 :=
        if_neg nofun
      rw [if_neg (by nofun), hdeliver, left]
      split_ifs <;> omega
    | failed error policy' nowMs =>
      have hpolicy : policy' = policy := hop rfl
      subst hpolicy
      refine ⟨?_, ?_⟩
      · obtain ⟨hstate, -⟩ | ⟨-, hless, -⟩ := fail_cases e error policy' nowMs
        · intro hqueued
          cases hstate.symm.trans hqueued
        · exact fun _ => hless
      · rw [if_neg (by nofun), Nat.zero_add]
        exact left_fail_le e error policy' nowMs
    | retried hfailed => exact absurd rfl hop

theorem evolves_attempts {n : ℕ} (h : Evolves op answer e e')
    (hattempts : e.attempts.toNat = min n (2 ^ 32 - 1)) :
    e'.attempts.toNat = min (n + if failsWith e.id op = true then 1 else 0) (2 ^ 32 - 1) := by
  cases h with
  | idle hclaim hfails =>
    rw [hfails, if_neg (by nofun), Nat.add_zero]
    exact hattempts
  | touched htouch =>
    cases htouch with
    | failed error policy nowMs =>
      have hfails : failsWith e.id (.markFailed e.id error policy nowMs) = true := decide_eq_true rfl
      rw [fail_attempts, hfails, if_pos rfl]
      omega
    | _ => exact hattempts

variable (json : SerdeJson) {q : Outbox} {id : String} {ops : List Op}

theorem claims_le_left (h : Holds q id e) (hbudget : Budgeted policy.maxAttempts.toNat e)
    (hops : ∀ op ∈ ops, Automatic policy id op)
    (hkept : Along (step json) (fun q op => ¬ Removes id q op) q ops) :
    claims id (trace (step json) q ops) ≤ left policy.maxAttempts.toNat e := by
  induction ops generalizing q e with
  | nil => exact Nat.zero_le _
  | cons op ops ih =>
    obtain ⟨hmem, rfl⟩ := h.mem
    obtain ⟨e', he', hevolves⟩ := (step_spec json q op).holds h hkept.1
    obtain ⟨hbudget', hleft⟩ := evolves_left (hops op List.mem_cons_self) hevolves hbudget
    have hrest := ih he' hbudget' (fun op h => hops op (List.mem_cons_of_mem _ h)) hkept.2
    rw [claims] at hrest ⊢
    rw [trace, List.countP_cons]
    simp only [decide_eq_true_eq]
    omega

theorem attempts_eq (n : ℕ) (h : Holds q id e) (hattempts : e.attempts.toNat = min n (2 ^ 32 - 1))
    (hkept : Along (step json) (fun q op => ¬ Removes id q op) q ops) :
    ∃ e', Holds (final (step json) q ops) id e' ∧ e'.attempts.toNat = min (n + failures id ops)
    (2 ^ 32 - 1) := by
  induction ops generalizing q e n with
  | nil => exact ⟨e, h, hattempts⟩
  | cons op ops ih =>
    obtain ⟨hmem, rfl⟩ := h.mem
    obtain ⟨e', he', hevolves⟩ := (step_spec json q op).holds h hkept.1
    have hnext := evolves_attempts hevolves hattempts
    obtain ⟨e'', he'', hrest⟩ := ih _ he' hnext hkept.2
    refine ⟨e'', he'', ?_⟩
    rw [hrest, failures, failures, List.countP_cons]
    omega

theorem evolves_of_fails {error : String} {nowMs : UInt64} {answer : Answer} {e' : QueueItem}
    (h : Evolves (.markFailed id error policy nowMs) answer e e') (hid : id = e.id) :
    e' = e.fail error policy nowMs := by
  cases h with
  | idle hclaim hfails => exact absurd hid (of_decide_eq_false hfails)
  | touched htouch =>
    cases htouch
    rfl

theorem requeued_due (h : Holds q id e) (hattempts : e.attempts = 0)
    (hkept : Along (step json) (fun q op => ¬ Removes id q op) q ops) (error : String)
    (nowMs : UInt64) {x : QueueItem}
    (hx : Holds (final (step json) q (ops ++ [.markFailed id error policy nowMs])) id x)
    (hqueued : x.state = .queued) :
    x.nextAttemptAtMs.toNat = min (nowMs.toNat + delayAfter policy (failures id ops + 1))
    (2 ^ 64 - 1) := by
  obtain ⟨y, hy, hcount⟩ := attempts_eq json 0 h (by rw [hattempts]; rfl) hkept
  obtain ⟨-, rfl⟩ := hy.mem
  obtain ⟨z, hz, hevolves⟩ := (step_spec json _ (.markFailed y.id error policy nowMs)).holds hy
    (fun h => nomatch h.1)
  rw [final_append] at hx
  obtain rfl : x = z := hz.eq_of_mem hx.mem.1 hx.mem.2
  obtain rfl := evolves_of_fails hevolves rfl
  have hattempts := fail_attempts y error policy nowMs
  obtain ⟨hstate, -⟩ | ⟨-, -, hdue⟩ := fail_cases y error policy nowMs
  · cases hstate.symm.trans hqueued
  · have hsum : (y.fail error policy nowMs).attempts.toNat = min (failures y.id ops + 1)
      (2 ^ 32 - 1) := by omega
    rw [hdue, toNat_saturatingAdd, toNat_delay, hsum, delayAfter_cap]

end Budget

theorem new_ok {id payload : String} {item : QueueItem} (h : QueueItem.new id payload = .ok item) :
    item = ⟨id, payload, .queued, 0, 0, 0, none⟩ := by
  rw [QueueItem.new] at h
  split_ifs at h
  exact (Except.ok.inj h).symm

/-- With one policy throughout and no manual retry, `claim_ready` returns a fresh id at most
`max_attempts` times before the item is removed. Each time the item is queued again it is due after
the delay for the failures so far, which grows with them up to `max_delay_ms`, and the machine
arithmetic is exact. -/
theorem automatic_retries_bounded (json : SerdeJson) {policy : RetryPolicy}
    (hpolicy : 1 ≤ policy.maxAttempts) (q : Outbox) {id payload : String} {item : QueueItem}
    (hitem : QueueItem.new id payload = .ok item) (haccepted : (q.enqueue item).2 = .ok ())
    {ops : List Op} (hops : ∀ op ∈ ops, Automatic policy id op)
    (hkept : Along (step json) (fun q op => ¬ Removes id q op) (q.enqueue item).1 ops) :
    claims id (trace (step json) (q.enqueue item).1 ops) ≤ policy.maxAttempts.toNat ∧
    (∀ before after error nowMs, ops = before ++ .markFailed id error policy nowMs :: after →
      ∀ x, Holds (final (step json) (q.enqueue item).1
        (before ++ [.markFailed id error policy nowMs])) id x →
        x.state = .queued → x.nextAttemptAtMs.toNat =
          min (nowMs.toNat + delayAfter policy (failures id before + 1)) (2 ^ 64 - 1)) ∧
    (∀ n, delayAfter policy n ≤ policy.maxDelayMs.toNat ∧
      ∀ m ≤ n, delayAfter policy m ≤ delayAfter policy n) ∧
    ∀ attempts : UInt32, (policy.delay attempts).toNat = delayAfter policy attempts.toNat ∧
      ((1 : UInt64) <<< (exponent attempts).toUInt64).toNat = 2 ^ min (attempts.toNat - 1) 31 := by
  have hfresh := new_ok hitem
  have hid : item.id = id := by rw [hfresh]
  have hholds : Holds (q.enqueue item).1 id item := hid ▸ holds_enqueue haccepted
  refine ⟨?_, ?_, ?_, ?_⟩
  · have hleft : left policy.maxAttempts.toNat item = policy.maxAttempts.toNat := by
      rw [hfresh]
      rfl
    rw [← hleft]
    refine claims_le_left json hholds ?_ hops hkept
    intro _
    rw [hfresh]
    exact UInt32.le_iff_toNat_le.mp hpolicy
  · rintro before after error nowMs rfl x hx hqueued
    have hattempts : item.attempts = 0 := by rw [hfresh]
    exact requeued_due json hholds hattempts (along_append.mp hkept).1 error nowMs hx hqueued
  · intro n
    exact ⟨delayAfter_le policy n, fun m h => delayAfter_mono policy h⟩
  · intro attempts
    exact ⟨toNat_delay policy attempts, toNat_shift attempts⟩

def twoAttempts : RetryPolicy := ⟨2, 1000, 300000⟩

def failTwice : List Op :=
  [.claimReady 0, .markFailed "m1" "offline" twoAttempts 5, .claimReady 1005,
    .markFailed "m1" "offline" twoAttempts 1006, .claimReady 9000]

theorem automatic_retries_bounded_sample :
    claims "m1" (trace (step serdeJson) (Outbox.default.enqueue (sampleItem "m1")).1 failTwice) = 2 ∧
    claims "m1" (trace (step serdeJson) (Outbox.default.enqueue (sampleItem "m1")).1 failTwice) ≤
      twoAttempts.maxAttempts.toNat := by
  have hautomatic : ∀ op ∈ failTwice, Automatic twoAttempts "m1" op := by
    intro op hop
    simp only [failTwice, List.mem_cons, List.not_mem_nil, or_false] at hop
    rcases hop with rfl | rfl | rfl | rfl | rfl
    · trivial
    · exact fun _ => rfl
    · trivial
    · exact fun _ => rfl
    · trivial
  have hitem : QueueItem.new "m1" "payload" = .ok (sampleItem "m1") := by decide +kernel
  exact ⟨by decide, (automatic_retries_bounded serdeJson (by decide) Outbox.default hitem
    (by decide) hautomatic (by decide)).1⟩

variable (json : SerdeJson) (nowMs : UInt64)

def dueIds (q : Outbox) : List String := (q.items.filter fun e => e.ready nowMs).map QueueItem.id

def claimAll (q : Outbox) : Outbox := ⟨q.items.map fun e => if e.ready nowMs then e.claim else e⟩

theorem claim_not_ready (e : QueueItem) : e.claim.ready nowMs = false :=
  decide_eq_false fun h => nomatch h.1

/-- The first due item is claimed, and what is due behind it stays due. -/
theorem step_claimReady (q : Outbox) :
    (dueIds nowMs q = [] ∧ claimAll nowMs q = q ∧
      step json q (.claimReady nowMs) = (q, .claimed none)) ∨
      ∃ id q', dueIds nowMs q = id :: dueIds nowMs q' ∧ claimAll nowMs q' = claimAll nowMs q ∧
        step json q (.claimReady nowMs) = (q', .claimed (some id)) := by
  obtain ⟨items⟩ := q
  simp only [step, Outbox.claimReady]
  cases h : updateFirst (fun item => item.ready nowMs) (fun item => (item.claim, item.id)) items with
  | none =>
    have hnone : ∀ e ∈ items, ¬ e.ready nowMs = true := fun e he => by simp [updateFirst_eq_none h e he]
    refine .inl ⟨?_, ?_, rfl⟩
    · rw [dueIds, List.filter_eq_nil_iff.mpr hnone]
      rfl
    · have hsame : items.map (fun e => if e.ready nowMs then e.claim else e) = items.map id :=
        List.map_congr_left fun e he => if_neg (hnone e he)
      rw [claimAll, hsame, List.map_id]
  | some r =>
    obtain ⟨items', answer⟩ := r
    obtain ⟨before, a, after, rfl, hbefore, ha, rfl, rfl⟩ := updateFirst_eq_some h
    have hnone : before.filter (fun e => e.ready nowMs) = [] :=
      List.filter_eq_nil_iff.mpr fun e he => by simp [hbefore e he]
    refine .inr ⟨a.id, ⟨before ++ a.claim :: after⟩, ?_, ?_, rfl⟩
    · simp [dueIds, hnone, ha, claim_not_ready]
    · simp [claimAll, ha, claim_not_ready]

/-- Claims at one time return the due ids in the order of the queue, each of them once and then
none, and they change nothing but the items they return. -/
theorem claims_drain (q : Outbox) (n : ℕ) :
    (trace (step json) q (List.replicate n (.claimReady nowMs))).map (fun r => claimedId r.2) =
        ((dueIds nowMs q).map some ++ List.replicate n none).take n ∧
      ((dueIds nowMs q).length ≤ n →
        final (step json) q (List.replicate n (.claimReady nowMs)) = claimAll nowMs q) := by
  induction n generalizing q with
  | zero =>
    refine ⟨rfl, fun hnone => ?_⟩
    obtain ⟨-, hsame, -⟩ | ⟨id, q', hdue, -⟩ := step_claimReady json nowMs q
    · exact hsame.symm
    · rw [hdue] at hnone
      cases hnone
  | succ n ih =>
    rw [List.replicate_succ, trace, final_cons]
    obtain ⟨hdue, hsame, hstep⟩ | ⟨id, q', hdue, hrest, hstep⟩ := step_claimReady json nowMs q
    · obtain ⟨hanswers, hend⟩ := ih q
      rw [hdue] at hanswers hend ⊢
      rw [hstep]
      refine ⟨?_, fun _ => hend (Nat.zero_le n)⟩
      rw [List.map_cons, hanswers]
      simp [claimedId, List.replicate_succ]
    · obtain ⟨hanswers, hend⟩ := ih q'
      rw [hstep, hdue, ← hrest]
      refine ⟨?_, fun hlen => hend (Nat.le_of_succ_le_succ hlen)⟩
      rw [List.map_cons, hanswers]
      simp [claimedId, List.replicate_succ', ← List.append_assoc]

end Mst5Client.OutboxRetries
