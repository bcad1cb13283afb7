import Mst5Client.OutboxJson
import Mst5Client.OutboxRuns

set_option autoImplicit false

/-!
# Delivery through the outbox

Nothing that was accepted is lost or altered before it is delivered and removed.
-/
namespace Mst5Client.OutboxDelivery
open FirstMatch MachineRuns OutboxQueue OutboxRuns OutboxJson

section Keeping
variable {q q' : Outbox} {op : Op} {answer : Answer}

def target : Op → Answer → Option String
  | .enqueue item, _ => some item.id
  | .claimReady _, .claimed id => id
  | .updateProgress id _, _ | .markDelivered id, _ | .markFailed id _ _ _, _ | .retryFailed id, _ =>
    some id
  | _, _ => none

/-- The items are the same ones in the same order, but for one position, which has this id. -/
structure SameBut (id : String) (q q' : Outbox) (k : ℕ) : Prop where
  same : ∀ j, j ≠ k → q'.items[j]? = q.items[j]?
  item : ∀ e, q.items[k]? = some e → e.id = id ∧ ∃ e', q'.items[k]? = some e' ∧ e'.id = id ∧
    e'.payload = e.payload

theorem sameBut_self (id : String) (q : Outbox) : SameBut id q q q.items.length where
  same := fun _ _ => rfl
  item := by
    intro e he
    rw [List.getElem?_eq_none (Nat.le_refl _)] at he
    cases he

theorem touch_target {a b : QueueItem} (h : Touch op answer a b) :
    target op answer = some a.id := by
  cases h <;> rfl

theorem step_sameBut {id : String} (hstep : Step q op answer q')
    (htarget : target op answer = some id) : ∃ k, SameBut id q q' k := by
  cases hstep with
  | pushed item hfresh =>
    refine ⟨q.items.length, ?_, ?_⟩
    · intro j hj
      rcases Nat.lt_or_ge j q.items.length with hlt | hge
      · exact List.getElem?_append_left hlt
      · rw [List.getElem?_eq_none hge, List.getElem?_eq_none]
        rw [List.length_append, List.length_singleton]
        omega
    · intro e he
      rw [List.getElem?_eq_none (Nat.le_refl _)] at he
      cases he
  | @touched op answer before after a b hsplit hfirst htouch =>
    rw [touch_target htouch] at htarget
    obtain rfl := Option.some.inj htarget
    refine ⟨before.length, ?_, ?_⟩
    · intro j hj
      rw [hsplit]
      exact getElem?_replace hj
    · intro e he
      rw [hsplit, getElem?_replaced] at he
      obtain rfl := Option.some.inj he
      exact ⟨rfl, b, getElem?_replaced, htouch.id_eq, htouch.payload_eq⟩
  | removed => cases htarget
  | reloaded => cases htarget
  | refused hrefused hmissed => exact ⟨_, sameBut_self id q⟩

theorem step_unchanged (hstep : Step q op answer q') (hrefused : refused answer = true) :
    q' = q := by
  cases hstep with
  | pushed item hfresh => cases hrefused
  | touched hsplit hfirst htouch =>
    rw [htouch.not_refused] at hrefused
    cases hrefused
  | removed => cases hrefused
  | reloaded => rfl
  | refused hrefused hmissed => rfl

theorem enqueue_ok {item : QueueItem} (h : (q.enqueue item).2 = .ok ()) :
    (q.enqueue item).1 = ⟨q.items ++ [item]⟩ ∧ ∀ e ∈ q.items, e.id ≠ item.id := by
  rw [Outbox.enqueue] at h ⊢
  by_cases hany : q.items.any (fun existing => existing.id = item.id) = true
  · rw [if_pos hany] at h
    cases h
  · rw [if_neg hany]
    exact ⟨rfl, fun e he heq => hany (List.any_eq_true.mpr ⟨e, he, decide_eq_true heq⟩)⟩

theorem holds_enqueue {item : QueueItem} (h : (q.enqueue item).2 = .ok ()) :
    Holds (q.enqueue item).1 item.id item := by
  obtain ⟨hitems, hfresh⟩ := enqueue_ok h
  have hnone : q.items.filter (fun e => e.id = item.id) = [] :=
    List.filter_eq_nil_iff.mpr fun e he => by simpa using hfresh e he
  rw [hitems, Holds, List.filter_append, hnone]
  simp

theorem holds_run (json : SerdeJson) {id : String} {e : QueueItem} (h : Holds q id e)
    {ops : List Op} (hkept : Along (step json) (fun q op => ¬ Removes id q op) q ops) :
    ∃ e', Holds (final (step json) q ops) id e' ∧ e'.payload = e.payload := by
  refine along_invariant (I := fun q => ∃ e', Holds q id e' ∧ e'.payload = e.payload) ?_ ⟨e, h,
    rfl⟩ hkept
  rintro q op ⟨x, hx, hpayload⟩ hremoves
  obtain ⟨e', he', hevolves⟩ := (step_spec json q op).holds hx hremoves
  exact ⟨e', he', hevolves.payload_eq.trans hpayload⟩

end Keeping

/-- What `enqueue` accepts stays, once and with its payload, until a `remove_delivered` that finds it
delivered; an operation that reports failure changes nothing; and an operation on one id changes
nothing but the item of that id. -/
theorem outbox_loses_nothing (json : SerdeJson) :
    (∀ (q : Outbox) (item : QueueItem) (ops : List Op), (q.enqueue item).2 = .ok () →
      Along (step json) (fun q op => ¬ Removes item.id q op) (q.enqueue item).1 ops →
      ∃ e, Holds (final (step json) (q.enqueue item).1 ops) item.id e ∧ e.payload = item.payload) ∧
    (∀ (q : Outbox) (op : Op), refused (step json q op).2 = true → (step json q op).1 = q) ∧
    ∀ (q : Outbox) (op : Op) (id : String), target op (step json q op).2 = some id →
      ∃ k, SameBut id q (step json q op).1 k := by
  refine ⟨?_, ?_, ?_⟩
  · intro q item ops haccepted hkept
    exact holds_run json (holds_enqueue haccepted) hkept
  · intro q op hrefused
    exact step_unchanged (step_spec json q op) hrefused
  · intro q op id htarget
    exact step_sameBut (step_spec json q op) htarget

def sampleItem (id : String) : QueueItem := ⟨id, "payload", .queued, 0, 0, 0, none⟩

theorem outbox_loses_nothing_sample :
    ∃ e, Holds (final (step serdeJson) (Outbox.default.enqueue (sampleItem "m1")).1
      [.claimReady 0, .enqueue (sampleItem "m2"), .markDelivered "m2", .removeDelivered]) "m1" e ∧
      e.payload = "payload" :=
  (outbox_loses_nothing serdeJson).1 Outbox.default (sampleItem "m1") _ (by decide) (by decide)

variable {q q' : Outbox} {op : Op} {answer : Answer}
variable {k : ℕ} {e : QueueItem}

/-- A delivered item is at 100 percent. -/
def Complete (e : QueueItem) : Prop := e.state = .delivered → e.progressPercent = 100

/-- The operation brings in no delivered item that is not complete, and reports no failure for a
delivered one. -/
def Spares (q : Outbox) : Op → Prop
  | .enqueue item => (∀ e ∈ q.items, e.id ≠ item.id) → Complete item
  | .markFailed id _ _ _ => ∀ e, q.items.find? (fun e => e.id = id) = some e → e.state ≠ .delivered
  | _ => True

/-- Through the whole run, an item that is delivered stays so, with progress 100, until
`remove_delivered`, and `claim_ready` leaves it alone. -/
def DeliveredStays (json : SerdeJson) (q : Outbox) (ops : List Op) : Prop :=
  ∀ before during after, ops = before ++ (during ++ after) → .removeDelivered ∉ during →
    ∀ (k : ℕ) (e : QueueItem), (final (step json) q before).items[k]? = some e → e.state = .delivered →
      ∃ e', (final (step json) q (before ++ during)).items[k]? = some e' ∧ e'.id = e.id ∧
        e'.payload = e.payload ∧ e'.state = .delivered ∧ e'.progressPercent = 100 ∧
        ∀ nowMs, ((final (step json) q (before ++ during)).claimReady nowMs).1.items[k]? = some e'

theorem fail_state (a : QueueItem) (error : String) (policy : RetryPolicy) (nowMs : UInt64) :
    (a.fail error policy nowMs).state ≠ .delivered := by
  intro hdelivered
  simp only [QueueItem.fail] at hdelivered
  split_ifs at hdelivered

theorem touch_complete {a b : QueueItem} (h : Touch op answer a b) : Complete b := by
  cases h with
  | claimed hready => nofun
  | progressed percent hsending =>
    intro hdelivered
    cases hsending.symm.trans hdelivered
  | delivered => exact fun _ => rfl
  | failed => exact fun hdelivered => absurd hdelivered (fail_state _ _ _ _)
  | retried hfailed => nofun

theorem step_complete (hstep : Step q op answer q') (hspares : Spares q op)
    (h : ∀ e ∈ q.items, Complete e) : ∀ e ∈ q'.items, Complete e := by
  refine hstep.forall_items ?_ (fun _ _ htouch _ => touch_complete htouch) h
  rintro item rfl hfresh
  exact hspares hfresh

theorem step_stays (hstep : Step q op answer q') (hspares : Spares q op)
    (hop : op ≠ .removeDelivered) (he : q.items[k]? = some e) (hdelivered : e.state = .delivered) :
    ∃ e', q'.items[k]? = some e' ∧ e'.id = e.id ∧ e'.payload = e.payload ∧ e'.state = .delivered ∧
      ∀ nowMs, op = .claimReady nowMs → e' = e := by
  cases hstep with
  | pushed item hfresh =>
    refine ⟨e, ?_, rfl, rfl, hdelivered, fun _ _ => rfl⟩
    rw [List.getElem?_append_left (List.getElem?_eq_some_iff.mp he).1]
    exact he
  | @touched op answer before after a b hsplit hfirst htouch =>
    rw [hsplit] at he
    by_cases hk : k = before.length
    · rw [hk, getElem?_replaced] at he
      obtain rfl := Option.some.inj he
      refine ⟨b, hk ▸ getElem?_replaced, htouch.id_eq, htouch.payload_eq, ?_⟩
      cases htouch with
      | claimed hready => cases (of_decide_eq_true hready).1.symm.trans hdelivered
      | progressed percent hsending => cases hsending.symm.trans hdelivered
      | delivered => exact ⟨rfl, nofun⟩
      | failed error policy nowMs =>
        -- the item is the first one with its id
        have hfind : q.items.find? (fun e => e.id = a.id) = some a := by
          rw [hsplit, List.find?_append, List.find?_eq_none.mpr
            fun x hx => by simpa [finds] using hfirst x hx]
          simp
        exact absurd hdelivered (hspares a hfind)
      | retried hfailed => cases hfailed.symm.trans hdelivered
    · refine ⟨e, ?_, rfl, rfl, hdelivered, fun _ _ => rfl⟩
      rw [← he]
      exact getElem?_replace hk
  | removed => exact absurd rfl hop
  | reloaded => exact ⟨e, he, rfl, rfl, hdelivered, fun _ _ => rfl⟩
  | refused hrefused hmissed => exact ⟨e, he, rfl, rfl, hdelivered, fun _ _ => rfl⟩

variable {json : SerdeJson} {ops : List Op}

theorem stays_run (hspares : Along (step json) Spares q ops) (hops : .removeDelivered ∉ ops)
    (he : q.items[k]? = some e) (hdelivered : e.state = .delivered) :
    ∃ e', (final (step json) q ops).items[k]? = some e' ∧ e'.id = e.id ∧ e'.payload = e.payload ∧
      e'.state = .delivered := by
  induction ops generalizing q e with
  | nil => exact ⟨e, he, rfl, rfl, hdelivered⟩
  | cons op ops ih =>
    have hop : op ≠ .removeDelivered := fun h => hops (h ▸ List.mem_cons_self)
    obtain ⟨x, hx, hid, hpayload, hstate, -⟩ :=
      step_stays (step_spec json q op) hspares.1 hop he hdelivered
    obtain ⟨e', he', hid', hpayload', hstate'⟩ :=
      ih hspares.2 (fun h => hops (List.mem_cons_of_mem _ h)) hx hstate
    exact ⟨e', he', hid'.trans hid, hpayload'.trans hpayload, hstate'⟩

theorem claimReady_stays (json : SerdeJson) (he : q.items[k]? = some e)
    (hdelivered : e.state = .delivered) (nowMs : UInt64) :
    (q.claimReady nowMs).1.items[k]? = some e := by
  obtain ⟨e', he', -, -, -, hsame⟩ :=
    step_stays (step_spec json q (.claimReady nowMs)) (show Spares q _ from trivial) nofun he hdelivered
  rw [hsame nowMs rfl] at he'
  exact he'

theorem stays_of_spares (hcomplete : ∀ e ∈ q.items, Complete e)
    (hspares : Along (step json) Spares q ops) : DeliveredStays json q ops := by
  rintro before during after rfl hduring k e he hdelivered
  obtain ⟨hbefore, hrest⟩ := along_append.mp hspares
  obtain ⟨hspared, -⟩ := along_append.mp hrest
  obtain ⟨e', he', hid, hpayload, hstate⟩ := stays_run hspared hduring he hdelivered
  rw [← final_append] at he'
  have hcompletes : ∀ x ∈ (final (step json) q (before ++ during)).items, Complete x :=
    along_invariant (fun q op h hspares => step_complete (step_spec json q op) hspares h) hcomplete
      (along_append.mpr ⟨hbefore, hspared⟩)
  exact ⟨e', he', hid, hpayload, hstate, hcompletes e' (List.mem_of_getElem? he') hstate,
    claimReady_stays json he' hstate⟩

theorem DeliveredStays.complete (h : DeliveredStays json q ops) : ∀ e ∈ q.items, Complete e := by
  intro e he hdelivered
  obtain ⟨k, hk⟩ := List.mem_iff_getElem?.mp he
  obtain ⟨e', he', -, -, -, hprogress, -⟩ := h [] [] ops rfl nofun k e hk hdelivered
  rw [show (final (step json) q ([] ++ [])).items[k]? = some e from hk] at he'
  obtain rfl := Option.some.inj he'
  exact hprogress

theorem DeliveredStays.tail {op : Op} (h : DeliveredStays json q (op :: ops)) :
    DeliveredStays json (step json q op).1 ops := by
  rintro before during after rfl hduring k e he hdelivered
  exact h (op :: before) during after rfl hduring k e he hdelivered

theorem markFailed_changes {id : String} (error : String) (policy : RetryPolicy) (nowMs : UInt64)
    (he : q.items.find? (fun e => e.id = id) = some e) : ∃ k : ℕ, q.items[k]? = some e ∧
      (q.markFailed id error policy nowMs).1.items[k]? = some (e.fail error policy nowMs) := by
  obtain ⟨-, hnone⟩ | ⟨before, a, after, hsplit, hbefore, ha, hfail⟩ :=
    withItem_cases q id fun item => (item.fail error policy nowMs, true)
  · exact absurd (by simpa using List.find?_some he) (hnone e (List.mem_of_find?_eq_some he))
  · have hfind : q.items.find? (fun e => e.id = id) = some a := by
      rw [hsplit, List.find?_append, List.find?_eq_none.mpr fun x hx => by simpa using hbefore x hx]
      simp [ha]
    rw [he] at hfind
    obtain rfl := Option.some.inj hfind
    refine ⟨before.length, by rw [hsplit]; exact getElem?_replaced, ?_⟩
    rw [Outbox.markFailed, hfail]
    exact getElem?_replaced

theorem DeliveredStays.spares {op : Op} (h : DeliveredStays json q (op :: ops)) : Spares q op := by
  cases op with
  | enqueue item =>
    intro hfresh
    refine h.tail.complete item ?_
    have haccepted : (step json q (.enqueue item)).1 = ⟨q.items ++ [item]⟩ := by
      have hany : ¬ q.items.any (fun existing => existing.id = item.id) = true := by
        intro hany
        obtain ⟨e, he, heq⟩ := List.any_eq_true.mp hany
        exact hfresh e he (of_decide_eq_true heq)
      simp only [step, Outbox.enqueue, if_neg hany]
      rfl
    rw [haccepted]
    exact List.mem_append_right _ (List.mem_singleton_self item)
  | markFailed id error policy nowMs =>
    intro e he hdelivered
    obtain ⟨k, hk, hfail⟩ := markFailed_changes error policy nowMs he
    obtain ⟨e', he', -, -, hstate, -⟩ :=
      h [] [.markFailed id error policy nowMs] ops rfl (by simp) k e hk hdelivered
    rw [show (final (step json) q ([] ++ [.markFailed id error policy nowMs])).items[k]? =
      some (e.fail error policy nowMs) from hfail] at he'
    obtain rfl := Option.some.inj he'
    exact fail_state _ _ _ _ hstate
  | _ => trivial

/-- Delivered is final in a run exactly if no item enters it delivered and incomplete, and no failure
is reported for a delivered item. -/
theorem delivered_final_iff (json : SerdeJson) (q : Outbox) (ops : List Op) :
    DeliveredStays json q ops ↔ (∀ e ∈ q.items, Complete e) ∧ Along (step json) Spares q ops := by
  constructor
  · intro h
    refine ⟨h.complete, ?_⟩
    induction ops generalizing q with
    | nil => trivial
    | cons op ops ih => exact ⟨h.spares, ih _ h.tail⟩
  · rintro ⟨hcomplete, hspares⟩
    exact stays_of_spares hcomplete hspares

def lateFailure : List Op :=
  [.enqueue (sampleItem "m1"), .claimReady 0, .markDelivered "m1",
    .markFailed "m1" "timed out" .default 0]

theorem late_failure_undoes_delivery : ¬ DeliveredStays serdeJson Outbox.default lateFailure ∧
    ((final (step serdeJson) Outbox.default lateFailure).claimReady 1000).2 = some "m1" := by
  refine ⟨?_, by decide⟩
  intro h
  obtain ⟨e', he', -, -, hstate, -⟩ := h (lateFailure.take 3) (lateFailure.drop 3) [] rfl (by decide) 0
    (sampleItem "m1").deliver (by decide) rfl
  rw [show (final (step serdeJson) Outbox.default
    (lateFailure.take 3 ++ lateFailure.drop 3)).items[0]? =
    some ((sampleItem "m1").deliver.fail "timed out" .default 0) by decide] at he'
  obtain rfl := Option.some.inj he'
  exact absurd hstate (by decide)

end Mst5Client.OutboxDelivery
