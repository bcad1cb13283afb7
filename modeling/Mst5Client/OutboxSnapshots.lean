import Mst5Client.OutboxRetries

set_option autoImplicit false

/-!
# Ids and snapshots of the outbox

Every operation keeps the ids distinct if they are so at the start, which `from_json` does not look
at.
-/
namespace Mst5Client.OutboxSnapshots
open AccountClient FirstMatch MachineRuns OutboxQueue OutboxRuns OutboxDelivery OutboxJson

section Uniqueness
variable {q q' : Outbox} {op : Op} {answer : Answer} {id : String}

def UniqueIds (q : Outbox) : Prop := (q.items.map QueueItem.id).Nodup

instance : Decidable (UniqueIds q) := inferInstanceAs (Decidable (List.Nodup _))

/-- The operations after which an id may be claimed once more. -/
def Renews (id : String) : Op → Prop
  | .enqueue item => item.id = id
  | .markFailed i _ _ _ | .retryFailed i => i = id
  | _ => False

def Quiet (id : String) (q : Outbox) : Prop := ∀ e ∈ q.items, e.id = id → e.state ≠ .queued

theorem step_uniqueIds (hstep : Step q op answer q') (h : UniqueIds q) : UniqueIds q' := by
  cases hstep with
  | pushed item hfresh =>
    rw [UniqueIds, List.map_append, List.map_singleton]
    refine List.nodup_append.mpr ⟨h, List.nodup_singleton _, ?_⟩
    intro a ha b hb
    obtain ⟨e, he, rfl⟩ := List.mem_map.mp ha
    rw [List.mem_singleton.mp hb]
    exact hfresh e he
  | touched hsplit hfirst htouch =>
    rw [UniqueIds, hsplit] at h
    rw [UniqueIds, map_replace QueueItem.id htouch.id_eq]
    exact h
  | removed => exact h.sublist (List.filter_sublist.map _)
  | reloaded => exact h
  | refused hrefused hmissed => exact h

theorem quiet_of_claim (hstep : Step q op (.claimed (some id)) q') (h : UniqueIds q) :
    Quiet id q' := by
  cases hstep with
  | @touched op answer before after a b hsplit hfirst htouch =>
    cases htouch with
    | claimed hready =>
      rw [UniqueIds, hsplit, List.map_append, List.map_cons, List.nodup_middle, List.nodup_cons] at h
      intro e he hid
      have hother : a.id ∉ before.map QueueItem.id ++ after.map QueueItem.id := h.1
      rcases List.mem_append.mp he with he | he
      · exact absurd (List.mem_append_left _ (List.mem_map.mpr ⟨e, he, hid⟩)) hother
      rcases List.mem_cons.mp he with rfl | he
      · nofun
      · exact absurd (List.mem_append_right _ (List.mem_map.mpr ⟨e, he, hid⟩)) hother
  | refused hrefused hmissed => cases hrefused

theorem touch_quiet {a b : QueueItem} (htouch : Touch op answer a b) (hop : ¬ Renews b.id op)
    (h : a.state ≠ .queued) : b.state ≠ .queued := by
  cases htouch with
  | claimed hready => nofun
  | progressed percent hsending => exact h
  | delivered => nofun
  | failed error policy nowMs => exact absurd (fail_id ..).symm hop
  | retried hfailed => exact absurd rfl hop

theorem step_quiet (hstep : Step q op answer q') (hop : ¬ Renews id op) (h : Quiet id q) :
    Quiet id q' := by
  refine hstep.forall_items ?_ ?_ h
  · rintro item rfl - hid
    exact absurd hid hop
  · intro a b htouch ha hid
    rw [← hid] at hop
    exact touch_quiet htouch hop (ha (htouch.id_eq.symm.trans hid))

theorem claim_of_quiet (hstep : Step q op answer q') (h : Quiet id q) :
    answer ≠ .claimed (some id) := by
  cases hstep with
  | touched hsplit hfirst htouch =>
    cases htouch with
    | claimed hready =>
      intro hclaimed
      refine h _ (hsplit ▸ List.mem_append_right _ List.mem_cons_self) ?_ (of_decide_eq_true hready).1
      exact Option.some.inj (Answer.claimed.inj hclaimed)
    | _ => nofun
  | refused hrefused hmissed => exact refused_claim hrefused id
  | _ => nofun

end Uniqueness

/-- Between two claims that return one id the id has been renewed. -/
def ClaimedOnce (json : SerdeJson) (q : Outbox) (ops : List Op) : Prop :=
  ∀ before during after t t' id, ops = before ++ .claimReady t :: (during ++ .claimReady t' :: after) →
    (step json (final (step json) q before) (.claimReady t)).2 = .claimed (some id) →
    (∀ op ∈ during, ¬ Renews id op) →
    (step json (final (step json) q (before ++ .claimReady t :: during)) (.claimReady t')).2 ≠
      .claimed (some id)

theorem uniqueIds_run (json : SerdeJson) {q : Outbox} (h : UniqueIds q) (ops : List Op) :
    UniqueIds (final (step json) q ops) :=
  along_invariant (P := fun _ _ => True) (fun q op h _ => step_uniqueIds (step_spec json q op) h) h
    (along_of_forall fun _ _ _ => trivial)

theorem claimedOnce_of_unique (json : SerdeJson) {q : Outbox} (h : UniqueIds q) (ops : List Op) :
    ClaimedOnce json q ops := by
  rintro before during after t t' id - hclaim hduring
  have hspec := step_spec json (final (step json) q before) (.claimReady t)
  rw [hclaim] at hspec
  have hquiet : Quiet id (final (step json) q (before ++ .claimReady t :: during)) := by
    rw [final_append, final_cons]
    exact along_invariant (fun q op h hop => step_quiet (step_spec json q op) hop h)
      (quiet_of_claim hspec (uniqueIds_run json h before)) (along_of_forall fun op hop _ =>
        hduring op hop)
  exact claim_of_quiet (step_spec json _ _) hquiet

/-- Ids stay distinct in every run, and no id is claimed twice without being renewed, exactly if the
ids are distinct at the start. -/
theorem ids_unique_iff (json : SerdeJson) (q : Outbox) :
    (∀ ops, UniqueIds (final (step json) q ops) ∧ ClaimedOnce json q ops) ↔ UniqueIds q := by
  constructor
  · intro h
    exact (h []).1
  · intro h ops
    exact ⟨uniqueIds_run json h ops, claimedOnce_of_unique json h ops⟩

def doubled : String :=
  "\x7b\"items\":[\x7b\"id\":\"m1\",\"payload\":\"a\"\x7d,\x7b\"id\":\"m1\",\"payload\":\"b\"\x7d]\x7d"

def doubledItems : List QueueItem :=
  [⟨"m1", "a", .queued, 0, 0, 0, none⟩, ⟨"m1", "b", .queued, 0, 0, 0, none⟩]

/-- `from_json` accepts a text with two items of one id, and both are claimed one after the other. -/
theorem duplicate_ids_accepted : Outbox.fromJson serdeJson doubled = .ok ⟨doubledItems⟩ ∧
    ¬ UniqueIds ⟨doubledItems⟩ ∧ ¬ ClaimedOnce serdeJson ⟨doubledItems⟩ [.claimReady 0,
      .claimReady 0] := by
  refine ⟨by decide +kernel, by decide, ?_⟩
  intro h
  exact h [] [] [] 0 0 "m1" rfl rfl nofun rfl

variable {q q' : Outbox} {op : Op} {answer : Answer}

structure ValidItem (e : QueueItem) : Prop where
  id : trim e.id ≠ ""
  size : e.id.utf8ByteSize ≤ 256
  progress : e.progressPercent ≤ 100

theorem validate_item {e : QueueItem} (h : ValidItem e) : e.validate = .ok () := by
  rw [QueueItem.validate, if_neg, if_neg]
  · exact UInt8.not_lt.mpr h.progress
  · rintro (hid | hsize)
    · exact h.id hid
    · exact absurd h.size (Nat.not_le.mpr hsize)

theorem validate_ok (h : ∀ e ∈ q.items, ValidItem e) : q.validate = .ok () := by
  obtain ⟨items⟩ := q
  induction items with
  | nil => rfl
  | cons e items ih =>
    change (e.validate >>= fun _ => Outbox.validate ⟨items⟩) = _
    rw [validate_item (h e List.mem_cons_self)]
    exact ih fun e he => h e (List.mem_cons_of_mem _ he)

theorem min_99_le (percent : UInt8) : min percent 99 ≤ 100 := by
  change (if percent ≤ 99 then percent else 99) ≤ 100
  split_ifs with h
  · exact UInt8.le_trans h (by decide)
  · decide

theorem touch_valid {a b : QueueItem} (htouch : Touch op answer a b) (h : ValidItem a) :
    ValidItem b := by
  refine ⟨htouch.id_eq ▸ h.id, htouch.id_eq ▸ h.size, ?_⟩
  cases htouch with
  | claimed hready => exact min_99_le a.progressPercent
  | progressed percent hsending => exact min_99_le percent
  | delivered => exact UInt8.le_refl 100
  | failed error policy nowMs =>
    simp only [QueueItem.fail]
    split_ifs <;> exact h.progress
  | retried hfailed => exact h.progress

theorem new_valid {id payload : String} {item : QueueItem} (h : QueueItem.new id payload = .ok item) :
    ValidItem item := by
  rw [QueueItem.new] at h
  split_ifs at h with hbad
  rw [← Except.ok.inj h]
  exact ⟨fun hid => hbad (.inl hid), Nat.not_lt.mp fun hsize => hbad (.inr (.inl hsize)),
    show (0 : UInt8) ≤ 100 by decide⟩

/-- Only items that `QueueItem::new` has made are put into the queue. -/
def Built : Op → Prop
  | .enqueue item => ∃ id payload, QueueItem.new id payload = .ok item
  | _ => True

theorem step_valid (hstep : Step q op answer q') (hbuilt : Built op)
    (h : ∀ e ∈ q.items, ValidItem e) : ∀ e ∈ q'.items, ValidItem e := by
  refine hstep.forall_items ?_ (fun _ _ htouch ha => touch_valid htouch ha) h
  rintro item rfl -
  obtain ⟨id, payload, hitem⟩ := hbuilt
  exact new_valid hitem

theorem fromJson_toJson (json : SerdeJson) (h : ∀ e ∈ q.items, ValidItem e) :
    ∃ raw, q.toJson json = .ok raw ∧ Outbox.fromJson json raw = .ok q := by
  obtain ⟨raw, hprint, hparse⟩ := json.round_trip q
  refine ⟨raw, ?_, ?_⟩
  · rw [Outbox.toJson, hprint]
    rfl
  · rw [Outbox.fromJson, hparse]
    simp only [validate_ok h]
    rfl

/-- What the operations make of an empty outbox and items from `QueueItem::new` can be restored from
its snapshot, and nobody sees the difference afterwards. -/
theorem snapshots_restore (json : SerdeJson) {ops : List Op} (hops : ∀ op ∈ ops, Built op) :
    ∃ raw restored, (final (step json) Outbox.default ops).toJson json = .ok raw ∧
      Outbox.fromJson json raw = .ok restored ∧
      restored.items = (final (step json) Outbox.default ops).items ∧
      ∀ later, (trace (step json) restored later).map Prod.snd =
        (trace (step json) (final (step json) Outbox.default ops) later).map Prod.snd := by
  have hvalid : ∀ e ∈ (final (step json) Outbox.default ops).items, ValidItem e :=
    along_invariant (I := fun q => ∀ e ∈ q.items, ValidItem e)
      (fun q op h hbuilt => step_valid (step_spec json q op) hbuilt h)
        (fun _ he => absurd he List.not_mem_nil)
      (along_of_forall fun op hop _ => hops op hop)
  obtain ⟨raw, hraw, hrestored⟩ := fromJson_toJson json hvalid
  exact ⟨raw, _, hraw, hrestored, rfl, fun _ => rfl⟩

def halfSent : List Op := [.enqueue (sampleItem "m1"), .claimReady 0, .updateProgress "m1" 42]

theorem snapshots_restore_sample : ∃ raw restored,
    (final (step serdeJson) Outbox.default halfSent).toJson serdeJson = .ok raw ∧
      Outbox.fromJson serdeJson raw = .ok restored ∧
      restored.items = [⟨"m1", "payload", .sending, 0, 0, 42, none⟩] := by
  have hbuilt : ∀ op ∈ halfSent, Built op := by
    intro op hop
    simp only [halfSent, List.mem_cons, List.not_mem_nil, or_false] at hop
    rcases hop with rfl | rfl | rfl
    · exact ⟨"m1", "payload", by decide +kernel⟩
    · trivial
    · trivial
  obtain ⟨raw, restored, hraw, hrestored, hitems, -⟩ := snapshots_restore serdeJson hbuilt
  exact ⟨raw, restored, hraw, hrestored, hitems.trans (by decide)⟩

end Mst5Client.OutboxSnapshots
