import Mst5Client.OutboxQueue

set_option autoImplicit false

/-!
# What the operations of the outbox do

An operation appends an item, changes the first item it is about, drops the delivered ones or does
nothing.
-/
namespace Mst5Client.OutboxRuns
open FirstMatch OutboxQueue

def finds : Op → QueueItem → Bool
  | .claimReady nowMs, a => a.ready nowMs
  | .updateProgress id _, a | .markDelivered id, a | .markFailed id _ _ _, a | .retryFailed id, a =>
    a.id = id
  | _, _ => false

/-- What an operation may do to an item it finds, and what it answers then. -/
inductive Touch : Op → Answer → QueueItem → QueueItem → Prop
  | claimed {a : QueueItem} {nowMs : UInt64} (hready : a.ready nowMs = true) :
      Touch (.claimReady nowMs) (.claimed (some a.id)) a a.claim
  | progressed {a : QueueItem} (percent : UInt8) (hsending : a.state = .sending) :
      Touch (.updateProgress a.id percent)
      (.changed true) a { a with progressPercent := min percent 99 }
  | delivered {a : QueueItem} : Touch (.markDelivered a.id) (.changed true) a a.deliver
  | failed {a : QueueItem} (error : String) (policy : RetryPolicy) (nowMs : UInt64) :
      Touch (.markFailed a.id error policy nowMs) (.changed true) a (a.fail error policy nowMs)
  | retried {a : QueueItem} (hfailed : a.state = .failed) :
      Touch (.retryFailed a.id) (.changed true) a a.retry

def failsWith (id : String) : Op → Bool
  | .markFailed i _ _ _ => i = id
  | _ => false

def refused : Answer → Bool
  | .result (.error _) | .claimed none | .changed false => true
  | _ => false

inductive Step (q : Outbox) : Op → Answer → Outbox → Prop
  | pushed (item : QueueItem) (hfresh : ∀ e ∈ q.items, e.id ≠ item.id) :
      Step q (.enqueue item) (.result (.ok ())) ⟨q.items ++ [item]⟩
  | touched {op : Op} {answer : Answer} {before after : List QueueItem} {a b : QueueItem}
      (hsplit : q.items = before ++ a :: after) (hfirst : ∀ e ∈ before, finds op e = false)
      (htouch : Touch op answer a b) : Step q op answer ⟨before ++ b :: after⟩
  | removed : Step q .removeDelivered .unit q.removeDelivered
  | reloaded : Step q .reload (.result (.ok ())) q
  | refused {op : Op} {answer : Answer} (hrefused : refused answer = true)
      (hmissed : ∀ e ∈ q.items, failsWith e.id op = false) : Step q op answer q

section Steps
variable (json : SerdeJson) (q : Outbox)

theorem withItem_cases (id : String) (f : QueueItem → QueueItem × Bool) :
    (q.withItem id f = (q, false) ∧ ∀ e ∈ q.items, e.id ≠ id) ∨
      ∃ before a after, q.items = before ++ a :: after ∧ (∀ e ∈ before, e.id ≠ id) ∧ a.id = id ∧
        q.withItem id f = (⟨before ++ (f a).1 :: after⟩, (f a).2) := by
  rw [Outbox.withItem]
  cases h : updateFirst (fun item => decide (item.id = id)) f q.items with
  | none => exact .inl ⟨rfl, fun e he => of_decide_eq_false (updateFirst_eq_none h e he)⟩
  | some r =>
    obtain ⟨before, a, after, hsplit, hbefore, ha, hitems, hanswer⟩ := updateFirst_eq_some h
    refine .inr ⟨before, a, after, hsplit, fun e he => of_decide_eq_false (hbefore e he),
      of_decide_eq_true ha, ?_⟩
    rw [← hitems, ← hanswer]

theorem step_withItem {op : Op} (id : String) (f : QueueItem → QueueItem × Bool)
    (hfinds : ∀ e : QueueItem, e.id ≠ id → finds op e = false ∧ failsWith e.id op = false)
    (hf : ∀ a : QueueItem, a.id = id → (f a = (a, false) ∧ ∀ i, failsWith i op = false) ∨
      (f a).2 = true ∧ Touch op (.changed true) a (f a).1) :
    Step q op (.changed (q.withItem id f).2) (q.withItem id f).1 := by
  obtain ⟨h, hnone⟩ | ⟨before, a, after, hsplit, hbefore, ha, h⟩ := withItem_cases q id f
  · rw [h]
    exact .refused rfl fun e he => (hfinds e (hnone e he)).2
  · rw [h]
    obtain ⟨hidle, hmissed⟩ | ⟨htrue, htouch⟩ := hf a ha
    · rw [hidle]
      have hsame : (⟨before ++ a :: after⟩ : Outbox) = q := by rw [← hsplit]
      rw [hsame]
      exact .refused rfl fun e _ => hmissed e.id
    · rw [htrue]
      exact .touched hsplit (fun e he => (hfinds e (hbefore e he)).1) htouch

theorem fromJson_ok {raw : String} {restored : Outbox} (h : Outbox.fromJson json raw = .ok restored) :
    json.fromStr raw = .ok restored ∧ restored.validate = .ok () := by
  rw [Outbox.fromJson] at h
  cases hparsed : json.fromStr raw with
  | error e => simp [hparsed] at h
  | ok queue =>
    simp only [hparsed] at h
    cases hvalid : queue.validate with
    | error e => simp [hvalid, Except.map] at h
    | ok u =>
      simp only [hvalid, Except.map, Except.ok.injEq] at h
      exact ⟨congrArg _ h, h ▸ hvalid⟩

theorem reload_cases : q.reload json = (q, .ok ()) ∨ ∃ e, q.reload json = (q, .error e) := by
  obtain ⟨raw, hprint, hparse⟩ := json.round_trip q
  have hjson : (q.toJson json).bind (Outbox.fromJson json) = Outbox.fromJson json raw := by
    rw [Outbox.toJson, hprint]
    rfl
  rw [Outbox.reload, hjson]
  cases h : Outbox.fromJson json raw with
  | error e => exact .inr ⟨e, rfl⟩
  | ok restored =>
    have hsame := (fromJson_ok json h).1
    rw [hparse] at hsame
    rw [Except.ok.inj hsame]
    exact .inl rfl

theorem step_spec (op : Op) : Step q op (step json q op).2 (step json q op).1 := by
  cases op with
  | enqueue item =>
    simp only [step, Outbox.enqueue]
    split_ifs with h
    · exact .refused rfl fun _ _ => rfl
    · refine .pushed item fun e he heq => h ?_
      exact List.any_eq_true.mpr ⟨e, he, decide_eq_true heq⟩
  | claimReady nowMs =>
    simp only [step, Outbox.claimReady]
    cases h : updateFirst (fun item => item.ready nowMs) (fun item => (item.claim, item.id)) q.items
      with
    | none => exact .refused rfl fun _ _ => rfl
    | some r =>
      obtain ⟨before, a, after, hsplit, hbefore, ha, hitems, hanswer⟩ := updateFirst_eq_some h
      simp only [hitems, hanswer]
      exact .touched hsplit hbefore (.claimed ha)
  | updateProgress id percent =>
    refine step_withItem q id _ (fun e he => ⟨decide_eq_false he, rfl⟩) fun a ha => ?_
    by_cases hsending : a.state = .sending
    · rw [if_neg (not_not.mpr hsending)]
      exact .inr ⟨rfl, ha ▸ .progressed percent hsending⟩
    · exact .inl ⟨if_pos hsending, fun _ => rfl⟩
  | markDelivered id =>
    exact step_withItem q id _ (fun e he => ⟨decide_eq_false he, rfl⟩) fun a ha =>
      .inr ⟨rfl, ha ▸ .delivered⟩
  | markFailed id error policy nowMs =>
    exact step_withItem q id _ (fun e he => ⟨decide_eq_false he, decide_eq_false he.symm⟩) fun a ha =>
      .inr ⟨rfl, ha ▸ .failed error policy nowMs⟩
  | retryFailed id =>
    refine step_withItem q id _ (fun e he => ⟨decide_eq_false he, rfl⟩) fun a ha => ?_
    by_cases hfailed : a.state = .failed
    · rw [if_neg (not_not.mpr hfailed)]
      exact .inr ⟨rfl, ha ▸ .retried hfailed⟩
    · exact .inl ⟨if_pos hfailed, fun _ => rfl⟩
  | removeDelivered => exact .removed
  | reload =>
    simp only [step]
    obtain h | ⟨e, h⟩ := reload_cases json q
    · rw [h]
      exact .reloaded
    · rw [h]
      exact .refused rfl fun _ _ => rfl

variable {op : Op} {answer : Answer} {a b : QueueItem}

@[simp] theorem fail_id (a : QueueItem) (error : String) (policy : RetryPolicy) (nowMs : UInt64) :
    (a.fail error policy nowMs).id = a.id := by
  simp only [QueueItem.fail]
  split_ifs <;> rfl

@[simp] theorem fail_payload (a : QueueItem) (error : String) (policy : RetryPolicy)
    (nowMs : UInt64) : (a.fail error policy nowMs).payload = a.payload := by
  simp only [QueueItem.fail]
  split_ifs <;> rfl

theorem Touch.id_eq (h : Touch op answer a b) : b.id = a.id := by
  cases h <;> first | rfl | exact fail_id ..

theorem Touch.payload_eq (h : Touch op answer a b) : b.payload = a.payload := by
  cases h <;> first | rfl | exact fail_payload ..

theorem Touch.not_refused (h : Touch op answer a b) : refused answer = false := by
  cases h <;> rfl

theorem Touch.not_fails (h : Touch op answer a b) {id : String} (hid : a.id ≠ id) :
    failsWith id op = false := by
  cases h with
  | failed => exact decide_eq_false hid
  | _ => rfl

theorem Touch.claimed_id (h : Touch op answer a b) {id : String}
    (hanswer : answer = .claimed (some id)) : a.id = id := by
  cases h <;> cases hanswer
  rfl

end Steps

variable {q : Outbox} {id : String} {e : QueueItem}
variable {op : Op} {answer : Answer}

/-- The id stands once in the outbox, with this item. -/
def Holds (q : Outbox) (id : String) (e : QueueItem) : Prop :=
  q.items.filter (fun item => item.id = id) = [e]

theorem Holds.mem (h : Holds q id e) : e ∈ q.items ∧ e.id = id := by
  have hmem : e ∈ q.items.filter (fun item => item.id = id) := by
    rw [h]; exact List.mem_singleton_self e
  exact ⟨(List.mem_filter.mp hmem).1, of_decide_eq_true (List.mem_filter.mp hmem).2⟩

theorem Holds.eq_of_mem (h : Holds q id e) {x : QueueItem} (hx : x ∈ q.items) (hid : x.id = id) :
    x = e := by
  have hmem : x ∈ q.items.filter (fun item => item.id = id) :=
    List.mem_filter.mpr ⟨hx, decide_eq_true hid⟩
  rw [h] at hmem
  exact List.mem_singleton.mp hmem

/-- What one operation makes of the item of an id: nothing, and then no claim returned the id and no
failure of it was reported, or what the operation does to the items it finds. -/
inductive Evolves (op : Op) (answer : Answer) (e : QueueItem) : QueueItem → Prop
  | idle (hclaim : answer ≠ .claimed (some e.id)) (hfails : failsWith e.id op = false) :
      Evolves op answer e e
  | touched {b : QueueItem} (htouch : Touch op answer e b) : Evolves op answer e b

theorem Evolves.payload_eq {e e' : QueueItem} (h : Evolves op answer e e') :
    e'.payload = e.payload := by
  cases h with
  | idle hclaim hfails => rfl
  | touched htouch => exact htouch.payload_eq

/-- The operation takes the item with this id away, which it may once it is delivered. -/
def Removes (id : String) (q : Outbox) (op : Op) : Prop :=
  op = .removeDelivered ∧ ∃ e ∈ q.items, e.id = id ∧ e.state = .delivered

instance (op : Op) : Decidable (Removes id q op) := inferInstanceAs (Decidable (_ ∧ _))

theorem Step.forall_items {P : QueueItem → Prop} {q' : Outbox} (hstep : Step q op answer q')
    (hpushed : ∀ item, op = .enqueue item → (∀ e ∈ q.items, e.id ≠ item.id) → P item)
    (htouched : ∀ a b, Touch op answer a b → P a → P b) (h : ∀ e ∈ q.items, P e) :
    ∀ e ∈ q'.items, P e := by
  cases hstep with
  | pushed item hfresh =>
    intro e he
    rcases List.mem_append.mp he with he | he
    · exact h e he
    · rw [List.mem_singleton.mp he]
      exact hpushed item rfl hfresh
  | touched hsplit hfirst htouch =>
    rw [hsplit] at h
    intro e he
    rcases List.mem_append.mp he with he | he
    · exact h e (List.mem_append_left _ he)
    rcases List.mem_cons.mp he with rfl | he
    · exact htouched _ _ htouch (h _ (List.mem_append_right _ List.mem_cons_self))
    · exact h e (List.mem_append_right _ (List.mem_cons_of_mem _ he))
  | removed => exact fun e he => h e (List.mem_filter.mp he).1
  | reloaded => exact h
  | refused hrefused hmissed => exact h

theorem refused_claim (h : refused answer = true) (id : String) : answer ≠ .claimed (some id) := by
  rintro rfl
  cases h

theorem Step.holds {q' : Outbox} (hstep : Step q op answer q') (h : Holds q id e)
    (hkept : ¬ Removes id q op) : ∃ e', Holds q' id e' ∧ Evolves op answer e e' := by
  obtain ⟨hmem, hid⟩ := h.mem
  cases hstep with
  | pushed item hfresh =>
    refine ⟨e, ?_, .idle nofun rfl⟩
    have hother : decide (item.id = id) = false := decide_eq_false fun heq =>
      hfresh e hmem (hid.trans heq.symm)
    rw [Holds, List.filter_append, List.filter_singleton, hother, h]
    rfl
  | @touched op answer before after a b hsplit hfirst htouch =>
    rw [Holds, hsplit, List.filter_append] at h
    by_cases ha : a.id = id
    · -- what the operation has found is the item of the id
      have hb : b.id = id := htouch.id_eq.trans ha
      rw [List.filter_cons_of_pos (by simpa using ha)] at h
      obtain ⟨hbefore, hrest⟩ | ⟨-, ⟨⟩⟩ := List.append_eq_singleton_iff.mp h
      obtain ⟨rfl, hafter⟩ := List.cons.inj hrest
      refine ⟨b, ?_, .touched htouch⟩
      rw [Holds, List.filter_append, List.filter_cons_of_pos (by simpa using hb), hbefore, hafter]
      rfl
    · have hb : ¬ b.id = id := htouch.id_eq ▸ ha
      refine ⟨e, ?_, .idle (fun hclaim => ha ((htouch.claimed_id hclaim).trans hid)) ?_⟩
      · rw [List.filter_cons_of_neg (by simpa using ha)] at h
        rw [Holds, List.filter_append, List.filter_cons_of_neg (by simpa using hb), h]
      · exact htouch.not_fails (hid ▸ ha)
  | removed =>
    refine ⟨e, ?_, .idle nofun rfl⟩
    have hstays : decide (e.state ≠ .delivered) = true :=
      decide_eq_true fun hdelivered => hkept ⟨rfl, e, hmem, hid, hdelivered⟩
    rw [Holds, Outbox.removeDelivered, List.filter_comm, h, List.filter_singleton, hstays]
    rfl
  | reloaded => exact ⟨e, h, .idle nofun rfl⟩
  | refused hrefused hmissed => exact ⟨e, h, .idle (refused_claim hrefused e.id) (hmissed e hmem)⟩

end Mst5Client.OutboxRuns
