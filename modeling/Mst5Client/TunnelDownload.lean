import Mst5Client.BrowserRecords
import Mst5Client.HttpMessages

set_option autoImplicit false

/-!
# The download half of the M5oH tunnel, native and in the browser

`download_loop` of `m5oh.rs` asks the router for the answers `0, 1, 2, ..` and writes their bodies
to the local socket; `fetch` of `wasm/src/lib.rs` returns one body for each answer.
-/
namespace Mst5Client.TunnelDownload
open ByteOrder IoResult IdentityMessages BrowserRecords HttpResponses HttpMessages
open AccountClient (trim)

section Native

/-- One exchange over HTTP: the router's answer to the sequence number, an error before any answer, or
anything else. -/
inductive Exchange where
  | answered
  | broken (e : IoError)
  | other (incoming : Incoming)

/-- What one pass through the loop meets. A write that fails has taken some bytes. -/
structure Turn where
  attempt : Exchange
  reconnect : Except IoError Unit
  retry : Exchange
  write : Except (ℕ × IoError) Unit
  shutdown : Except IoError Unit
  reopen : Except IoError Unit

/-- `unread` is left of the connection, `written` has gone to the local socket. -/
structure Download where
  sequence : ℕ
  unread : Bytes
  written : Bytes

def Download.start : Download := ⟨0, [], []⟩

inductive Ending where
  | failed (e : IoError)
  | ended (result : Except IoError Unit)

def Exchange.arriving (router : ℕ → HttpMessage) (sequence : ℕ) : Exchange → Except IoError Incoming
  | .answered => .ok ⟨(router sequence).encode, none⟩
  | .broken e => .error e
  | .other incoming => .ok incoming

def ends (response : HttpResponse) : Bool := response.headers.lookup "x-mst5-eof" = some "1"

def Download.deliver (d : Download) (body : Bytes) (write : Except (ℕ × IoError) Unit) :
    Download × Except IoError Unit :=
  if body = [] then (d, .ok ())
  else
    match write with
    | .ok () => ({ d with written := d.written ++ body }, .ok ())
    | .error (taken, e) => ({ d with written := d.written ++ body.take taken }, .error e)

def sequenceExhausted : IoError := ⟨.other, "M5oH download sequence exhausted"⟩

variable (lossy : Bytes → String) (router : ℕ → HttpMessage)

def Download.requestOn (d : Download) (exchange : Exchange) :
    Download × Except IoError HttpResponse :=
  match exchange.arriving router d.sequence with
  | .error e => (d, .error e)
  | .ok incoming =>
    match readResponse ⟨d.unread ++ incoming.bytes, incoming.failure⟩ with
    | .error e => (d, .error e)
    | .ok (response, rest) => ({ d with unread := rest.bytes }, response.accepted lossy)

def Download.request (d : Download) (t : Turn) : Download × Except IoError HttpResponse :=
  match d.requestOn lossy router t.attempt with
  | (d, .ok response) => (d, .ok response)
  | (d, .error _) =>
    match t.reconnect with
    | .error e => (d, .error e)
    | .ok () => { d with unread := [] }.requestOn lossy router t.retry

def Download.advance (d : Download) (response : HttpResponse) (t : Turn) :
    Download × Option Ending :=
  match checkedAdd d.sequence 1 with
  | none => (d, some (.failed sequenceExhausted))
  | some sequence =>
    let d := { d with sequence := sequence }
    if ends response then (d, some (.ended t.shutdown))
    else if response.closes then
      match t.reopen with
      | .error e => (d, some (.failed e))
      | .ok () => ({ d with unread := [] }, none)
    else (d, none)

def Download.receive (d : Download) (response : HttpResponse) (t : Turn) :
    Download × Option Ending :=
  match d.deliver response.body t.write with
  | (d, .error e) => (d, some (.failed e))
  | (d, .ok ()) => d.advance response t

def Download.turn (d : Download) (t : Turn) : Download × Option Ending :=
  match d.request lossy router t with
  | (d, .error e) => (d, some (.failed e))
  | (d, .ok response) => d.receive response t

def Download.run (d : Download) : List Turn → Download × Option Ending
  | [] => (d, none)
  | t :: turns =>
    match d.turn lossy router t with
    | (d, some ending) => (d, some ending)
    | (d, none) => d.run turns

def downloadLoop (opened : Except IoError Unit) (turns : List Turn) : Download × Option Ending :=
  match opened with
  | .error e => (Download.start, some (.failed e))
  | .ok () => Download.start.run lossy router turns

-- `get` is `Headers.get` of the browser
variable (get : List (String × String) → String → Option String)

/-- The status that the browser asks of an answer. -/
def Marked (m : HttpMessage) : Prop := get m.fields "X-MST5-Status" = some "OK"

instance (m : HttpMessage) : Decidable (Marked get m) := inferInstanceAs (Decidable (_ = _))

def fetch (m : HttpMessage) : Except JsError Bytes :=
  if ¬ (200 ≤ m.status ∧ m.status ≤ 299) then .error ⟨"M5oH HTTP " ++ toString m.status⟩
  else if Marked get m then .ok []
  else .ok m.body

end Native

def answers (router : ℕ → HttpMessage) (sequence count : ℕ) : List HttpMessage :=
  (List.range' sequence count).map router

/-- The answers that are asked for: the native client stops after one that ends the stream. -/
def upToEof : List HttpMessage → List HttpMessage
  | [] => []
  | m :: ms => m :: if ends m.response then [] else upToEof ms

theorem answers_succ (router : ℕ → HttpMessage) (sequence count : ℕ) :
    answers router sequence (count + 1) = router sequence :: answers router (sequence + 1) count := by
  rw [answers, List.range'_succ, List.map_cons]
  rfl

variable {lossy : Bytes → String} {router : ℕ → HttpMessage} {d : Download} {t : Turn}
variable {m : HttpMessage} {ms : List HttpMessage}

/-- What arrives is the router's answer, or it makes the request fail. -/
def Exchange.Honest : Exchange → Prop
  | .other incoming => ∀ response rest, readResponse incoming = .ok (response, rest) →
    response.status ≠ 200
  | _ => True

theorem requestOn_kept (lossy : Bytes → String) (router : ℕ → HttpMessage) (d : Download)
    (exchange : Exchange) :
    (d.requestOn lossy router exchange).1.sequence = d.sequence ∧
      (d.requestOn lossy router exchange).1.written = d.written := by
  simp only [Download.requestOn]
  split
  · exact ⟨rfl, rfl⟩
  · split
    · exact ⟨rfl, rfl⟩
    · exact ⟨rfl, rfl⟩

/-- What the native client can take of an answer. -/
def Acceptable (m : HttpMessage) : Prop := m.status = 200 ∧ m.Fits

instance (m : HttpMessage) : Decidable (Acceptable m) := inferInstanceAs (Decidable (_ ∧ _))

theorem requestOn_answered (hunread : d.unread = []) :
    Acceptable (router d.sequence) ∧ d.requestOn lossy router .answered =
        ({ d with unread := (router d.sequence).trailing }, .ok (router d.sequence).response) ∨
      ¬ Acceptable (router d.sequence) ∧ ∃ e, (d.requestOn lossy router .answered).2 = .error e := by
  have hread := readResponse_encode (router d.sequence) [] none
  simp only [List.append_nil] at hread
  simp only [Download.requestOn, HttpResponse.accepted, Exchange.arriving, hunread, List.nil_append]
  obtain ⟨hfits, hok⟩ | ⟨hfits, e, herror⟩ := hread
  · rw [hok]
    dsimp only [HttpMessage.response]
    by_cases hstatus : (router d.sequence).status = 200
    · rw [if_neg (not_not.mpr hstatus)]
      exact .inl ⟨⟨hstatus, hfits⟩, rfl⟩
    · rw [if_pos hstatus]
      exact .inr ⟨fun h => hstatus h.1, _, rfl⟩
  · rw [herror]
    exact .inr ⟨fun h => hfits h.2, e, rfl⟩

theorem requestOn_honest (hunread : d.unread = []) {exchange : Exchange} (hhonest : exchange.Honest)
    {response : HttpResponse} (h : (d.requestOn lossy router exchange).2 = .ok response) :
    (router d.sequence).status = 200 ∧ d.requestOn lossy router exchange =
      ({ d with unread := (router d.sequence).trailing }, .ok (router d.sequence).response) := by
  cases exchange with
  | answered =>
    obtain ⟨hrouter, hok⟩ | ⟨-, e, herror⟩ := requestOn_answered hunread
    · exact ⟨hrouter.1, hok⟩
    · rw [herror] at h
      cases h
  | broken e => cases h
  | other incoming =>
    simp only [Download.requestOn, HttpResponse.accepted, Exchange.arriving, hunread,
      List.nil_append] at h
    split at h
    · cases h
    · rename_i other rest hread
      rw [if_pos (hhonest other rest hread)] at h
      cases h

theorem request_cases (hunread : d.unread = []) :
    (∃ response, (d.requestOn lossy router t.attempt).2 = .ok response ∧
        d.request lossy router t = d.requestOn lossy router t.attempt) ∨
      (∃ e, (d.requestOn lossy router t.attempt).2 = .error e) ∧
        ((∃ e, t.reconnect = .error e ∧ (d.request lossy router t).2 = .error e) ∨
          d.request lossy router t = d.requestOn lossy router t.retry) := by
  have hkept := requestOn_kept lossy router d t.attempt
  rw [Download.request]
  cases hfirst : d.requestOn lossy router t.attempt with
  | mk f result =>
    cases result with
    | ok response => exact .inl ⟨response, rfl, rfl⟩
    | error e =>
      refine .inr ⟨⟨e, rfl⟩, ?_⟩
      cases hreconnect : t.reconnect with
      | error e' => exact .inl ⟨e', rfl, rfl⟩
      | ok _ =>
        rw [hfirst] at hkept
        have hagain : ({ f with unread := [] } : Download) = d := by
          obtain ⟨sequence, unread, written⟩ := d
          obtain ⟨rfl, rfl⟩ := hkept
          rw [show unread = [] from hunread]
        refine .inr ?_
        simp only [hagain]

theorem request_honest (hunread : d.unread = []) (hhonest : t.attempt.Honest ∧ t.retry.Honest)
    {response : HttpResponse} (h : (d.request lossy router t).2 = .ok response) :
    (router d.sequence).status = 200 ∧ d.request lossy router t =
      ({ d with unread := (router d.sequence).trailing }, .ok (router d.sequence).response) := by
  obtain ⟨first, hfirst, hrequest⟩ | ⟨-, ⟨e, -, herror⟩ | hrequest⟩ := request_cases hunread
  · rw [hrequest]
    exact requestOn_honest hunread hhonest.1 hfirst
  · rw [herror] at h
    cases h
  · rw [hrequest] at h ⊢
    exact requestOn_honest hunread hhonest.2 h

theorem deliver_cases (d : Download) (body : Bytes) (write : Except (ℕ × IoError) Unit) :
    d.deliver body write = ({ d with written := d.written ++ body }, .ok ()) ∨
      write ≠ .ok () ∧ ∃ f e, d.deliver body write = (f, .error e) := by
  simp only [Download.deliver]
  by_cases hbody : body = []
  · rw [if_pos hbody, hbody, List.append_nil]
    exact .inl rfl
  · rw [if_neg hbody]
    cases write with
    | error e => exact .inr ⟨nofun, _, _, rfl⟩
    | ok _ => exact .inl rfl

def carried (response : HttpResponse) (unread : Bytes) : Bytes :=
  if ends response = false ∧ response.closes then [] else unread

theorem advance_cases (d : Download) (response : HttpResponse) (t : Turn) :
    d.advance response t = (⟨d.sequence + 1, carried response d.unread, d.written⟩,
        if ends response then some (.ended t.shutdown) else none) ∨
      ¬ (d.sequence + 1 < 2 ^ 64 ∧ t.reopen = .ok ()) ∧ ∃ e,
        (d.advance response t).2 = some (.failed e) := by
  rw [Download.advance, carried]
  by_cases hsequence : d.sequence + 1 < 2 ^ 64
  · rw [checkedAdd_of_lt hsequence]
    cases ends response with
    | true => exact .inl rfl
    | false =>
      cases response.closes with
      | true =>
        cases hreopen : t.reopen with
        | error e => exact .inr ⟨nofun, e, rfl⟩
        | ok _ => exact .inl rfl
      | false => exact .inl rfl
  · rw [checkedAdd_of_le (Nat.le_of_not_lt hsequence)]
    exact .inr ⟨fun h => hsequence h.1, _, rfl⟩

def Download.next (d : Download) (m : HttpMessage) (t : Turn) : Download × Option Ending :=
  (⟨d.sequence + 1, carried m.response m.trailing, d.written ++ m.announced⟩,
    if ends m.response then some (.ended t.shutdown) else none)

theorem receive_cases (d : Download) (m : HttpMessage) (t : Turn) :
    { d with unread := m.trailing }.receive m.response t = d.next m t ∨
      ¬ (t.write = .ok () ∧ d.sequence + 1 < 2 ^ 64 ∧ t.reopen = .ok ()) ∧
        ∃ e, ({ d with unread := m.trailing }.receive m.response t).2 = some (.failed e) := by
  rw [Download.receive]
  obtain hok | ⟨hwrite, f, e, herror⟩ :=
    deliver_cases { d with unread := m.trailing } m.response.body t.write
  · rw [hok]
    obtain hnext | ⟨hstopped, herror⟩ :=
      advance_cases ⟨d.sequence, m.trailing, d.written ++ m.announced⟩ m.response t
    · exact .inl hnext
    · exact .inr ⟨fun h => hstopped h.2, herror⟩
  · rw [herror]
    exact .inr ⟨fun h => hwrite h.1, e, rfl⟩

theorem turn_honest (hunread : d.unread = []) (hhonest : t.attempt.Honest ∧ t.retry.Honest)
    (hturn : ∀ e, (d.turn lossy router t).2 ≠ some (.failed e)) :
    (router d.sequence).status = 200 ∧ d.turn lossy router t = d.next (router d.sequence) t := by
  cases hrequest : d.request lossy router t with
  | mk f result =>
    cases result with
    | error e =>
      rw [Download.turn, hrequest] at hturn
      exact absurd rfl (hturn e)
    | ok response =>
      obtain ⟨hstatus, hok⟩ := request_honest hunread hhonest (congrArg Prod.snd hrequest)
      rw [Download.turn, hok] at hturn ⊢
      obtain hnext | ⟨-, e, herror⟩ := receive_cases d (router d.sequence) t
      · exact ⟨hstatus, hnext⟩
      · exact absurd herror (hturn e)

/-- Of the two attempts one is answered, and nothing else fails. -/
structure Turn.Recovers (t : Turn) : Prop where
  answered : t.attempt = .answered ∨ t.reconnect = .ok () ∧ t.retry = .answered
  write : t.write = .ok ()
  reopen : t.reopen = .ok ()

theorem turn_recovers (hunread : d.unread = []) (hrouter : Acceptable (router d.sequence))
    (hsequence : d.sequence + 1 < 2 ^ 64) (hhonest : t.attempt.Honest ∧ t.retry.Honest)
    (hrecovers : t.Recovers) : d.turn lossy router t = d.next (router d.sequence) t := by
  have hanswered : d.requestOn lossy router .answered =
      ({ d with unread := (router d.sequence).trailing }, .ok (router d.sequence).response) := by
    obtain ⟨-, hok⟩ | ⟨hbad, -⟩ := requestOn_answered hunread
    · exact hok
    · exact absurd hrouter hbad
  have hrequest : d.request lossy router t =
      ({ d with unread := (router d.sequence).trailing }, .ok (router d.sequence).response) := by
    obtain ⟨first, hfirst, hrequest⟩ | ⟨⟨e, hfailed⟩, hrequest⟩ := request_cases hunread
    · rw [hrequest]
      exact (requestOn_honest hunread hhonest.1 hfirst).2
    · obtain hattempt | ⟨hreconnect, hretry⟩ := hrecovers.answered
      · rw [hattempt, hanswered] at hfailed
        cases hfailed
      · obtain ⟨e', herror, -⟩ | hrequest := hrequest
        · rw [hreconnect] at herror
          cases herror
        · rw [hrequest, hretry]
          exact hanswered
  rw [Download.turn, hrequest]
  obtain hnext | ⟨hstopped, -⟩ := receive_cases d (router d.sequence) t
  · exact hnext
  · exact absurd ⟨hrecovers.write, hsequence, hrecovers.reopen⟩ hstopped

theorem next_announced (d : Download) (h : m.trailing = []) (t : Turn) :
    (d.next m t).1 = ⟨d.sequence + 1, [], d.written ++ m.body⟩ := by
  have hbody := announced_append_trailing m
  rw [h, List.append_nil] at hbody
  rw [Download.next, carried, h, hbody, ite_self]

variable {turns : List Turn}

theorem run_next {t : Turn} (hnext : d.turn lossy router t = d.next (router d.sequence) t) :
    d.run lossy router (t :: turns) =
      if ends (router d.sequence).response then d.next (router d.sequence) t
      else (d.next (router d.sequence) t).1.run lossy router turns := by
  rw [Download.run, hnext, Download.next]
  cases ends (router d.sequence).response with
  | true => rfl
  | false => rfl

theorem forall_upToEof_cons {P : HttpMessage → Prop} :
    (∀ x ∈ upToEof (m :: ms), P x) ↔ P m ∧ (ends m.response = false → ∀ x ∈ upToEof ms, P x) := by
  rw [upToEof, List.forall_mem_cons]
  cases ends m.response with
  | true => simp
  | false => simp

theorem run_honest (hhonest : ∀ t ∈ turns, t.attempt.Honest ∧ t.retry.Honest)
    (hunread : d.unread = [])
    (hframed : ∀ m ∈ upToEof (answers router d.sequence turns.length), m.trailing = [])
    (hrun : ∀ e, (d.run lossy router turns).2 ≠ some (.failed e)) :
    (∀ m ∈ upToEof (answers router d.sequence turns.length), m.status = 200) ∧
      (d.run lossy router turns).1.written =
        d.written ++ (upToEof (answers router d.sequence turns.length)).flatMap HttpMessage.body := by
  induction turns generalizing d with
  | nil => exact ⟨nofun, (List.append_nil _).symm⟩
  | cons t turns ih =>
    rw [List.length_cons, answers_succ, forall_upToEof_cons] at hframed ⊢
    have hturn : ∀ e, (d.turn lossy router t).2 ≠ some (.failed e) := by
      intro e hfailed
      refine hrun e ?_
      rw [Download.run, ← Prod.mk.eta (p := d.turn lossy router t), hfailed]
    obtain ⟨hstatus, hnext⟩ := turn_honest hunread (hhonest t List.mem_cons_self) hturn
    rw [run_next hnext] at hrun ⊢
    rw [next_announced d hframed.1 t] at hrun ⊢
    rw [upToEof]
    cases hends : ends (router d.sequence).response with
    | true =>
      refine ⟨⟨hstatus, nofun⟩, ?_⟩
      rw [if_pos rfl, next_announced d hframed.1 t]
      simp only [if_true, List.flatMap_cons, List.flatMap_nil, List.append_nil]
    | false =>
      rw [hends] at hrun
      have hafter : (⟨d.sequence + 1, [], d.written ++ (router d.sequence).body⟩ :
        Download).unread = [] := rfl
      obtain ⟨hrest, hwritten⟩ :=
        ih (fun u hu => hhonest u (List.mem_cons_of_mem t hu)) hafter (hframed.2 hends) hrun
      refine ⟨⟨hstatus, fun _ => hrest⟩, hwritten.trans ?_⟩
      simp only [Bool.false_eq_true, if_false, List.flatMap_cons, List.append_assoc]

theorem run_recovers (hhonest : ∀ t ∈ turns, t.attempt.Honest ∧ t.retry.Honest)
    (hrecovers : ∀ t ∈ turns, t.Recovers) (hunread : d.unread = [])
    (hframed : ∀ m ∈ upToEof (answers router d.sequence turns.length), m.trailing = [])
    (hrouter : ∀ m ∈ upToEof (answers router d.sequence turns.length), Acceptable m)
    (hsequence : d.sequence + turns.length < 2 ^ 64) (e : IoError) :
    (d.run lossy router turns).2 ≠ some (.failed e) := by
  induction turns generalizing d with
  | nil => exact nofun
  | cons t turns ih =>
    rw [List.length_cons] at hframed hrouter hsequence
    rw [answers_succ, forall_upToEof_cons] at hframed hrouter
    have hnext : d.turn lossy router t = d.next (router d.sequence) t :=
      turn_recovers hunread hrouter.1 (by omega) (hhonest t List.mem_cons_self)
        (hrecovers t List.mem_cons_self)
    rw [run_next hnext, next_announced d hframed.1 t]
    cases hends : ends (router d.sequence).response with
    | true =>
      rw [if_pos rfl, Download.next, hends]
      exact nofun
    | false =>
      refine ih (fun u hu => hhonest u (List.mem_cons_of_mem t hu))
        (fun u hu => hrecovers u (List.mem_cons_of_mem t hu))
        rfl (hframed.2 hends) (hrouter.2 hends) ?_
      dsimp only
      omega

variable {get : List (String × String) → String → Option String}

def shown (get : List (String × String) → String → Option String) (m : HttpMessage) : Bytes :=
  if Marked get m then [] else m.body

theorem shown_length_le (m : HttpMessage) : (shown get m).length ≤ m.body.length := by
  rw [shown]
  split_ifs with hmarked
  · exact Nat.zero_le _
  · exact le_rfl

theorem mapM_fetch (hstatus : ∀ m ∈ ms, m.status = 200) :
    ms.mapM (fetch get) = .ok (ms.map (shown get)) := by
  induction ms with
  | nil => rfl
  | cons m ms ih =>
    have hfetch : fetch get m = .ok (shown get m) := by
      rw [fetch, shown, hstatus m List.mem_cons_self, if_neg (by decide)]
      split_ifs with hmarked
      · rfl
      · rfl
    rw [List.mapM_cons, bind_of_ok hfetch,
      bind_of_ok (ih fun x hx => hstatus x (List.mem_cons_of_mem m hx))]
    rfl

theorem flatMap_shown_length_le (ms : List HttpMessage) :
    (ms.flatMap (shown get)).length ≤ (ms.flatMap HttpMessage.body).length := by
  induction ms with
  | nil => exact le_rfl
  | cons m ms ih =>
    rw [List.flatMap_cons, List.flatMap_cons, List.length_append, List.length_append]
    exact Nat.add_le_add (shown_length_le m) ih

theorem flatMap_body_eq_shown_iff (ms : List HttpMessage) :
    ms.flatMap HttpMessage.body = ms.flatMap (shown get) ↔ ∀ m ∈ ms, Marked get m → m.body = [] := by
  induction ms with
  | nil => exact ⟨fun _ => nofun, fun _ => rfl⟩
  | cons m ms ih =>
    rw [List.flatMap_cons, List.flatMap_cons, List.forall_mem_cons, shown]
    by_cases hmarked : Marked get m
    · rw [if_pos hmarked, List.nil_append]
      constructor
      · intro heq
        have hlength := congrArg List.length heq
        rw [List.length_append] at hlength
        have hle : (ms.flatMap (shown get)).length ≤ _ := flatMap_shown_length_le ms
        have hbody : m.body = [] := List.length_eq_zero_iff.mp (by omega)
        rw [hbody, List.nil_append] at heq
        exact ⟨fun _ => hbody, ih.mp heq⟩
      · rintro ⟨hbody, hrest⟩
        rw [hbody hmarked, List.nil_append]
        exact ih.mpr hrest
    · rw [if_neg hmarked, List.append_cancel_left_eq, ih]
      exact ⟨fun h => ⟨fun hm => absurd hm hmarked, h⟩, And.right⟩

/-- The values of a field in any case, as the Fetch standard joins them. -/
def combinedValue (fields : List (String × String)) (name : String) : Option String :=
  match fields.filter fun field => lower field.1 = lower name with
  | [] => none
  | found => some (", ".intercalate (found.map fun field => trim field.2))

def shownText (bytes : Bytes) : String := (String.fromUTF8? ⟨bytes.toArray⟩).getD ""

def okAnswer (fields : List (String × String)) (body : Bytes)
    (hnames : ∀ field ∈ fields, ':' ∉ field.1.toList)
    (hlines : ∀ field ∈ fields, lineFeed ∉ utf8 (fieldLine field))
    (hlength : ((headersOf fields).lookup "content-length").isSome →
      contentLength (headersOf fields) = .ok body.length) : HttpMessage :=
  ⟨200, "200", "OK", fields, body, by decide +kernel, by decide, by decide +kernel, hnames, hlines,
    hlength⟩

def idleAnswer : HttpMessage :=
  okAnswer [("x-mst5-status", " OK"), ("Content-Length", " 0"), ("Connection", " close")] []
    (by decide) (by decide +kernel) (by decide +kernel)

def lastAnswer : HttpMessage :=
  okAnswer [("Content-Length", " 4"), ("X-MST5-EOF", " 1")] (utf8 "RSP5")
    (by decide) (by decide +kernel) (by decide +kernel)

/-- An empty poll as the router answers it, with a body that is no part of the stream. -/
def markedAnswer : HttpMessage :=
  okAnswer [("Content-Length", " 2"), ("X-MST5-Status", " OK"), ("X-MST5-EOF", " 1")] (utf8 "OK")
    (by decide) (by decide +kernel) (by decide +kernel)

def unannouncedAnswer : HttpMessage :=
  okAnswer [("X-MST5-EOF", " 1"), ("Connection", " close")] (utf8 "RSP5")
    (by decide) (by decide +kernel) (by decide +kernel)

def retriedTurn : Turn :=
  ⟨.broken ⟨.connectionAborted, "reset"⟩, .ok (), .answered, .ok (), .ok (), .ok ()⟩

theorem retriedTurn_recovers : retriedTurn.Recovers := ⟨.inr ⟨rfl, rfl⟩, rfl, rfl⟩

theorem downloadLoop_last {lossy : Bytes → String} (haccept : Acceptable m)
    (hends : ends m.response = true) :
    downloadLoop lossy (fun _ => m) (.ok ()) [retriedTurn] = Download.start.next m retriedTurn := by
  have hturn : Download.start.turn lossy (fun _ => m) retriedTurn = Download.start.next m retriedTurn :=
    turn_recovers rfl haccept (by decide) ⟨trivial, trivial⟩ retriedTurn_recovers
  exact (run_next hturn).trans (if_pos hends)

end Mst5Client.TunnelDownload
