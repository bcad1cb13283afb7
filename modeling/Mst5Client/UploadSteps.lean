import Mst5Client.MediaStreams

set_option autoImplicit false

/-!
# Steps of the uploads

What the calls of an upload leave in its log, whatever their answers, and what the parts of an
upload do when everything is taken.
-/
namespace Mst5Client.UploadSteps
open ByteOrder IoResult ProgramEnvironments CborValues ConnectionState
open MediaStreams

variable {log : List StreamEvent}

def dataPayload : StreamOp → Option Bytes
  | .send kind _ payload => if kind = kindStreamData then some payload else none
  | _ => none

def dataOf (log : List StreamEvent) : List Bytes := log.filterMap fun e => dataPayload e.op

def failedData : StreamEvent → Bool
  | ⟨.send kind _ _, .error _⟩ => kind = kindStreamData
  | _ => false

def Delivered (log : List StreamEvent) : Prop := ∀ e ∈ log, failedData e = false

theorem dataOf_append (log new : List StreamEvent) :
    dataOf (log ++ new) = dataOf log ++ dataOf new :=
  List.filterMap_append

theorem delivered_append {log new : List StreamEvent} :
    Delivered (log ++ new) ↔ Delivered log ∧ Delivered new := by
  simp only [Delivered, List.forall_mem_append]

def Idle (log : List StreamEvent) : Prop := ∀ e ∈ log, isEnd e.op = false ∧ dataPayload e.op = none

theorem Idle.quiet (h : Idle log) : Quiet log := fun e he => (h e he).1

theorem Idle.data (h : Idle log) : dataOf log = [] := by
  rw [dataOf, List.filterMap_eq_nil_iff]
  exact fun e he => (h e he).2

theorem Idle.delivered (h : Idle log) : Delivered log := by
  intro e he
  have hdata := (h e he).2
  unfold failedData
  split
  · simp only [dataPayload, ite_eq_right_iff, reduceCtorEq, imp_false] at hdata
    exact decide_eq_false hdata
  · rfl

theorem quiet_split {before after first last : List StreamEvent} {e ending : StreamEvent}
    (hfirst : Quiet first) (hlast : Quiet last) (he : isEnd e.op = true)
    (h : first ++ ending :: last = before ++ e :: after) : before = first ∧ e = ending := by
  obtain ⟨mid, hmid, htail⟩ | ⟨mid, hmid, htail⟩ := List.append_eq_append_iff.mp h
  · cases mid with
    | nil =>
      cases htail
      exact ⟨hmid.trans (List.append_nil first), rfl⟩
    | cons m mid =>
      cases htail
      have hquiet := hlast e (List.mem_append_right mid List.mem_cons_self)
      rw [he] at hquiet
      cases hquiet
  · cases mid with
    | nil =>
      cases htail
      exact ⟨((List.append_nil before).symm.trans hmid.symm), rfl⟩
    | cons m mid =>
      cases htail
      have hquiet := hfirst e (by rw [hmid]; exact List.mem_append_right before List.mem_cons_self)
      rw [he] at hquiet
      cases hquiet

variable {bits : ℕ} {client : MediaClient} {now : ℕ}

theorem throw_spec {α : Type} {p : StreamProg Unit} {event : StreamEvent} (error : IoError)
    (h : Ensures log (fun log' _ => log' = log ++ [event]) p) :
    Ensures log (fun log' x => log' = log ++ [event] ∧ x = .error error)
      (do ExceptT.lift p; throw error : Transfer α).run := by
  refine Ensures.tryBind (Q := fun log' x => log' = log ++ [event] ∧ x = .ok ()) ?_ ?_ ?_
  · exact Ensures.lift (h.mono fun _ _ hlog => ⟨hlog, rfl⟩)
  · rintro _ _ ⟨rfl, -⟩
    exact ⟨rfl, rfl⟩
  · rintro _ e ⟨-, h⟩
    cases h

theorem refuse_spec {α : Type} (status : ℕ) (error : IoError) :
    Ensures log (fun log' x => log' = log ++ [⟨.abort status, ()⟩] ∧ x = .error error)
      (refuse status error : Transfer α).run := throw_spec error (Ensures.perform fun _ => rfl)

theorem reject_spec (error : IoError) :
    Ensures log (fun log' x => log' = log ++ [⟨.remove, ()⟩] ∧ x = .error error)
      (do remove; throw error : Transfer Unit).run := throw_spec error (Ensures.perform fun _ => rfl)

theorem orAbort_spec (status : ℕ) (event : Except IoError Unit → StreamEvent) {p : Transfer Unit}
    (h : Ensures log (fun log' x => log' = log ++ [event x]) p.run) :
    Ensures log (fun log' x => (x = .ok () ∧ log' = log ++ [event (.ok ())]) ∨
      ∃ e, x = .error e ∧ log' = log ++ [event (.error e), ⟨.abort status, ()⟩])
        (orAbort status p).run := by
  refine h.tryCatch ?_ ?_
  · rintro _ _ rfl
    exact .inl ⟨rfl, rfl⟩
  · rintro _ e rfl
    refine (refuse_spec status e).mono ?_
    rintro _ _ ⟨rfl, rfl⟩
    exact .inr ⟨e, rfl, List.append_assoc _ _ _⟩

theorem sendData_spec (payload : Bytes) :
    Ensures log (fun log' x =>
      (x = .ok () ∧ log' = log ++ [⟨.send kindStreamData 0 payload, .ok ()⟩]) ∨
        ∃ e, x = .error e ∧ log' = log ++ [⟨.send kindStreamData 0 payload, .error e⟩,
      ⟨.abort 500, ()⟩]) (sendData payload).run :=
  orAbort_spec 500 (fun x => ⟨.send kindStreamData 0 payload, x⟩) (Ensures.perform fun _ => rfl)

def Opened (log : List StreamEvent) : Prop :=
  ∃ deadlineMs payload id ack rest, ack.id = id ∧ ack.kind = kindAck ∧ ack.code = 100 ∧
    log = ⟨.begin kindStreamOpen mediaOpUpload deadlineMs payload, .ok id⟩ :: ⟨.recv, .ok ack⟩ :: rest

theorem openUpload_spec (fields : List (String × Value)) :
    Ensures [] (fun log x =>
      (∃ deadlineMs payload id ack, x = .ok ack ∧
        log = [⟨.begin kindStreamOpen mediaOpUpload deadlineMs payload, .ok id⟩, ⟨.recv, .ok ack⟩]) ∨
      ∃ e, x = .error e ∧ ¬ Opened log) (openUpload client now fields).run := by
  refine Ensures.tryBind (Ensures.perform (Q := fun log' x => log' = [] ++ [⟨_, x⟩]) fun _ => rfl) ?_ ?_
  · rintro _ id rfl
    refine Ensures.tryBind (Ensures.perform (Q := fun log' x => log' = _ ++ [⟨_, x⟩]) fun _ => rfl)
      ?_ ?_
    · rintro _ ack rfl
      unfold ensure
      split_ifs with hack
      · exact .inl ⟨_, _, id, ack, rfl, rfl⟩
      · refine ((reject_spec _).stop _).mono ?_
        rintro _ _ ⟨rfl, rfl⟩
        refine .inr ⟨_, rfl, ?_⟩
        rintro ⟨_, _, _, _, _, hid, hkind, hcode, heq⟩
        cases heq
        exact hack (decide_eq_true ⟨hid, hkind, hcode⟩)
    · rintro _ e rfl
      refine .inr ⟨e, rfl, ?_⟩
      rintro ⟨_, _, _, _, _, -, -, -, heq⟩
      cases heq
  · rintro _ e rfl
    refine .inr ⟨e, rfl, ?_⟩
    rintro ⟨_, _, _, _, _, -, -, -, heq⟩
    cases heq

theorem not_opened_nil : ¬ Opened [] := by
  rintro ⟨_, _, _, _, _, -, -, -, h⟩
  cases h

theorem checkMedia_spec : Ensures log (fun log' _ => log' = log) (checkMedia client).run := by
  unfold checkMedia ensure
  split_ifs
  · rfl
  · rfl

theorem idle_opening {deadlineMs : ℕ} {payload : Bytes} {id : ℕ} {ack : Frame} :
    Idle [⟨.begin kindStreamOpen mediaOpUpload deadlineMs payload, .ok id⟩, ⟨.recv, .ok ack⟩] := by
  intro e he
  obtain rfl | he := List.mem_cons.mp he
  · exact ⟨rfl, rfl⟩
  · rw [List.mem_singleton.mp he]
    exact ⟨rfl, rfl⟩

theorem finishUpload_spec (ending : Value) :
    Ensures log (fun log' _ => ∃ answer rest, Idle rest ∧
      log' = log ++ ⟨.send kindStreamEnd 200 (encodeCbor ending), answer⟩ :: rest)
        (finishUpload bits ending).run := by
  refine Ensures.tryBind (Ensures.perform (Q := fun log' x => log' = log ++ [⟨_, x⟩]) fun _ => rfl)
    ?_ ?_
  · rintro _ _ rfl
    have hrecv : ∀ r : Except IoError Frame, Idle [⟨.recv, r⟩] := by
      intro r e he
      rw [List.mem_singleton.mp he]
      exact ⟨rfl, rfl⟩
    refine Ensures.tryBind (Ensures.perform (Q := fun log' x => log' = _ ++ [⟨_, x⟩]) fun _ => rfl)
      ?_ ?_
    · rintro _ frame rfl
      exact ⟨_, _, hrecv (.ok frame), List.append_assoc _ _ _⟩
    · rintro _ e rfl
      exact ⟨_, _, hrecv (.error e), List.append_assoc _ _ _⟩
  · rintro _ e rfl
    exact ⟨_, [], fun _ he => absurd he List.not_mem_nil, rfl⟩

variable {id : ℕ} {ack last : Frame}

theorem interact_openUpload (hid : ack.id = id) (hkind : ack.kind = kindAck)
    (hcode : ack.code = 100) (fields : List (String × Value)) :
    interact (obliging id ack last) (openUpload client now fields).run [] =
      ([⟨.begin kindStreamOpen mediaOpUpload (saturatingAdd now client.readTimeoutMs)
        (encodeCbor (.map fields)), .ok id⟩, ⟨.recv, .ok ack⟩], .ok ack) := by
  have hensure : ∀ stop : Transfer Unit,
      ensure (ack.id = id ∧ ack.kind = kindAck ∧ ack.code = 100) stop = pure () := by
    intro stop
    exact if_pos (decide_eq_true ⟨hid, hkind, hcode⟩)
  refine (interact_tryThen rfl _).trans ((interact_tryThen rfl _).trans ?_)
  change interact _
    (ensure (ack.id = id ∧ ack.kind = kindAck ∧ ack.code = 100) _ >>=
      fun _ => pure ack : Transfer _).run _ = _
  rw [hensure]
  rfl

theorem interact_opened (hid : ack.id = id) (hkind : ack.kind = kindAck) (hcode : ack.code = 100)
    (fields : List (String × Value)) : ∃ opening, Idle opening ∧
      interact (obliging id ack last) (openUpload client now fields).run [] = (opening, .ok ack) :=
  ⟨_, idle_opening, interact_openUpload hid hkind hcode fields⟩

theorem interact_checkMedia (hready : client.mayStream = true)
    (env : Environment StreamOp StreamAns) (log : List StreamEvent) :
    interact env (checkMedia client).run log = (log, .ok ()) := by
  rw [checkMedia, ensure, if_pos hready]
  rfl

theorem delivered_obliging {α : Type} (p : StreamProg α) :
    Delivered (interact (obliging id ack last) p []).1 := by
  obtain ⟨new, hnew, hanswers⟩ := interact_answers (obliging id ack last) p []
  rw [hnew, List.nil_append]
  intro e he
  obtain ⟨before, after, hsplit⟩ := List.append_of_mem he
  have hanswer := hanswers before e after hsplit
  unfold failedData
  split
  · cases hanswer
  · rfl

def sampleClient : MediaClient := ⟨true, 0x40, 1000⟩

def sampleDigest (bytes : Bytes) : Block 32 := blockOf 32 bytes

end Mst5Client.UploadSteps
