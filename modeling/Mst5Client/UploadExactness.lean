import Mst5Client.UploadSteps

set_option autoImplicit false

/-!
# Which bytes an upload commits

The plain uploads count what they have read and send it before they look at the next read.
-/
namespace Mst5Client.UploadExactness
open ByteOrder IoResult TaskTraces ProgramEnvironments CborValues ConnectionState
open MediaStreams UploadSteps

/-- `upload_media`, or `upload_media_resumable` from a checkpoint. -/
inductive Mode where
  | whole
  | resumed (offset : UInt64) (checksum : String)

section Modes
variable (sha256 : Bytes → Block 32) (bits : ℕ) (client : MediaClient) (now : ℕ) (fileId : String)
variable (size : UInt64) (source : Source mediaChunkSize)

def Mode.offset : Mode → UInt64
  | .whole => 0
  | .resumed offset _ => offset

def Mode.call : Mode → Transfer Unit
  | .whole => uploadMedia sha256 bits client now fileId size source
  | .resumed offset checksum => uploadMediaResumable bits client now fileId size offset checksum source

def Mode.valid : Mode → Bool
  | .whole => true
  | .resumed offset checksum => checkpointValid size offset checksum

def Mode.ending (sent : ℕ) (hashed : Bytes) : Mode → Value
  | .whole => digestEnding sha256 sent hashed
  | .resumed _ checksum => resumedEnding size checksum

def Mode.Accepts (ack : Frame) (mode : Mode) : Prop :=
  ack.kind = kindAck ∧ ack.code = 100 ∧
    match mode with
    | .whole => True
    | .resumed offset _ => acceptedOffset bits offset ack = .ok offset

/-- The stream was opened, and the node accepted it. -/
def Accepted (mode : Mode) (log : List StreamEvent) : Prop :=
  ∃ deadlineMs payload id ack rest, ack.id = id ∧ mode.Accepts bits ack ∧
    log = ⟨.begin kindStreamOpen mediaOpUpload deadlineMs payload, .ok id⟩ :: ⟨.recv, .ok ack⟩ :: rest

/-- Nothing but the declared bytes is sent, and `STREAM_END` only after all of them. -/
structure Exact (mode : Mode) (log : List StreamEvent) : Prop where
  chunks : ∀ payload ∈ dataOf log, payload ≠ [] ∧ payload.length ≤ mediaChunkSize
  order : (dataOf log).flatten <+: source.bytes
  bounded : (dataOf log).flatten.length ≤ size.toNat - mode.offset.toNat
  ended : (∃ e ∈ log, isEnd e.op = true) ↔
    source.failure = none ∧ Delivered log ∧ source.bytes.length = size.toNat - mode.offset.toNat
  ending : ∀ before e after, log = before ++ e :: after → isEnd e.op = true →
    (dataOf before).flatten = source.bytes ∧
      e.op = .send kindStreamEnd 200 (encodeCbor (mode.ending sha256 size size.toNat source.bytes))

end Modes

section Loop
variable {size start : ℕ} {failure : Option IoError} {reads : List Bytes} {hashed : Bytes}
  {log : List StreamEvent}

def u64Max : ℕ := 2 ^ 64 - 1

/-- What the loop has done when it ends. -/
structure Transmitted (size start : ℕ) (failure : Option IoError) (reads : List Bytes)
    (hashed : Bytes) (new : List StreamEvent) (x : Except IoError (ℕ × Bytes)) : Prop where
  quiet : Quiet new
  order : dataOf new <+: reads
  counted : min (start + (dataOf new).flatten.length) u64Max ≤ size
  done : ∀ y, x = .ok y → failure = none ∧ Delivered new ∧ dataOf new = reads ∧
    y = (min (start + reads.flatten.length) u64Max, hashed ++ reads.flatten)
  stopped : ∀ e, x = .error e → (failure = some e ∧ dataOf new = reads) ∨ ¬ Delivered new ∨
    size < min (start + reads.flatten.length) u64Max

theorem transmitted_end (hstart : start ≤ size) (hsize : size ≤ u64Max) :
    Transmitted size start none [] hashed [] (.ok (start, hashed)) where
  quiet := fun _ he => absurd he List.not_mem_nil
  order := List.prefix_rfl
  counted := (Nat.min_le_left _ _).trans hstart
  done := by
    rintro y ⟨⟩
    refine ⟨rfl, fun _ he => absurd he List.not_mem_nil, rfl, ?_⟩
    rw [List.flatten_nil, List.append_nil, List.length_nil, Nat.add_zero,
      Nat.min_eq_left (hstart.trans hsize)]
  stopped := by rintro e ⟨⟩

theorem transmitted_failure (hstart : start ≤ size) (error : IoError) :
    Transmitted size start (some error) [] hashed [⟨.abort 500, ()⟩] (.error error) where
  quiet := by
    intro e he
    rw [List.mem_singleton.mp he]
    rfl
  order := List.prefix_rfl
  counted := (Nat.min_le_left _ _).trans hstart
  done := by rintro y ⟨⟩
  stopped := by
    rintro e ⟨⟩
    exact .inl ⟨rfl, rfl⟩

theorem transmitted_excess {bytes : Bytes} {error : IoError} (hstart : start ≤ size)
    (hexcess : size < saturatingAdd start bytes.length) :
    Transmitted size start failure (bytes :: reads) hashed [⟨.abort 400, ()⟩] (.error error) where
  quiet := by
    intro e he
    rw [List.mem_singleton.mp he]
    rfl
  order := List.nil_prefix
  counted := (Nat.min_le_left _ _).trans hstart
  done := by rintro y ⟨⟩
  stopped := by
    intro e _
    right
    right
    unfold saturatingAdd at hexcess
    rw [List.flatten_cons, List.length_append, u64Max]
    omega

theorem transmitted_unsent {bytes : Bytes} {error : IoError}
    (hfits : saturatingAdd start bytes.length ≤ size) :
    Transmitted size start failure (bytes :: reads) hashed
      [⟨.send kindStreamData 0 bytes, .error error⟩, ⟨.abort 500, ()⟩] (.error error) where
  quiet := by
    intro e he
    obtain rfl | he := List.mem_cons.mp he
    · rfl
    · rw [List.mem_singleton.mp he]
      rfl
  order := ⟨reads, rfl⟩
  counted := by
    have hdata : (dataOf [⟨.send kindStreamData 0 bytes, .error error⟩, ⟨.abort 500, ()⟩]).flatten =
      bytes :=
      List.append_nil bytes
    rw [hdata]
    exact hfits
  done := by rintro y ⟨⟩
  stopped := by
    intro e _
    right
    left
    intro hdelivered
    have hsent := hdelivered _ List.mem_cons_self
    cases hsent

theorem Transmitted.step {bytes : Bytes} {new : List StreamEvent} {x : Except IoError (ℕ × Bytes)}
    (h : Transmitted size (saturatingAdd start bytes.length) failure reads (hashed ++ bytes) new x) :
    Transmitted size start failure (bytes :: reads) hashed
      (⟨.send kindStreamData 0 bytes, .ok ()⟩ :: new) x := by
  have hdata : dataOf (⟨.send kindStreamData 0 bytes, .ok ()⟩ :: new) = bytes :: dataOf new := rfl
  have hdelivered : Delivered (⟨.send kindStreamData 0 bytes, .ok ()⟩ :: new) ↔ Delivered new := by
    rw [Delivered, List.forall_mem_cons]
    exact and_iff_right rfl
  have hsum : ∀ total, min (saturatingAdd start bytes.length + total) u64Max =
      min (start + (bytes.length + total)) u64Max := by
    intro total
    unfold saturatingAdd u64Max
    omega
  refine ⟨?_, ?_, ?_, ?_, ?_⟩
  · intro e he
    obtain rfl | he := List.mem_cons.mp he
    · rfl
    · exact h.quiet e he
  · rw [hdata]
    exact (List.prefix_cons_inj bytes).mpr h.order
  · rw [hdata, List.flatten_cons, List.length_append, ← hsum]
    exact h.counted
  · intro y hy
    obtain ⟨hfailure, hnew, hreads, rfl⟩ := h.done y hy
    refine ⟨hfailure, hdelivered.mpr hnew, hdata.trans (congrArg _ hreads), ?_⟩
    rw [List.flatten_cons, List.length_append, ← hsum, List.append_assoc]
  · intro e he
    rw [hdata, hdelivered, List.flatten_cons, List.length_append, ← hsum]
    obtain ⟨hfailure, hreads⟩ | hrest := h.stopped e he
    · exact .inl ⟨hfailure, congrArg _ hreads⟩
    · exact .inr hrest

theorem transmit_spec (hsize : size ≤ u64Max) (hstart : start ≤ size) :
    Ensures log (fun log' x => ∃ new, log' = log ++ new ∧
      Transmitted size start failure reads hashed new x)
      (transmit size failure reads start hashed).run := by
  induction reads generalizing start hashed log with
  | nil =>
    cases failure with
    | none => exact ⟨[], (List.append_nil log).symm, transmitted_end hstart hsize⟩
    | some error =>
      refine (refuse_spec 500 error).mono ?_
      rintro _ _ ⟨rfl, rfl⟩
      exact ⟨_, rfl, transmitted_failure hstart error⟩
  | cons bytes reads ih =>
    rw [transmit]
    by_cases hfits : saturatingAdd start bytes.length ≤ size
    · rw [ensure, if_pos (decide_eq_true hfits)]
      refine (sendData_spec bytes).tryBind ?_ ?_
      · rintro _ _ (⟨-, rfl⟩ | ⟨e, h, -⟩)
        · refine (ih hfits).mono ?_
          rintro _ _ ⟨new, rfl, hnew⟩
          exact ⟨_, List.append_assoc _ _ _, hnew.step⟩
        · cases h
      · rintro _ _ (⟨h, -⟩ | ⟨e, h, rfl⟩)
        · cases h
        · cases h
          exact ⟨_, rfl, transmitted_unsent hfits⟩
    · rw [ensure, if_neg (by simpa using hfits)]
      refine ((refuse_spec 400 _).stop _).mono ?_
      rintro _ _ ⟨rfl, rfl⟩
      exact ⟨_, rfl, transmitted_excess hstart (not_le.mp hfits)⟩

end Loop

variable {sha256 : Bytes → Block 32} {bits : ℕ} {client : MediaClient} {now : ℕ} {fileId : String}
variable {size : UInt64} {source : Source mediaChunkSize} {mode : Mode} {log : List StreamEvent}

/-- What comes after the loop. -/
inductive Concluded (sha256 : Bytes → Block 32) (size : UInt64) (mode : Mode) :
    Except IoError (ℕ × Bytes) → List StreamEvent → Prop
  | stopped (e : IoError) : Concluded sha256 size mode (.error e) []
  | short {y : ℕ × Bytes} (hshort : y.1 ≠ size.toNat) :
      Concluded sha256 size mode (.ok y) [⟨.abort 400, ()⟩]
  | ended {y : ℕ × Bytes} {answer : Except IoError Unit} {rest : List StreamEvent}
      (hall : y.1 = size.toNat) (hrest : Idle rest) : Concluded sha256 size mode (.ok y)
        (⟨.send kindStreamEnd 200 (encodeCbor (mode.ending sha256 size y.1 y.2)), answer⟩ :: rest)

/-- The events of an accepted upload. -/
def Course (sha256 : Bytes → Block 32) (size : UInt64) (source : Source mediaChunkSize)
    (mode : Mode) (new : List StreamEvent) : Prop :=
  ∃ sending concluding x, new = sending ++ concluding ∧
    Transmitted size.toNat mode.offset.toNat source.failure source.reads [] sending x ∧
    Concluded sha256 size mode x concluding

def Mode.transfer (sha256 : Bytes → Block 32) (bits : ℕ) (size : UInt64)
    (source : Source mediaChunkSize) (mode : Mode) : Transfer Unit := do
  let (sent, hashed) ← transmit size.toNat source.failure source.reads mode.offset.toNat []
  checkSent sent size.toNat
  finishUpload bits (mode.ending sha256 size sent hashed)

theorem toNat_le_u64Max (n : UInt64) : n.toNat ≤ u64Max := Nat.le_pred_of_lt n.toNat_lt

theorem transfer_spec (sha256 : Bytes → Block 32) (mode : Mode)
    (hoffset : mode.offset.toNat ≤ size.toNat) :
    Ensures log (fun log' _ => ∃ new, log' = log ++ new ∧ Course sha256 size source mode new)
      (mode.transfer sha256 bits size source).run := by
  refine (transmit_spec (toNat_le_u64Max size) hoffset).tryBind ?_ ?_
  · rintro _ ⟨sent, hashed⟩ ⟨sending, rfl, hsending⟩
    by_cases hall : sent = size.toNat
    · dsimp only
      rw [checkSent, ensure, if_pos (decide_eq_true hall)]
      refine (finishUpload_spec _).mono ?_
      rintro _ _ ⟨answer, rest, hrest, rfl⟩
      exact ⟨_, List.append_assoc _ _ _, sending, _, _, rfl, hsending, .ended hall hrest⟩
    · dsimp only
      rw [checkSent, ensure, if_neg (by simpa using hall)]
      refine ((refuse_spec 400 _).stop _).mono ?_
      rintro _ _ ⟨rfl, rfl⟩
      exact ⟨_, List.append_assoc _ _ _, sending, _, _, rfl, hsending, .short hall⟩
  · rintro _ e ⟨sending, rfl, hsending⟩
    exact ⟨sending, rfl, sending, [], _, (List.append_nil _).symm, hsending, .stopped e⟩

/-- The counter does not stop short of what the source holds. -/
def Countable (size : UInt64) (source : Source mediaChunkSize) (mode : Mode) : Prop :=
  size.toNat < u64Max ∨ mode.offset.toNat + source.bytes.length ≤ u64Max

section Exactness
variable {sending concluding : List StreamEvent} {x : Except IoError (ℕ × Bytes)}

theorem Transmitted.prefix_bytes
    (h : Transmitted size.toNat mode.offset.toNat source.failure source.reads [] sending x) :
    (dataOf sending).flatten <+: source.bytes := by
  obtain ⟨rest, hrest⟩ := h.order
  exact ⟨rest.flatten, by rw [← List.flatten_append, hrest]; rfl⟩

theorem Transmitted.bounded (hcountable : Countable size source mode)
    (h : Transmitted size.toNat mode.offset.toNat source.failure source.reads [] sending x) :
    (dataOf sending).flatten.length ≤ size.toNat - mode.offset.toNat := by
  have hcounted := h.counted
  have hlength := h.prefix_bytes.length_le
  obtain hsize | htotal := hcountable <;> omega

theorem Transmitted.complete_iff (hcountable : Countable size source mode)
    (hoffset : mode.offset.toNat ≤ size.toNat)
    (h : Transmitted size.toNat mode.offset.toNat source.failure source.reads [] sending x) :
    (∃ y, x = .ok y ∧ y.1 = size.toNat) ↔
      source.failure = none ∧ Delivered sending ∧
        source.bytes.length = size.toNat - mode.offset.toNat := by
  have hsize := toNat_le_u64Max size
  have htotal : source.reads.flatten.length = source.bytes.length := rfl
  constructor
  · rintro ⟨y, hx, hall⟩
    obtain ⟨hfailure, hdelivered, -, rfl⟩ := h.done y hx
    refine ⟨hfailure, hdelivered, ?_⟩
    dsimp only at hall
    obtain hlt | hle := hcountable <;> omega
  · rintro ⟨hfailure, hdelivered, hlength⟩
    cases hx : x with
    | ok y =>
      obtain ⟨-, -, -, rfl⟩ := h.done y hx
      refine ⟨_, rfl, ?_⟩
      dsimp only
      omega
    | error e =>
      obtain ⟨hsome, -⟩ | hunsent | hexcess := h.stopped e hx
      · rw [hfailure] at hsome
        cases hsome
      · exact absurd hdelivered hunsent
      · omega

theorem Concluded.data (h : Concluded sha256 size mode x concluding) : dataOf concluding = [] := by
  cases h with
  | stopped e => rfl
  | short hshort => rfl
  | ended hall hrest => exact hrest.data

theorem Concluded.delivered (h : Concluded sha256 size mode x concluding) :
    Delivered concluding := by
  cases h with
  | stopped e => exact fun _ he => absurd he List.not_mem_nil
  | short hshort =>
    intro e he
    rw [List.mem_singleton.mp he]
    rfl
  | ended hall hrest =>
    intro e he
    obtain rfl | he := List.mem_cons.mp he
    · unfold failedData
      split
      · rename_i heq
        cases heq
        rfl
      · rfl
    · exact hrest.delivered e he

theorem Concluded.end_iff (h : Concluded sha256 size mode x concluding) :
    (∃ e ∈ concluding, isEnd e.op = true) ↔ ∃ y, x = .ok y ∧ y.1 = size.toNat := by
  cases h with
  | stopped e => simp
  | short hshort => simpa [isEnd] using hshort
  | @ended y answer rest hall hrest =>
    exact ⟨fun _ => ⟨y, rfl, hall⟩, fun _ => ⟨_, List.mem_cons_self, rfl⟩⟩

theorem Course.sends_all {new : List StreamEvent} (h : Course sha256 size source mode new)
    (hdelivered : Delivered new) (hsize : u64Max ≤ size.toNat) : dataOf new = source.reads := by
  obtain ⟨sending, concluding, x, rfl, hsending, hconcluding⟩ := h
  rw [dataOf_append, hconcluding.data, List.append_nil]
  cases hx : x with
  | ok y => exact (hsending.done y hx).2.2.1
  | error e =>
    obtain ⟨-, hreads⟩ | hunsent | hexcess := hsending.stopped e hx
    · exact hreads
    · exact absurd (delivered_append.mp hdelivered).1 hunsent
    · omega

theorem exact_of_course {opening new : List StreamEvent} (hcountable : Countable size source mode)
    (hoffset : mode.offset.toNat ≤ size.toNat) (hopening : Idle opening)
    (hcourse : Course sha256 size source mode new) :
    Exact sha256 size source mode (opening ++ new) := by
  obtain ⟨sending, concluding, x, rfl, hsending, hconcluding⟩ := hcourse
  have hdata : dataOf (opening ++ (sending ++ concluding)) = dataOf sending := by
    rw [dataOf_append, dataOf_append, hopening.data, hconcluding.data, List.nil_append, List.append_nil]
  have hdelivered : Delivered (opening ++ (sending ++ concluding)) ↔ Delivered sending := by
    rw [delivered_append, delivered_append]
    exact ⟨fun h => h.2.1, fun h => ⟨hopening.delivered, h, hconcluding.delivered⟩⟩
  have hquiet : Quiet (opening ++ sending) := hopening.quiet.append hsending.quiet
  refine ⟨?_, ?_, ?_, ?_, ?_⟩
  · intro payload hpayload
    rw [hdata] at hpayload
    exact source.fits payload (hsending.order.subset hpayload)
  · rw [hdata]
    exact hsending.prefix_bytes
  · rw [hdata]
    exact hsending.bounded hcountable
  · rw [hdelivered, ← hsending.complete_iff hcountable hoffset, ← hconcluding.end_iff,
      ← List.append_assoc]
    constructor
    · rintro ⟨e, he, hend⟩
      obtain he | he := List.mem_append.mp he
      · rw [hquiet e he] at hend
        cases hend
      · exact ⟨e, he, hend⟩
    · rintro ⟨e, he, hend⟩
      exact ⟨e, List.mem_append_right _ he, hend⟩
  · intro before e after hlog hend
    rw [← List.append_assoc] at hlog
    have hmem : e ∈ concluding := by
      have hall : e ∈ opening ++ sending ++ concluding := by
        rw [hlog]
        exact List.mem_append_right _ List.mem_cons_self
      obtain hearly | hlate := List.mem_append.mp hall
      · rw [hquiet e hearly] at hend
        cases hend
      · exact hlate
    cases hconcluding with
    | stopped error => exact absurd hmem List.not_mem_nil
    | short hshort =>
      rw [List.mem_singleton.mp hmem] at hend
      cases hend
    | @ended y answer rest hall hrest =>
      obtain ⟨rfl, rfl⟩ := quiet_split hquiet hrest.quiet hend hlog
      obtain ⟨-, -, hreads, rfl⟩ := hsending.done y rfl
      rw [dataOf_append, hopening.data, List.nil_append, hreads, hall]
      exact ⟨rfl, rfl⟩

end Exactness

theorem Accepted.opened (h : Accepted bits mode log) : Opened log := by
  obtain ⟨deadlineMs, payload, id, ack, rest, hid, ⟨hkind, hcode, -⟩, hlog⟩ := h
  exact ⟨deadlineMs, payload, id, ack, rest, hid, hkind, hcode, hlog⟩

def Follows (sha256 : Bytes → Block 32) (bits : ℕ) (size : UInt64) (source : Source mediaChunkSize)
    (mode : Mode) (log : List StreamEvent) : Prop :=
  Accepted bits mode log → ∃ opening new, Idle opening ∧ log = opening ++ new ∧
    Course sha256 size source mode new

theorem whole_follows :
    Ensures [] (fun log _ => Follows sha256 bits size source .whole log)
      (uploadMedia sha256 bits client now fileId size source).run := by
  refine checkMedia_spec.tryBind ?_ ?_
  · rintro _ _ rfl
    refine (openUpload_spec _).tryBind ?_ ?_
    · rintro _ _ (⟨deadlineMs, payload, id, ack, -, rfl⟩ | ⟨e, h, -⟩)
      · refine (transfer_spec sha256 .whole (Nat.zero_le _)).mono ?_
        rintro _ _ ⟨new, rfl, hcourse⟩ -
        exact ⟨_, new, idle_opening, rfl, hcourse⟩
      · cases h
    · rintro _ _ (⟨_, _, _, _, h, -⟩ | ⟨e, -, hopened⟩)
      · cases h
      · exact fun haccepted => absurd haccepted.opened hopened
  · rintro _ e rfl haccepted
    exact absurd haccepted.opened not_opened_nil

theorem Accepted.offset {offset : UInt64} {checksum : String} {deadlineMs : ℕ} {payload : Bytes}
    {id : ℕ} {ack : Frame} {rest : List StreamEvent} (h : Accepted bits (.resumed offset checksum)
      (⟨.begin kindStreamOpen mediaOpUpload deadlineMs payload, .ok id⟩ :: ⟨.recv, .ok ack⟩ :: rest)) :
    acceptedOffset bits offset ack = .ok offset := by
  obtain ⟨_, _, _, _, _, -, ⟨-, -, hoffset⟩, heq⟩ := h
  cases heq
  exact hoffset

theorem checkpointValid_le {offset : UInt64} {checksum : String}
    (h : checkpointValid size offset checksum = true) : offset.toNat ≤ size.toNat := by
  simp only [checkpointValid, Bool.and_eq_true, decide_eq_true_eq] at h
  exact UInt64.le_iff_toNat_le.mp h.1.1

theorem resumable_follows {offset : UInt64} {checksum : String} :
    Ensures [] (fun log _ => Follows sha256 bits size source (.resumed offset checksum) log)
      (uploadMediaResumable bits client now fileId size offset checksum source).run := by
  have hstop : Follows sha256 bits size source (.resumed offset checksum) [] :=
    fun haccepted => absurd haccepted.opened not_opened_nil
  unfold uploadMediaResumable ensure
  split_ifs with hvalid
  · refine checkMedia_spec.tryBind ?_ ?_
    · rintro _ _ rfl
      refine (openUpload_spec _).tryBind ?_ ?_
      · rintro _ frame (⟨deadlineMs, payload, id, ack, h, rfl⟩ | ⟨e, h, -⟩)
        · cases h
          refine Ensures.tryBind (Q := fun log x => log = _ ∧ x = acceptedOffset bits offset frame)
            ⟨rfl, rfl⟩ ?_ ?_
          · rintro _ accepted ⟨rfl, haccepts⟩
            split_ifs with hoffset
            · refine (transfer_spec sha256 (.resumed offset checksum)
                (checkpointValid_le hvalid)).mono ?_
              rintro _ _ ⟨new, rfl, hcourse⟩ -
              exact ⟨_, new, idle_opening, rfl, hcourse⟩
            · refine ((reject_spec _).stop _).mono ?_
              rintro _ _ ⟨rfl, rfl⟩ haccepted
              rw [haccepted.offset] at haccepts
              cases haccepts
              exact absurd (decide_eq_true rfl) hoffset
          · rintro _ e ⟨rfl, haccepts⟩ haccepted
            rw [haccepted.offset] at haccepts
            cases haccepts
        · cases h
      · rintro _ _ (⟨_, _, _, _, h, -⟩ | ⟨e, -, hopened⟩)
        · cases h
        · exact fun haccepted => absurd haccepted.opened hopened
    · rintro _ e rfl
      exact hstop
  · exact hstop

theorem call_follows (mode : Mode) :
    Ensures [] (fun log _ => Follows sha256 bits size source mode log)
      (mode.call sha256 bits client now fileId size source).run := by
  cases mode with
  | whole => exact whole_follows
  | resumed offset checksum => exact resumable_follows

theorem offset_le (hvalid : mode.valid size = true) : mode.offset.toNat ≤ size.toNat := by
  cases mode with
  | whole => exact Nat.zero_le _
  | resumed offset checksum => exact checkpointValid_le hvalid

section Obliging
variable {id : ℕ} {ack last : Frame}

theorem accepted_obliging (hready : client.mayStream = true) (hvalid : mode.valid size = true)
    (hid : ack.id = id) (haccepts : mode.Accepts bits ack) :
    Accepted bits mode
      (interact (obliging id ack last) (mode.call sha256 bits client now fileId size source).run
        []).1 := by
  have hkind := haccepts.1
  have hcode := haccepts.2.1
  have hopened : ∀ fields, ∃ opening,
    interact (obliging id ack last) (openUpload client now fields).run [] =
      (opening, .ok ack) ∧ ∀ new, Accepted bits mode (opening ++ new) := by
    intro fields
    exact ⟨_, interact_openUpload hid hkind hcode fields,
      fun new => ⟨_, _, id, ack, new, hid, haccepts, rfl⟩⟩
  cases mode with
  | whole =>
    obtain ⟨opening, hopening, haccepted⟩ :=
      hopened [("file_id", .text fileId), ("size", .unsigned size)]
    rw [Mode.call, uploadMedia, interact_tryThen (interact_checkMedia hready _ _),
      interact_tryThen hopening]
    obtain ⟨new, hnew, -⟩ := interact_answers (obliging id ack last) _ opening
    rw [hnew]
    exact haccepted new
  | resumed offset checksum =>
    obtain ⟨opening, hopening, haccepted⟩ :=
      hopened [("file_id", .text fileId), ("size", .unsigned size), ("offset", .unsigned offset)]
    have hcheckpoint : ∀ stop, ensure (checkpointValid size offset checksum) stop = pure () :=
      fun stop => if_pos hvalid
    rw [Mode.call, uploadMediaResumable, hcheckpoint, interact_tryThen rfl,
      interact_tryThen (interact_checkMedia hready _ _), interact_tryThen hopening]
    obtain ⟨new, hnew, -⟩ := interact_answers (obliging id ack last) _ opening
    rw [hnew]
    exact haccepted new

end Obliging

def plainAck : Frame := ⟨kindAck, 0, 100, 1, zeroNonce, 0, [0xf6]⟩

theorem plainAck_accepts (bits : ℕ) (mode : Mode) : mode.Accepts bits plainAck := by
  refine ⟨rfl, rfl, ?_⟩
  cases mode with
  | whole => trivial
  | resumed offset checksum =>
    change acceptedOffset bits offset plainAck = .ok offset
    rfl

/-- An accepted upload commits the declared bytes, whatever the source yields and however the calls
go, unless the counter cannot tell the source from a shorter one. -/
theorem uploads_exact_iff (sha256 : Bytes → Block 32) (bits : ℕ) {client : MediaClient} (now : ℕ)
    (fileId : String) {size : UInt64} (source : Source mediaChunkSize) {mode : Mode}
    (hready : client.mayStream = true) (hvalid : mode.valid size = true) :
    (∀ log x, result (mode.call sha256 bits client now fileId size source).run log = some x →
      Accepted bits mode log → Exact sha256 size source mode log) ↔ Countable size source mode := by
  have hoffset := offset_le hvalid
  constructor
  · intro hexact
    by_contra hcountable
    obtain ⟨hsize, htotal⟩ := not_or.mp hcountable
    obtain ⟨log, hlog, hrun⟩ := result_interact (obliging 1 plainAck plainAck)
      (mode.call sha256 bits client now fileId size source).run []
    rw [List.nil_append] at hlog
    have haccepted : Accepted bits mode log := by
      rw [← hlog]
      exact accepted_obliging hready hvalid rfl (plainAck_accepts bits mode)
    have hdelivered : Delivered log := by
      rw [← hlog]
      exact delivered_obliging _
    have hbounded := (hexact log _ hrun haccepted).bounded
    obtain ⟨opening, new, hopening, rfl, hcourse⟩ := (call_follows mode).of_result hrun haccepted
    have hsent : (dataOf (opening ++ new)).flatten = source.bytes := by
      rw [dataOf_append, hopening.data, List.nil_append,
        hcourse.sends_all (delivered_append.mp hdelivered).2 (not_lt.mp hsize)]
      rfl
    rw [hsent] at hbounded
    have hmax := toNat_le_u64Max size
    omega
  · intro hcountable log x hrun haccepted
    obtain ⟨opening, new, hopening, rfl, hcourse⟩ := (call_follows mode).of_result hrun haccepted
    exact exact_of_course hcountable hoffset hopening hcourse

theorem sampleReads_fit : ∀ bytes ∈ ([[1, 2], [3]] : List Bytes), bytes ≠ [] ∧
    bytes.length ≤ mediaChunkSize := by
  decide

def sampleSource : Source mediaChunkSize := ⟨[[1, 2], [3]], none, sampleReads_fit⟩

def sampleCall (size : UInt64) (mode : Mode) : StreamProg (Except IoError Unit) :=
  (mode.call sampleDigest 64 sampleClient 5 "f" size sampleSource).run

def sampleLast : Frame := ⟨kindResult, 0, 200, 1, zeroNonce, 0, []⟩

def sampleLog (size : UInt64) (mode : Mode) : List StreamEvent :=
  (interact (obliging 1 plainAck sampleLast) (sampleCall size mode) []).1

theorem uploads_exact_iff_three : dataOf (sampleLog 3 .whole) = [[1, 2], [3]] ∧
    Exact sampleDigest 3 sampleSource .whole (sampleLog 3 .whole) := by
  refine ⟨by decide +kernel, ?_⟩
  have hcountable : Countable 3 sampleSource .whole := .inl (by decide)
  have haccepted : Accepted 64 .whole (sampleLog 3 .whole) :=
    ⟨_, _, 1, plainAck, _, rfl, plainAck_accepts 64 .whole, rfl⟩
  have hready : sampleClient.mayStream = true := by decide
  have hrun : result (sampleCall 3 .whole) (sampleLog 3 .whole) = some (.ok ()) := by decide +kernel
  exact (uploads_exact_iff sampleDigest 64 5 "f" sampleSource hready rfl).mpr hcountable _ _ hrun
    haccepted

def sampleCheckpoint : Mode := .resumed (0xfffffffffffffffe) (String.ofList (List.replicate 64 'a'))

theorem resumed_upload_overruns :
    result (sampleCall 0xffffffffffffffff sampleCheckpoint)
        (sampleLog 0xffffffffffffffff sampleCheckpoint) = some (.ok ()) ∧
      Accepted 64 sampleCheckpoint (sampleLog 0xffffffffffffffff sampleCheckpoint) ∧
      (dataOf (sampleLog 0xffffffffffffffff sampleCheckpoint)).flatten = [1, 2, 3] ∧
      (0xffffffffffffffff : UInt64).toNat - sampleCheckpoint.offset.toNat = 1 ∧
      ((sampleLog 0xffffffffffffffff sampleCheckpoint).any fun e => isEnd e.op) = true := by
  refine ⟨by decide +kernel, ?_, by decide +kernel, by decide, by decide +kernel⟩
  exact ⟨_, _, 1, plainAck, _, rfl, plainAck_accepts 64 sampleCheckpoint, rfl⟩

end Mst5Client.UploadExactness
