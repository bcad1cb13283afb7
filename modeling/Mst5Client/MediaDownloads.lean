import Mathlib.Data.List.TakeWhile
import Mst5Client.UploadSteps

set_option autoImplicit false

/-!
# Media downloads of the native client

`download_media` of `src/lib.rs`.
-/
namespace Mst5Client.MediaDownloads
open ByteOrder IoResult TaskPrograms TaskTraces ProgramEnvironments CborValues ConnectionState
open MediaStreams UploadSteps

section Downloads
variable (sha256 : Bytes → Block 32) (bits : ℕ) (client : MediaClient) (now : ℕ) (fileId : String)

def writeAll (bytes : Bytes) : Transfer Unit := do
  match ← (ExceptT.lift (Prog.perform (StreamOp.writeAll bytes)) : Transfer Written) with
  | .all => return ()
  | .failed _ error => throw error

def flush : Transfer Unit := (Prog.perform StreamOp.flush : StreamProg _)

/-- The `STREAM_END` agrees with what was received. -/
def Announces (ending : Value) (received : ℕ) (hashed : Bytes) : Prop :=
  (ending.get "size").bind Value.asU64 = some (UInt64.ofNat received) ∧
    (ending.get "sha256").bind Value.asStr = some (mediaHex (sha256 hashed).toList)

instance (ending : Value) (received : ℕ) (hashed : Bytes) :
    Decidable (Announces sha256 ending received hashed) :=
  inferInstanceAs (Decidable (_ ∧ _))

def receive (id announced : ℕ) (failure : IoError) : List Frame → ℕ → Bytes → Transfer ℕ
  | [], _, _ => throw failure
  | frame :: frames, received, hashed =>
    if frame.id ≠ id then throw (invalidData "media stream id mismatch")
    else if frame.kind = kindStreamData then
      if frame.payload = [] ∨ mediaChunkSize < frame.payload.length then
        throw (invalidData "invalid media chunk")
      else do
        orAbort 500 (writeAll frame.payload)
        let received := (received + frame.payload.length) % 2 ^ 64 -- `+=` of a release build
        if announced < received then throw (invalidData "media exceeds announced size")
        else receive id announced failure frames received (hashed ++ frame.payload)
    else if frame.kind = kindStreamEnd then do
      let ending ← fromExcept (decodeCbor bits frame.payload)
      if received ≠ announced ∨ ¬ Announces sha256 ending received hashed then
        throw (invalidData "media download checksum mismatch")
      else do
        orAbort 500 flush
        return received
    else if frame.kind = kindError then do
      let value ← fromExcept (decodeCbor bits frame.payload)
      throw (apiResponseError frame.code value)
    else throw (invalidData "unexpected media download frame")

def announcedSize (accepted : Frame) : Except IoError UInt64 := do
  let metadata ← decodeCbor bits accepted.payload
  match (metadata.get "size").bind Value.asU64 with
  | none => throw (invalidData "media node omitted size")
  | some size => return size

/-- What every download does first; `transfer` is given the id and the size it agreed on. -/
def openDownload (expectedSize : UInt64) (frames : List Frame) (failure : IoError)
    (transfer : ℕ → ℕ → List Frame → Transfer ℕ) : Transfer ℕ := do
  checkMedia client
  let deadlineMs := saturatingAdd now client.readTimeoutMs
  let id ← begin kindStreamOpen mediaOpDownload deadlineMs
    (encodeCbor (.map [("file_id", .text fileId)]))
  match frames with
  | [] => throw failure
  | accepted :: frames => do
    ensure (accepted.id = id ∧ accepted.kind = kindAck ∧ accepted.code = 100) do
      remove
      throw ⟨.notFound, "media download rejected"⟩
    let announced ← fromExcept (announcedSize bits accepted)
    ensure (announced = expectedSize) (refuse 409 (invalidData "media size changed"))
    transfer id announced.toNat frames

def downloadMedia (expectedSize : UInt64) (frames : List Frame) (failure : IoError) : Transfer ℕ :=
  openDownload bits client now fileId expectedSize frames failure fun id announced frames =>
    receive sha256 bits id announced failure frames 0 []

end Downloads

def writtenBy : StreamEvent → Bytes
  | ⟨.writeAll bytes, .all⟩ => bytes
  | ⟨.writeAll bytes, .failed count _⟩ => bytes.take count
  | _ => []

def writtenOf (log : List StreamEvent) : Bytes := log.flatMap writtenBy

def dataPayloads (frames : List Frame) : Bytes :=
  (frames.filter fun frame => frame.kind = kindStreamData).flatMap Frame.payload

/-- What a download promises about the target and its result. -/
structure Bounded (sha256 : Bytes → Block 32) (bits : ℕ) (expectedSize : UInt64)
    (frames : List Frame) (log : List StreamEvent) (x : Except IoError ℕ) : Prop where
  size : (writtenOf log).length ≤ expectedSize.toNat
  order : writtenOf log <+: dataPayloads frames
  complete : ∀ n, x = .ok n → n = expectedSize.toNat ∧ ∃ received last rest ending,
    frames = received ++ last :: rest ∧ last.kind = kindStreamEnd ∧
      writtenOf log = dataPayloads received ∧
    (writtenOf log).length = n ∧ decodeCbor bits last.payload = .ok ending ∧
    Announces sha256 ending n (writtenOf log)

def acceptable (id : ℕ) (frame : Frame) : Bool :=
  frame.id = id && frame.kind = kindStreamData && !frame.payload.isEmpty && frame.payload.length ≤
    mediaChunkSize

def leading (id : ℕ) (frames : List Frame) : Bytes :=
  (frames.takeWhile (acceptable id)).flatMap Frame.payload

/-- The node announces the expected size and sends more. -/
def Overruns (bits : ℕ) (expectedSize : UInt64) (frames : List Frame) : Prop :=
  ∃ accepted rest, frames = accepted :: rest ∧ accepted.kind = kindAck ∧ accepted.code = 100 ∧
    announcedSize bits accepted = .ok expectedSize ∧
      expectedSize.toNat < (leading accepted.id rest).length

variable {sha256 : Bytes → Block 32} {bits : ℕ} {id announced received : ℕ} {failure : IoError}
  {frames : List Frame} {hashed : Bytes} {log : List StreamEvent}

theorem writtenOf_append (log new : List StreamEvent) :
    writtenOf (log ++ new) = writtenOf log ++ writtenOf new :=
  List.flatMap_append

theorem writeAll_spec (bytes : Bytes) :
    Ensures log (fun log' x =>
      (x = .ok () ∧ log' = log ++ [⟨.writeAll bytes, .all⟩]) ∨
        ∃ count error, x = .error error ∧ log' = log ++ [⟨.writeAll bytes, .failed count error⟩])
      (writeAll bytes).run := by
  refine Ensures.tryBind (Q := fun log' x => ∃ answer : Written,
    log' = log ++ [⟨.writeAll bytes, answer⟩] ∧ x = .ok answer) ?_ ?_ ?_
  · exact Ensures.lift (Ensures.perform fun answer => ⟨answer, rfl, rfl⟩)
  · rintro _ written ⟨_, rfl, h⟩
    cases h
    cases written with
    | all => exact .inl ⟨rfl, rfl⟩
    | failed count error => exact .inr ⟨count, error, rfl, rfl⟩
  · rintro _ e ⟨_, -, h⟩
    cases h

theorem orAbort_writeAll_spec (bytes : Bytes) :
    Ensures log (fun log' x =>
      (x = .ok () ∧ log' = log ++ [⟨.writeAll bytes, .all⟩]) ∨
        ∃ count error, x = .error error ∧ log' = log ++ [⟨.writeAll bytes, .failed count error⟩,
      ⟨.abort 500, ()⟩]) (orAbort 500 (writeAll bytes)).run := by
  refine (writeAll_spec bytes).tryCatch ?_ ?_
  · rintro _ _ (⟨-, rfl⟩ | ⟨_, _, h, -⟩)
    · exact .inl ⟨rfl, rfl⟩
    · cases h
  · rintro _ e (⟨h, -⟩ | ⟨count, error, h, rfl⟩)
    · cases h
    · refine (refuse_spec 500 e).mono ?_
      rintro _ _ ⟨rfl, rfl⟩
      cases h
      exact .inr ⟨count, e, rfl, List.append_assoc _ _ _⟩

def AllWritten (log : List StreamEvent) : Prop :=
  ∀ e ∈ log, ∀ bytes count error, e ≠ ⟨.writeAll bytes, .failed count error⟩

/-- What the loop has done when it ends. -/
structure Received (sha256 : Bytes → Block 32) (bits id announced received : ℕ) (hashed : Bytes)
    (frames : List Frame) (new : List StreamEvent) (x : Except IoError ℕ) : Prop where
  order : writtenOf new <+: leading id frames
  complete : received + (leading id frames).length ≤ announced → ∀ n, x = .ok n → n = announced ∧
    ∃ taken last rest ending, frames = taken ++ last :: rest ∧
      (∀ frame ∈ taken, acceptable id frame = true) ∧
      last.kind = kindStreamEnd ∧ writtenOf new = taken.flatMap Frame.payload ∧
      received + (writtenOf new).length = n ∧ decodeCbor bits last.payload = .ok ending ∧
      Announces sha256 ending n (hashed ++ writtenOf new)
  excess : AllWritten new → received ≤ announced → announced < received + (leading id frames).length →
    announced < received + (writtenOf new).length

variable {frame : Frame} {new : List StreamEvent} {x : Except IoError ℕ}

theorem leading_acceptable (h : acceptable id frame = true) :
    leading id (frame :: frames) = frame.payload ++ leading id frames := by
  rw [leading, List.takeWhile_cons_of_pos h]
  rfl

theorem leading_other (h : ¬ acceptable id frame = true) : leading id (frame :: frames) = [] := by
  rw [leading, List.takeWhile_cons_of_neg h]
  rfl

theorem received_error (error : IoError) (hlead : leading id frames = [])
    (hnew : writtenOf new = []) :
    Received sha256 bits id announced received hashed frames new (.error error) where
  order := by
    rw [hnew]
    exact List.nil_prefix
  complete := by rintro _ n ⟨⟩
  excess := by
    intro _ hle hlt
    rw [hlead, List.length_nil] at hlt
    omega

theorem received_end {rest : List Frame} {ending : Value} (hkind : frame.kind = kindStreamEnd)
    (hother : ¬ acceptable id frame = true) (hdecode : decodeCbor bits frame.payload = .ok ending)
    (hannounces : Announces sha256 ending announced hashed) (hnew : writtenOf new = []) :
    Received sha256 bits id announced announced hashed (frame :: rest) new (.ok announced) where
  order := by
    rw [hnew]
    exact List.nil_prefix
  complete := by
    rintro _ n ⟨⟩
    refine ⟨rfl, [], frame, rest, ending, rfl, fun _ h => absurd h List.not_mem_nil, hkind, hnew,
      ?_, hdecode, ?_⟩
    · rw [hnew]
      rfl
    · rw [hnew, List.append_nil]
      exact hannounces
  excess := by
    intro _ hle hlt
    rw [leading_other hother, List.length_nil] at hlt
    omega

theorem received_unwritten {count : ℕ} {error : IoError} (h : acceptable id frame = true) :
    Received sha256 bits id announced received hashed (frame :: frames)
      [⟨.writeAll frame.payload, .failed count error⟩, ⟨.abort 500, ()⟩] (.error error) where
  order := by
    rw [leading_acceptable h]
    have hwritten : writtenOf [⟨.writeAll frame.payload, .failed count error⟩, ⟨.abort 500, ()⟩] =
        frame.payload.take count := List.append_nil _
    rw [hwritten]
    exact (List.take_prefix count _).trans (List.prefix_append _ _)
  complete := by rintro _ n ⟨⟩
  excess := fun hall => absurd rfl (hall _ List.mem_cons_self frame.payload count error)

theorem received_excess {error : IoError} (h : acceptable id frame = true)
    (hexcess : announced < (received + frame.payload.length) % 2 ^ 64) :
    Received sha256 bits id announced received hashed (frame :: frames)
      [⟨.writeAll frame.payload, .all⟩] (.error error) where
  order := by
    rw [leading_acceptable h]
    have hwritten : writtenOf [⟨.writeAll frame.payload, .all⟩] = frame.payload := List.append_nil _
    rw [hwritten]
    exact List.prefix_append _ _
  complete := by rintro _ n ⟨⟩
  excess := by
    intro _ _ _
    have hwritten : writtenOf [⟨.writeAll frame.payload, .all⟩] = frame.payload := List.append_nil _
    rw [hwritten]
    exact hexcess.trans_le (Nat.mod_le _ _)

theorem Received.step (hannounced : announced < 2 ^ 64) (hframe : acceptable id frame = true)
    (h : Received sha256 bits id announced ((received + frame.payload.length) % 2 ^ 64)
      (hashed ++ frame.payload) frames new x) :
    Received sha256 bits id announced received hashed (frame :: frames)
    (⟨.writeAll frame.payload, .all⟩ :: new) x := by
  have hwritten : writtenOf (⟨.writeAll frame.payload, .all⟩ :: new) = frame.payload ++
    writtenOf new := rfl
  refine ⟨?_, ?_, ?_⟩
  · rw [hwritten, leading_acceptable hframe]
    exact (List.prefix_append_right_inj _).mpr h.order
  · intro hroom n hn
    rw [leading_acceptable hframe, List.length_append] at hroom
    have hcount : (received + frame.payload.length) % 2 ^ 64 = received + frame.payload.length :=
      Nat.mod_eq_of_lt (by omega)
    obtain ⟨hsize, taken, last, rest, ending, rfl, htaken, hlast, htarget, hlength, hdecode,
      hannounces⟩ :=
      h.complete (by omega) n hn
    refine ⟨hsize, frame :: taken, last, rest, ending, rfl, ?_, hlast, ?_, ?_, hdecode, ?_⟩
    · exact List.forall_mem_cons.mpr ⟨hframe, htaken⟩
    · rw [hwritten, htarget]
      rfl
    · rw [hwritten, List.length_append]
      omega
    · rw [hwritten, ← List.append_assoc]
      exact hannounces
  · intro hall _ hexcess
    rw [leading_acceptable hframe, List.length_append] at hexcess
    rw [hwritten, List.length_append]
    by_cases hover : announced < received + frame.payload.length
    · omega
    · have hcount : (received + frame.payload.length) % 2 ^ 64 = received + frame.payload.length :=
        Nat.mod_eq_of_lt (by omega)
      have hnext := h.excess (fun e he => hall e (List.mem_cons_of_mem _ he)) (by omega) (by omega)
      omega

theorem orAbort_flush_spec :
    Ensures log (fun log' x => (x = .ok () ∧ log' = log ++ [⟨.flush, .ok ()⟩]) ∨
      ∃ error, x = .error error ∧ log' = log ++ [⟨.flush, .error error⟩, ⟨.abort 500, ()⟩])
      (orAbort 500 flush).run :=
  orAbort_spec 500 (fun x => ⟨.flush, x⟩) (Ensures.perform fun _ => rfl)

theorem receive_spec (hannounced : announced < 2 ^ 64) :
    Ensures log (fun log' x => ∃ new, log' = log ++ new ∧
      Received sha256 bits id announced received hashed frames new x)
      (receive sha256 bits id announced failure frames received hashed).run := by
  induction frames generalizing received hashed log with
  | nil => exact ⟨[], (List.append_nil log).symm, received_error failure rfl rfl⟩
  | cons frame frames ih =>
    have hstop : ¬ acceptable id frame = true → ∀ error, ∃ new, log = log ++ new ∧
        Received sha256 bits id announced received hashed (frame :: frames) new (.error error) := by
      intro hother error
      exact ⟨[], (List.append_nil log).symm, received_error error (leading_other hother) rfl⟩
    rw [receive]
    split_ifs with hid hdata hchunk hend herror
    · exact hstop (by simp [acceptable, hid]) _
    · refine hstop ?_ _
      obtain hempty | hlong := hchunk
      · simp [acceptable, hempty]
      · simp [acceptable, Nat.not_le.mpr hlong]
    · have hframe : acceptable id frame = true := by
        rw [not_or, not_lt] at hchunk
        simp [acceptable, not_not.mp hid, hdata, hchunk.1, hchunk.2]
      refine (orAbort_writeAll_spec frame.payload).tryBind ?_ ?_
      · rintro _ _ (⟨-, rfl⟩ | ⟨_, _, h, -⟩)
        · dsimp only
          split_ifs with hexcess
          · exact ⟨_, rfl, received_excess hframe hexcess⟩
          · refine ih.mono ?_
            rintro _ _ ⟨new, rfl, hnew⟩
            exact ⟨_, List.append_assoc _ _ _, hnew.step hannounced hframe⟩
        · cases h
      · rintro _ _ (⟨h, -⟩ | ⟨count, error, h, rfl⟩)
        · cases h
        · cases h
          exact ⟨_, rfl, received_unwritten hframe⟩
    · have hother : ¬ acceptable id frame = true := by simp [acceptable, hdata]
      refine Ensures.tryBind (Q := fun log' x => log' = log ∧ x = decodeCbor bits frame.payload)
        ⟨rfl, rfl⟩ ?_ ?_
      · rintro _ ending ⟨rfl, hdecode⟩
        split_ifs with hmismatch
        · exact hstop hother _
        · rw [not_or, not_not, not_not] at hmismatch
          obtain ⟨rfl, hannounces⟩ := hmismatch
          refine orAbort_flush_spec.tryBind ?_ ?_
          · rintro _ _ (⟨-, rfl⟩ | ⟨_, h, -⟩)
            · exact ⟨_, rfl, received_end hend hother hdecode.symm hannounces rfl⟩
            · cases h
          · rintro _ error (⟨h, -⟩ | ⟨_, -, rfl⟩)
            · cases h
            · exact ⟨_, rfl, received_error error (leading_other hother) rfl⟩
      · rintro _ error ⟨rfl, -⟩
        exact hstop hother error
    · have hother : ¬ acceptable id frame = true := by simp [acceptable, hdata]
      refine Ensures.tryBind (Q := fun log' _ => log' = log) rfl ?_ ?_
      · rintro _ value rfl
        exact hstop hother _
      · rintro _ error rfl
        exact hstop hother error
    · exact hstop (by simp [acceptable, hdata]) _

variable {client : MediaClient} {now : ℕ} {fileId : String}
variable {expectedSize : UInt64}

/-- The node takes the stream and announces what is expected. -/
structure Agrees (bits : ℕ) (expectedSize : UInt64) (accepted : Frame) : Prop where
  kind : accepted.kind = kindAck
  code : accepted.code = 100
  size : announcedSize bits accepted = .ok expectedSize

/-- A download fails before the target is touched, or it goes through the loop. -/
def Downloaded (sha256 : Bytes → Block 32) (bits : ℕ) (expectedSize : UInt64) (frames : List Frame)
    (log : List StreamEvent) (x : Except IoError ℕ) : Prop :=
  (writtenOf log = [] ∧ ∃ error, x = .error error) ∨
    ∃ accepted rest opening new, frames = accepted :: rest ∧ Agrees bits expectedSize accepted ∧
      log = opening ++ new ∧ writtenOf opening = [] ∧
      Received sha256 bits accepted.id expectedSize.toNat 0 [] rest new x

section Opening
variable {transfer : ℕ → ℕ → List Frame → Transfer ℕ}

theorem openDownload_spec {Q : List StreamEvent → Except IoError ℕ → Prop}
    (hstop : ∀ log, writtenOf log = [] → ∀ error, Q log (.error error))
    (htransfer : ∀ accepted rest opening, frames = accepted :: rest →
      Agrees bits expectedSize accepted →
      writtenOf opening = [] → Ensures opening Q (transfer accepted.id expectedSize.toNat rest).run) :
    Ensures [] Q (openDownload bits client now fileId expectedSize frames failure transfer).run := by
  refine checkMedia_spec.tryBind ?_ ?_
  · rintro _ _ rfl
    refine Ensures.tryBind (Ensures.perform (Q := fun log' x => log' = [] ++ [⟨_, x⟩]) fun _ => rfl)
      ?_ ?_
    · rintro _ id rfl
      cases frames with
      | nil => exact hstop _ rfl failure
      | cons accepted rest =>
        dsimp only
        unfold ensure
        split_ifs with haccepted
        · obtain ⟨rfl, hkind, hcode⟩ := of_decide_eq_true haccepted
          refine Ensures.tryBind (Q := fun log' x => log' = _ ∧ x = announcedSize bits accepted)
            ⟨rfl, rfl⟩ ?_ ?_
          · rintro _ announced ⟨rfl, hannounced⟩
            split_ifs with hsize
            · obtain rfl := of_decide_eq_true hsize
              exact htransfer accepted rest _ rfl ⟨hkind, hcode, hannounced.symm⟩ rfl
            · refine ((refuse_spec 409 _).stop _).mono ?_
              rintro _ _ ⟨rfl, rfl⟩
              exact hstop _ rfl _
          · rintro _ error ⟨rfl, -⟩
            exact hstop _ rfl error
        · refine ((reject_spec _).stop _).mono ?_
          rintro _ _ ⟨rfl, rfl⟩
          exact hstop _ rfl _
    · rintro _ error rfl
      exact hstop _ rfl error
  · rintro _ error rfl
    exact hstop _ rfl error

theorem interact_openDownload {accepted : Frame} (transfer : ℕ → ℕ → List Frame → Transfer ℕ)
    (now : ℕ) (fileId : String) (rest : List Frame) (failure : IoError) (last : Frame)
    (hready : client.mayStream = true) (hagrees : Agrees bits expectedSize accepted) :
    ∃ opening, writtenOf opening = [] ∧
      interact (obliging accepted.id accepted last)
          (openDownload bits client now fileId expectedSize (accepted :: rest) failure transfer).run
            [] =
        interact (obliging accepted.id accepted last)
        (transfer accepted.id expectedSize.toNat rest).run opening := by
  have haccepted : ∀ stop, ensure (accepted.id = accepted.id ∧ accepted.kind = kindAck ∧
    accepted.code = 100) stop =
      pure () := fun stop => if_pos (decide_eq_true ⟨rfl, hagrees.kind, hagrees.code⟩)
  have hsize : ∀ stop, ensure (expectedSize = expectedSize) stop = pure () :=
    fun stop => if_pos (decide_eq_true rfl)
  refine ⟨[⟨.begin kindStreamOpen mediaOpDownload (saturatingAdd now client.readTimeoutMs)
    (encodeCbor (.map [("file_id", .text fileId)])), .ok accepted.id⟩], rfl, ?_⟩
  rw [openDownload, interact_tryThen (interact_checkMedia hready _ _),
    interact_tryThen (interact_perform rfl)]
  dsimp only
  rw [haccepted, interact_tryThen rfl, hagrees.size, interact_tryThen rfl, hsize, interact_tryThen rfl]
  rfl

end Opening

theorem download_spec :
    Ensures [] (Downloaded sha256 bits expectedSize frames)
      (downloadMedia sha256 bits client now fileId expectedSize frames failure).run := by
  refine openDownload_spec (fun _ hlog error => .inl ⟨hlog, error, rfl⟩) ?_
  intro accepted rest opening hframes hagrees hopening
  refine (receive_spec expectedSize.toNat_lt).mono ?_
  rintro _ _ ⟨new, rfl, hnew⟩
  exact .inr ⟨accepted, rest, opening, new, hframes, hagrees, rfl, hopening, hnew⟩

theorem dataPayloads_append (first last : List Frame) :
    dataPayloads (first ++ last) = dataPayloads first ++ dataPayloads last := by
  rw [dataPayloads, List.filter_append, List.flatMap_append]
  rfl

theorem dataPayloads_taken {id : ℕ} {taken : List Frame}
    (h : ∀ frame ∈ taken, acceptable id frame = true) :
    dataPayloads taken = taken.flatMap Frame.payload := by
  rw [dataPayloads, List.filter_eq_self.mpr]
  intro frame hframe
  have hdata := h frame hframe
  simp only [acceptable, Bool.and_eq_true] at hdata
  exact hdata.1.1.2

theorem leading_start (id : ℕ) (frames : List Frame) :
    leading id frames <+: dataPayloads frames := by
  have hsplit := List.takeWhile_append_dropWhile (p := acceptable id) (l := frames)
  refine ⟨dataPayloads (frames.dropWhile (acceptable id)), ?_⟩
  nth_rewrite 3 [← hsplit]
  rw [dataPayloads_append, dataPayloads_taken fun frame hframe => List.mem_takeWhile_imp hframe]
  rfl

theorem Agrees.no_data {accepted : Frame} (h : Agrees bits expectedSize accepted)
    (rest : List Frame) : dataPayloads (accepted :: rest) = dataPayloads rest := by
  have hkind : ¬ (decide (accepted.kind = kindStreamData) = true) := by
    rw [h.kind]
    decide
  rw [dataPayloads, List.filter_cons, if_neg hkind]
  rfl

theorem Downloaded.bounded (h : Downloaded sha256 bits expectedSize frames log x)
    (hover : ¬ Overruns bits expectedSize frames) :
    Bounded sha256 bits expectedSize frames log x := by
  obtain ⟨hnone, error, rfl⟩ | ⟨accepted, rest, opening, new, rfl, hagrees, rfl, hopening, hnew⟩ := h
  · refine ⟨?_, ?_, ?_⟩
    · rw [hnone]
      exact Nat.zero_le _
    · rw [hnone]
      exact List.nil_prefix
    · rintro n ⟨⟩
  · have hfits : (leading accepted.id rest).length ≤ expectedSize.toNat := by
      by_contra hlt
      exact hover ⟨accepted, rest, rfl, hagrees.kind, hagrees.code, hagrees.size, not_le.mp hlt⟩
    have hwritten : writtenOf (opening ++ new) = writtenOf new := by
      rw [writtenOf_append, hopening, List.nil_append]
    refine ⟨?_, ?_, ?_⟩
    · rw [hwritten]
      exact hnew.order.length_le.trans hfits
    · rw [hwritten, hagrees.no_data]
      exact hnew.order.trans (leading_start _ _)
    · intro n hn
      obtain ⟨hsize, taken, last, rest, ending, rfl, htaken, hlast, htarget, hlength, hdecode,
        hannounces⟩ :=
        hnew.complete (by omega) n hn
      rw [hwritten]
      refine ⟨hsize, accepted :: taken, last, rest, ending, rfl, hlast, ?_, ?_, hdecode, hannounces⟩
      · rw [hagrees.no_data, dataPayloads_taken htaken, htarget]
      · omega

theorem allWritten_obliging {id : ℕ} {ack last : Frame} {new : List StreamEvent}
    (hanswers : ∀ before e after, new = before ++ e :: after →
      e.answer = obliging id ack last (log ++ before) e.op) : AllWritten new := by
  rintro e he bytes count error rfl
  obtain ⟨before, after, hsplit⟩ := List.append_of_mem he
  cases hanswers before _ after hsplit

/-- A download that is not sent more than it expects keeps what it promises, however the target
behaves; one that is sent more writes more when the target takes everything. -/
theorem downloads_bounded_iff (sha256 : Bytes → Block 32) (bits now : ℕ) {client : MediaClient}
    (fileId : String) (expectedSize : UInt64) (frames : List Frame) (failure : IoError)
    (hready : client.mayStream = true) :
    (∀ log x,
      result (downloadMedia sha256 bits client now fileId expectedSize frames failure).run log =
        some x → Bounded sha256 bits expectedSize frames log x) ↔
      ¬ Overruns bits expectedSize frames := by
  constructor
  · rintro hbounded ⟨accepted, rest, rfl, hkind, hcode, hsize, hexcess⟩
    obtain ⟨opening, hopening, hloop⟩ :=
      interact_openDownload (fun id announced frames => receive sha256 bits id announced failure
        frames 0 []) now fileId rest failure accepted hready ⟨hkind, hcode, hsize⟩
    obtain ⟨log, hlog, hrun⟩ := result_interact (obliging accepted.id accepted accepted)
      (downloadMedia sha256 bits client now fileId expectedSize (accepted :: rest) failure).run []
    obtain ⟨new, hnew, hanswers⟩ := interact_answers (obliging accepted.id accepted accepted)
      (receive sha256 bits accepted.id expectedSize.toNat failure rest 0 []).run opening
    have hlog : log = opening ++ new := by rw [← hnew, ← hloop, ← downloadMedia, hlog, List.nil_append]
    have hwritten : writtenOf log = writtenOf new := by
      rw [hlog, writtenOf_append, hopening, List.nil_append]
    obtain ⟨new', hnew', hreceived⟩ := (receive_spec expectedSize.toNat_lt).interacts
      (obliging accepted.id accepted accepted)
    obtain rfl : new = new' := List.append_cancel_left (hnew.symm.trans hnew')
    have hlarge := hreceived.excess (allWritten_obliging hanswers) (Nat.zero_le _) (by omega)
    have hsmall := (hbounded log _ hrun).size
    rw [hwritten] at hsmall
    omega
  · intro hover log x hrun
    exact (download_spec.of_result hrun).bounded hover

def sampleAccepted (size : UInt64) : Frame :=
  ⟨kindAck, 0, 100, 7, zeroNonce, 0, encodeCbor (.map [("size", .unsigned size)])⟩

def sampleData : Frame := ⟨kindStreamData, 0, 0, 7, zeroNonce, 0, [1, 2, 3]⟩

def sampleEnd : Frame :=
  ⟨kindStreamEnd, 0, 200, 7, zeroNonce, 0, encodeCbor (.map [("size", .unsigned 3),
    ("sha256", .text (mediaHex (sampleDigest [1, 2, 3]).toList))])⟩

def sampleDownload (expectedSize : UInt64) : StreamProg (Except IoError ℕ) :=
  (downloadMedia sampleDigest 64 sampleClient 5 "f" expectedSize
    [sampleAccepted expectedSize, sampleData, sampleEnd] ⟨.timedOut, "MST5 request timed out"⟩).run

def sampleLog (expectedSize : UInt64) : List StreamEvent :=
  (interact (obliging 7 sampleData sampleData) (sampleDownload expectedSize) []).1

theorem downloads_bounded_iff_three : result (sampleDownload 3) (sampleLog 3) = some (.ok 3) ∧
    Bounded sampleDigest 64 3 [sampleAccepted 3, sampleData, sampleEnd] (sampleLog 3) (.ok 3) := by
  have hrun : result (sampleDownload 3) (sampleLog 3) = some (.ok 3) := by decide +kernel
  have hready : sampleClient.mayStream = true := by decide
  have hfits : ¬ Overruns 64 3 [sampleAccepted 3, sampleData, sampleEnd] := by
    rintro ⟨accepted, rest, h, -, -, -, hexcess⟩
    cases h
    revert hexcess
    decide +kernel
  exact ⟨hrun, (downloads_bounded_iff sampleDigest 64 5 "f" 3 _ _ hready).mpr hfits _ _ hrun⟩

/-- One byte is expected and announced, and three are written before the download fails. -/
theorem download_overruns : announcedSize 64 (sampleAccepted 1) = .ok 1 ∧
    result (sampleDownload 1)
    (sampleLog 1) = some (.error (invalidData "media exceeds announced size")) ∧
    writtenOf (sampleLog 1) = [1, 2, 3] := by
  refine ⟨?_, ?_, ?_⟩ <;> decide +kernel

end Mst5Client.MediaDownloads
