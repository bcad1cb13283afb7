import Mst5Client.MediaRoundTrip
import Mst5Client.UploadSteps

set_option autoImplicit false

/-!
# What confirms an upload

After `STREAM_END` every upload waits for one frame of the node and returns what `settle` makes of
it.
-/
namespace Mst5Client.UploadConfirmation
open ByteOrder IoResult AuthenticatedCipher TaskTraces ProgramEnvironments CborValues ConnectionState
open MediaContainer (MediaKey MediaEncryptor)
open MediaStreams UploadSteps

/-- A call of one of the three uploads. -/
inductive Upload where
  | whole (size : UInt64) (source : Source mediaChunkSize)
  | resumable (size offset : UInt64) (checksum : String) (source : Source mediaChunkSize)
  | sealed (A : Aead MediaKey) (plaintextSize : ℕ) (source : Source MediaContainer.mediaChunkSize)
      (encryptor : MediaEncryptor)

variable (sha256 : Bytes → Block 32) (bits : ℕ) (client : MediaClient) (now : ℕ) (fileId : String)

def Upload.call : Upload → Transfer Unit
  | .whole size source => uploadMedia sha256 bits client now fileId size source
  | .resumable size offset checksum source =>
    uploadMediaResumable bits client now fileId size offset checksum source
  | .sealed A plaintextSize source encryptor =>
    uploadMediaE2eWithEncryptor sha256 bits client now fileId A plaintextSize source encryptor

def received : StreamEvent → Option Frame
  | ⟨.recv, .ok frame⟩ => some frame
  | _ => none

def confirmation (log : List StreamEvent) : Option Frame :=
  (log.dropWhile fun e => !isEnd e.op)[1]?.bind received

/-- The node has taken the upload. -/
def Confirms (frame : Frame) : Prop := frame.kind = kindResult ∧ frame.code = 200

instance (frame : Frame) : Decidable (Confirms frame) :=
  inferInstanceAs (Decidable (frame.kind = kindResult ∧ frame.code = 200))

/-- A frame that fails the upload: an error, or a payload that is not CBOR. -/
def Refuses (frame : Frame) : Prop :=
  (Response.fromFrame frame).isError = true ∨ ∃ e, (Response.fromFrame frame).intoCbor bits = .error e

variable {sha256 bits client now fileId} {α : Type} {log : List StreamEvent} {frame : Frame}

theorem confirmation_quiet (h : Quiet log) : confirmation log = none := by
  have hdrop : log.dropWhile (fun e => !isEnd e.op) = [] := by
    rw [← List.append_nil log, List.dropWhile_append_of_pos]
    · rfl
    · intro e he
      simp [h e he]
  rw [confirmation, hdrop]
  rfl

theorem confirmation_after {e : StreamEvent} {rest : List StreamEvent} (h : Quiet log)
    (he : isEnd e.op = true) : confirmation (log ++ e :: rest) = rest.head?.bind received := by
  have hdrop : (log ++ e :: rest).dropWhile (fun e => !isEnd e.op) = e :: rest := by
    rw [List.dropWhile_append_of_pos, List.dropWhile_cons_of_neg (by simp [he])]
    intro e he
    simp [h e he]
  rw [confirmation, hdrop]
  cases rest with
  | nil => rfl
  | cons _ _ => rfl

theorem settle_ok_iff : settle bits (.fromFrame frame) = .ok () ↔ Confirms frame ∨
    ¬ Refuses bits frame := by
  unfold settle Confirms Refuses
  by_cases hconfirms : frame.kind = kindResult ∧ frame.code = 200
  · simp [Response.fromFrame, hconfirms]
  · have hother : (Response.fromFrame frame).kind ≠ kindResult ∨
      (Response.fromFrame frame).status ≠ 200 :=
      not_and_or.mp hconfirms
    rw [if_pos hother, or_iff_right hconfirms, Response.intoResult]
    cases (Response.fromFrame frame).intoCbor bits with
    | error e => simp [bind, Except.bind, Except.map]
    | ok value =>
      cases (Response.fromFrame frame).isError <;>
        simp [bind, Except.bind, Except.map, pure, Except.pure, throw, throwThe, MonadExceptOf.throw]

/-- The frame after `STREAM_END` decides, and without one the upload fails. -/
def Settled (bits : ℕ) (log : List StreamEvent) (x : Except IoError Unit) : Prop :=
  (∀ frame, confirmation log = some frame → x = settle bits (.fromFrame frame)) ∧
    (x = .ok () → ∃ frame, confirmation log = some frame)

theorem settled_error (h : confirmation log = none) (e : IoError) :
    Settled bits log (.error e) := by
  refine ⟨?_, nofun⟩
  intro frame hframe
  rw [h] at hframe
  cases hframe

theorem settled_then {p : Transfer α} {f : α → Transfer Unit} (hp : Holds p) (hlog : Quiet log)
    (hf : ∀ log a, Quiet log → Ensures log (Settled bits) (f a).run) :
    Ensures log (Settled bits) (p >>= f).run := by
  refine (Ensures.of_uses hp).tryBind ?_ ?_
  · rintro _ a ⟨new, rfl, hnew⟩
    exact hf _ a (hlog.append hnew)
  · rintro _ e ⟨new, rfl, hnew⟩
    exact settled_error (confirmation_quiet (hlog.append hnew)) e

theorem finishUpload_settled (ending : Value) (hlog : Quiet log) :
    Ensures log (Settled bits) (finishUpload bits ending).run := by
  have hend : ∀ rest answer,
    confirmation (log ++ ⟨.send kindStreamEnd 200 (encodeCbor ending), answer⟩ :: rest) =
      rest.head?.bind received := fun rest answer => confirmation_after hlog rfl
  refine Ensures.tryBind (Ensures.perform (Q := fun log' x => log' = log ++ [⟨_, x⟩]) fun _ => rfl)
    ?_ ?_
  · rintro _ _ rfl
    refine Ensures.tryBind (Ensures.perform (Q := fun log' x => log' = _ ++ [⟨_, x⟩]) fun _ => rfl)
      ?_ ?_
    · rintro _ frame rfl
      rw [List.append_assoc, List.singleton_append]
      refine ⟨?_, fun _ => ⟨frame, hend _ _⟩⟩
      intro other hother
      cases (hend _ _).symm.trans hother
      rfl
    · rintro _ e rfl
      rw [List.append_assoc, List.singleton_append]
      exact settled_error (hend _ _) e
  · rintro _ e rfl
    exact settled_error (hend _ _) e

theorem call_settled (upload : Upload) :
    Ensures [] (Settled bits) (upload.call sha256 bits client now fileId).run := by
  have hstart : Quiet [] := fun _ he => absurd he List.not_mem_nil
  cases upload with
  | whole size source =>
    refine settled_then (holds_checkMedia client) hstart fun log _ hlog => ?_
    refine settled_then (holds_openUpload client now _) hlog fun log _ hlog => ?_
    refine settled_then (holds_transmit _ _ _ _ _) hlog fun log x hlog => ?_
    exact settled_then (holds_checkSent _ _) hlog fun log _ hlog => finishUpload_settled _ hlog
  | resumable size offset checksum source =>
    refine settled_then (holds_ensure (holds_throw _)) hstart fun log _ hlog => ?_
    refine settled_then (holds_checkMedia client) hlog fun log _ hlog => ?_
    refine settled_then (holds_openUpload client now _) hlog fun log accepted hlog => ?_
    refine settled_then (holds_fromExcept _) hlog fun log _ hlog => ?_
    refine settled_then (holds_ensure ?_) hlog fun log _ hlog => ?_
    · exact holds_compositional.tryBind holds_remove fun _ => holds_throw _
    refine settled_then (holds_transmit _ _ _ _ _) hlog fun log x hlog => ?_
    exact settled_then (holds_checkSent _ _) hlog fun log _ hlog => finishUpload_settled _ hlog
  | sealed A plaintextSize source encryptor =>
    refine settled_then (holds_fromExcept _) hstart fun log encryptedSize hlog => ?_
    refine settled_then (holds_checkMedia client) hlog fun log _ hlog => ?_
    refine settled_then (holds_openUpload client now _) hlog fun log _ hlog => ?_
    refine settled_then (holds_fromExcept _) hlog fun log sent hlog => ?_
    refine settled_then (holds_sendData _) hlog fun log _ hlog => ?_
    refine settled_then (holds_transmitSealed _ _ _ _ _ _) hlog fun log x hlog => ?_
    refine settled_then (holds_orAbort 400 (holds_fromExcept _)) hlog fun log _ hlog => ?_
    refine settled_then (holds_ensure (holds_refuse _ _)) hlog fun log _ hlog => ?_
    exact finishUpload_settled _ hlog

/-- An upload succeeds only on a confirmation, in exactly the runs whose last frame is a
confirmation or an error. -/
theorem success_confirmed_iff {sha256 : Bytes → Block 32} {bits : ℕ} {client : MediaClient}
    {now : ℕ} {fileId : String} (upload : Upload) {log : List StreamEvent} {x : Except IoError Unit}
    (hrun : result (upload.call sha256 bits client now fileId).run log = some x) :
    (x = .ok () → ∃ frame, confirmation log = some frame ∧ Confirms frame) ↔
      ∀ frame, confirmation log = some frame → Confirms frame ∨ Refuses bits frame := by
  obtain ⟨hsettle, hframe⟩ := (call_settled upload).of_result hrun
  rw [List.nil_append] at hsettle hframe
  constructor
  · intro hconfirmed frame hlast
    by_contra hneither
    obtain ⟨hconfirms, hrefuses⟩ := not_or.mp hneither
    obtain ⟨last, hlast', hconfirms'⟩ :=
      hconfirmed ((hsettle frame hlast).trans (settle_ok_iff.mpr (.inr hrefuses)))
    cases hlast.symm.trans hlast'
    exact hconfirms hconfirms'
  · intro hlast hok
    obtain ⟨frame, hlog⟩ := hframe hok
    refine ⟨frame, hlog, ?_⟩
    obtain hconfirms | hrefuses := hlast frame hlog
    · exact hconfirms
    · have hsettled := settle_ok_iff.mp ((hsettle frame hlog).symm.trans hok)
      exact hsettled.resolve_right (not_not.mpr hrefuses)

def emptySource (buffer : ℕ) : Source buffer where
  reads := []
  failure := none
  fits := fun _ h => absurd h List.not_mem_nil

def sampleWhole : Upload := .whole 0 (emptySource _)

def sampleResumable : Upload := .resumable 0 0 (String.ofList (List.replicate 64 'a')) (emptySource _)

def sampleEncryptor : MediaEncryptor := ⟨blockOf 32 [], [], MediaRoundTrip.sampleNoncePrefix, 0, 0, 0⟩

def sampleSealed : Upload := .sealed MediaRoundTrip.sampleCipher 0 (emptySource _) sampleEncryptor

def sampleAck : Frame := ⟨kindAck, 0, 100, 7, zeroNonce, 0, [0xa0]⟩

def sampleResult : Frame := ⟨kindResult, 0, 200, 7, zeroNonce, 0, []⟩

def sampleCall (upload : Upload) : StreamProg (Except IoError Unit) :=
  (upload.call sampleDigest 64 sampleClient 5 "f").run

def sampleLog (upload : Upload) (last : Frame) : List StreamEvent :=
  (interact (obliging 7 sampleAck last) (sampleCall upload) []).1

theorem success_confirmed_iff_result :
    result (sampleCall sampleWhole) (sampleLog sampleWhole sampleResult) = some (.ok ()) ∧
      ∃ frame, confirmation (sampleLog sampleWhole sampleResult) = some frame ∧ Confirms frame := by
  have hrun : result (sampleWhole.call sampleDigest 64 sampleClient 5 "f").run
      (sampleLog sampleWhole sampleResult) = some (.ok ()) := by decide +kernel
  have hlast : confirmation (sampleLog sampleWhole sampleResult) = some sampleResult := by
    decide +kernel
  refine ⟨hrun, (success_confirmed_iff sampleWhole hrun).mpr ?_ rfl⟩
  intro frame hframe
  cases hlast.symm.trans hframe
  exact .inl ⟨rfl, rfl⟩

/-- The node repeats its `ACK`, and each of the uploads reports success. -/
theorem repeated_ack_succeeds :
    (result (sampleCall sampleWhole) (sampleLog sampleWhole sampleAck) = some (.ok ()) ∧
      confirmation (sampleLog sampleWhole sampleAck) = some sampleAck) ∧
    (result (sampleCall sampleResumable) (sampleLog sampleResumable sampleAck) = some (.ok ()) ∧
      confirmation (sampleLog sampleResumable sampleAck) = some sampleAck) ∧
    (result (sampleCall sampleSealed) (sampleLog sampleSealed sampleAck) = some (.ok ()) ∧
      confirmation (sampleLog sampleSealed sampleAck) = some sampleAck) ∧
    ¬ Confirms sampleAck := by
  refine ⟨⟨?_, ?_⟩, ⟨?_, ?_⟩, ⟨?_, ?_⟩, ?_⟩ <;> decide +kernel

end Mst5Client.UploadConfirmation
