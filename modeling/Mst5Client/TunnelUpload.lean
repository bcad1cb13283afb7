import Mst5Client.HttpResponses

set_option autoImplicit false

/-!
# The upload half of the M5oH tunnel

`upload_loop` of `m5oh.rs` cuts the bytes a local client writes into numbered GET requests. The
sizes of the reads, the coalescing timer and every HTTP exchange are given by a schedule, one `Turn`
for each pass through the loop.
-/
namespace Mst5Client.TunnelUpload
open ByteOrder IoResult
open HttpResponses (HttpResponse)

def maxGetTarget : ℕ := 23 * 1024

def getTargetPrefix : ℕ := 4

def packetRouteDestinationBytes : ℕ := 8

def uploadChunk : ℕ := (maxGetTarget - getTargetPrefix) / 4 * 3 - packetRouteDestinationBytes

structure Request where
  sequence : ℕ
  payload : Bytes
  eof : Bool
deriving DecidableEq

/-- One exchange over HTTP. The router may have processed the request before it failed. -/
inductive Attempt where
  | answered (response : HttpResponse) (processed : Bool)
  | broken (e : IoError) (processed : Bool)

def Attempt.result (lossy : Bytes → String) : Attempt → Except IoError HttpResponse
  | .answered response _ => response.accepted lossy
  | .broken e _ => .error e

def Attempt.processed : Attempt → Bool
  | .answered response processed => response.status = 200 || processed
  | .broken _ processed => processed

/-- `first` bounds the first read and `more` the reads that follow it, where `none` is the timer. -/
structure Turn where
  first : Except IoError ℕ
  more : List (Option (Except IoError ℕ))
  attempt : Attempt
  reconnect : Except IoError Unit
  retry : Attempt
  reopen : Except IoError Unit

structure Filling where
  unread : Bytes
  buffer : Bytes
  count : ℕ
  eof : Bool

/-- `reader.read(&mut buffer[count..])`. A socket gives at least one byte until its end. -/
def Filling.read (f : Filling) (offer : ℕ) : Filling × ℕ :=
  let n := min (max 1 offer) (min (f.buffer.length - f.count) f.unread.length)
  ({ f with unread := f.unread.drop n, buffer := copyAt f.buffer f.count (f.unread.take n) }, n)

def coalesce : List (Option (Except IoError ℕ)) → Filling → Except IoError Filling
  | [], f => .ok f
  | choice :: more, f =>
    if f.eof = false ∧ f.count < f.buffer.length then
      match choice with
      | none => .ok f
      | some (.error e) => .error e
      | some (.ok offer) =>
        let (f, n) := f.read offer
        if n = 0 then .ok { f with eof := true } else coalesce more { f with count := f.count + n }
    else .ok f

/-- `sent` and `applied` are the requests put on the wire and those the router has applied. -/
structure Upload where
  sequence : ℕ
  buffer : Bytes
  unread : Bytes
  sent : List Request
  applied : List Request

def Upload.start (stream : Bytes) : Upload := ⟨1, List.replicate uploadChunk 0, stream, [], []⟩

def Upload.firstRead (s : Upload) (offer : ℕ) : Filling :=
  let (f, count) := (Filling.mk s.unread s.buffer 0 false).read offer
  { f with count := count, eof := count = 0 }

def Upload.fill (s : Upload) (t : Turn) : Except IoError Filling :=
  match t.first with
  | .error e => .error e
  | .ok offer => coalesce t.more (s.firstRead offer)

def applyOnce (applied : List Request) (request : Request) : List Request :=
  if request.sequence ∈ applied.map Request.sequence then applied else applied ++ [request]

variable (lossy : Bytes → String)

def Upload.requestOn (s : Upload) (request : Request) (attempt : Attempt) :
    Upload × Except IoError HttpResponse :=
  ({ s with
      sent := s.sent ++ [request]
      applied := if attempt.processed then applyOnce s.applied request else s.applied },
    attempt.result lossy)

def Upload.send (s : Upload) (t : Turn) (request : Request) :
    Upload × Except IoError HttpResponse :=
  match s.requestOn lossy request t.attempt with
  | (s, .ok response) => (s, .ok response)
  | (s, .error _) =>
    match t.reconnect with
    | .error e => (s, .error e)
    | .ok () => s.requestOn lossy request t.retry

def sequenceExhausted : IoError := ⟨.other, "M5oH upload sequence exhausted"⟩

def Upload.turn (s : Upload) (t : Turn) : Upload × Option (Except IoError Unit) :=
  match s.fill t with
  | .error e => (s, some (.error e))
  | .ok f =>
    match { s with unread := f.unread, buffer := f.buffer }.send lossy t
        ⟨s.sequence, f.buffer.take f.count, f.eof⟩ with
    | (s, .error e) => (s, some (.error e))
    | (s, .ok response) =>
      match if response.closes then t.reopen else .ok () with
      | .error e => (s, some (.error e))
      | .ok () =>
        match checkedAdd s.sequence 1 with
        | none => (s, some (.error sequenceExhausted))
        | some sequence => ({ s with sequence := sequence }, if f.eof then some (.ok ()) else none)

variable {f : Filling} {stream : Bytes}

/-- The buffer begins with what has been read of `stream`, and nothing else has been read. -/
structure Fills (stream : Bytes) (size : ℕ) (f : Filling) : Prop where
  size_eq : f.buffer.length = size
  count : f.count ≤ f.buffer.length
  split : f.buffer.take f.count ++ f.unread = stream
  ended : 0 < size → f.eof = true → f.unread = []
  advances : f.eof = false → 0 < f.count

theorem copyAt_length {buffer source : Bytes} {offset : ℕ}
    (h : offset + source.length ≤ buffer.length) :
    (copyAt buffer offset source).length = buffer.length := by
  simp only [copyAt, List.length_append, List.length_take, List.length_drop]
  omega

theorem take_copyAt {buffer source : Bytes} {offset : ℕ}
    (h : offset + source.length ≤ buffer.length) :
    (copyAt buffer offset source).take (offset + source.length) = buffer.take offset ++ source := by
  refine List.take_left' ?_
  rw [List.length_append, List.length_take]
  omega

theorem read_spec (hcount : f.count ≤ f.buffer.length)
    (hsplit : f.buffer.take f.count ++ f.unread = stream) (offer : ℕ) :
    (f.read offer).1.buffer.length = f.buffer.length ∧ f.count + (f.read offer).2 ≤ f.buffer.length ∧
      (f.read offer).1.buffer.take (f.count + (f.read offer).2) ++ (f.read offer).1.unread = stream ∧
      ((f.read offer).2 = 0 → f.count < f.buffer.length → f.unread = []) := by
  simp only [Filling.read]
  generalize hn : min (max 1 offer) (min (f.buffer.length - f.count) f.unread.length) = n
  have hroom : f.count + n ≤ f.buffer.length := by omega
  have htake : (f.unread.take n).length = n := by
    rw [List.length_take]
    omega
  have hfit : f.count + (f.unread.take n).length ≤ f.buffer.length := by rwa [htake]
  refine ⟨copyAt_length hfit, hroom, ?_, ?_⟩
  · have hfront := take_copyAt hfit
    rw [htake] at hfront
    rw [hfront, List.append_assoc, List.take_append_drop, hsplit]
  · intro hzero hless
    exact List.length_eq_zero_iff.mp (by omega)

theorem coalesce_fills {size : ℕ} {more : List (Option (Except IoError ℕ))} {g : Filling}
    (hf : Fills stream size f) (h : coalesce more f = .ok g) : Fills stream size g := by
  induction more generalizing f with
  | nil => exact Except.ok.inj h ▸ hf
  | cons choice more ih =>
    rw [coalesce.eq_def] at h
    simp only at h
    by_cases hopen : f.eof = false ∧ f.count < f.buffer.length
    swap
    · rw [if_neg hopen] at h
      exact Except.ok.inj h ▸ hf
    rw [if_pos hopen] at h
    rcases choice with _ | (e | offer)
    · exact Except.ok.inj h ▸ hf
    · cases h
    · obtain ⟨hlength, hcount, hsplit, hended⟩ := read_spec hf.count hf.split offer
      dsimp only at h
      by_cases hzero : (f.read offer).2 = 0
      · rw [if_pos hzero] at h
        rw [← Except.ok.inj h]
        have hempty : f.unread = [] := hended hzero hopen.2
        rw [hzero] at hsplit
        exact ⟨hlength.trans hf.size_eq, hlength ▸ hf.count, hsplit,
          fun _ _ => by simp [Filling.read, hempty], fun hfalse => Bool.noConfusion hfalse⟩
      · rw [if_neg hzero] at h
        have hnext : Fills stream size { (f.read offer).1 with count := f.count + (f.read offer).2 } :=
          ⟨hlength.trans hf.size_eq, hlength.symm ▸ hcount, hsplit,
            fun _ heof => absurd (hopen.1.symm.trans heof) Bool.false_ne_true,
            fun _ => Nat.add_pos_left (hf.advances hopen.1) _⟩
        exact ih hnext h

theorem firstRead_fills (s : Upload) (offer : ℕ) :
    Fills s.unread s.buffer.length (s.firstRead offer) := by
  obtain ⟨hlength, hcount, hsplit, hended⟩ :=
    read_spec (f := ⟨s.unread, s.buffer, 0, false⟩) (Nat.zero_le _) rfl offer
  rw [Nat.zero_add] at hcount hsplit
  refine ⟨hlength, hlength.symm ▸ hcount, hsplit, fun hpos heof => ?_, fun heof => ?_⟩
  · have hempty : s.unread = [] := hended (of_decide_eq_true heof) hpos
    simp [Upload.firstRead, Filling.read, hempty]
  · exact Nat.pos_of_ne_zero (of_decide_eq_false heof)

theorem fill_fills {s : Upload} {t : Turn} (h : s.fill t = .ok f) :
    Fills s.unread s.buffer.length f := by
  rw [Upload.fill] at h
  cases hfirst : t.first with
  | error e => simp [hfirst] at h
  | ok offer =>
    rw [hfirst] at h
    exact coalesce_fills (firstRead_fills s offer) h

theorem Fills.unread_lt {size : ℕ} (h : Fills stream size f) (heof : f.eof = false) :
    f.unread.length < stream.length := by
  have hpos := h.advances heof
  have hlen := congrArg List.length h.split
  have hcount := h.count
  rw [List.length_append, List.length_take] at hlen
  omega

theorem send_unread (lossy : Bytes → String) (s : Upload) (t : Turn) (request : Request) :
    (s.send lossy t request).1.unread = s.unread := by
  simp only [Upload.send, Upload.requestOn]
  cases t.attempt.result lossy with
  | ok response => rfl
  | error e => cases t.reconnect <;> rfl

theorem turn_unread_lt {lossy : Bytes → String} {s u : Upload} {t : Turn}
    (h : s.turn lossy t = (u, none)) : u.unread.length < s.unread.length := by
  simp only [Upload.turn] at h
  cases hfill : s.fill t with
  | error e => simp [hfill] at h
  | ok f =>
    have hfills := fill_fills hfill
    simp only [hfill] at h
    have hunread := send_unread lossy { s with unread := f.unread, buffer := f.buffer } t
      ⟨s.sequence, f.buffer.take f.count, f.eof⟩
    split at h
    · cases h
    · rename_i sent response heq
      rw [heq] at hunread
      split at h
      · cases h
      · split at h
        · cases h
        · obtain ⟨rfl, hnone⟩ := Prod.mk.inj h
          cases heof : f.eof with
          | true => simp [heof] at hnone
          | false => exact hunread ▸ hfills.unread_lt heof

def uploadLoop (lossy : Bytes → String) (turns : ℕ → Turn) (n : ℕ) (s : Upload) :
    Upload × Except IoError Unit :=
  match h : s.turn lossy (turns n) with
  | (u, some result) => (u, result)
  | (u, none) =>
    have := turn_unread_lt h
    uploadLoop lossy turns (n + 1) u
termination_by s.unread.length

def upload (lossy : Bytes → String) (opened : Except IoError Unit) (turns : ℕ → Turn)
    (stream : Bytes) : Upload × Except IoError Unit :=
  match opened with
  | .error e => (Upload.start stream, .error e)
  | .ok () => uploadLoop lossy turns 0 (Upload.start stream)

end Mst5Client.TunnelUpload
