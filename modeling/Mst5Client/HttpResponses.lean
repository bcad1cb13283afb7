import Mst5Client.AccountClient

set_option autoImplicit false

/-!
# Reading an HTTP response

`read_line` and `read_response` of `m5oh.rs` over what a connection still gives.
-/
namespace Mst5Client.HttpResponses
open ByteOrder IoResult
open AccountClient (trim)

def maxHttpHead : ℕ := 64 * 1024
def maxHttpBody : ℕ := 8 * 1024 * 1024

/-- The bytes of a connection up to its end, or up to an error. -/
structure Incoming where
  bytes : Bytes
  failure : Option IoError

def lineFeed : UInt8 := 10

def crlf : Bytes := [13, 10]

/-- The line with what is behind it. It holds all that has come also when the connection fails. -/
def Incoming.readUntil (s : Incoming) : Bytes × Except IoError Incoming :=
  match s.bytes.dropWhile (· ≠ lineFeed), s.failure with
  | newline :: rest, failure => (s.bytes.takeWhile (· ≠ lineFeed) ++ [newline], .ok ⟨rest, failure⟩)
  | [], some e => (s.bytes, .error e)
  | [], none => (s.bytes, .ok ⟨[], none⟩)

def Incoming.readExact (s : Incoming) (length : ℕ) : Except IoError (Bytes × Incoming) :=
  if s.bytes.length < length then .error (s.failure.getD ⟨.unexpectedEof, "early eof"⟩)
  else .ok (s.bytes.take length, { s with bytes := s.bytes.drop length })

def textOf (bytes : Bytes) : Except IoError (Option String) :=
  if bytes = [] then .ok none
  else if maxHttpHead < bytes.length ∨ ¬ crlf <:+ bytes then
    .error (invalidData "invalid M5oH HTTP line")
  else
    match String.fromUTF8? ⟨(bytes.take (bytes.length - 2)).toArray⟩ with
    | none => .error (invalidData "M5oH HTTP header is not UTF-8")
    | some line => .ok (some line)

def readLine (s : Incoming) : Except IoError (Option String × Incoming) :=
  s.readUntil.2 >>= fun rest => (textOf s.readUntil.1).map fun line => (line, rest)

def splitOnce (c : Char) (cs : List Char) : Option (List Char × List Char) :=
  match cs.dropWhile (· ≠ c) with
  | [] => none
  | _ :: rest => some (cs.takeWhile (· ≠ c), rest)

def lower (s : String) : String := String.ofList (s.toList.map Char.toLower)

def parseUnsigned (bound : ℕ) (cs : List Char) : Option ℕ :=
  let digits : List Char := match cs with
    | '+' :: rest => rest
    | cs => cs
  let value := digits.foldl (fun n c => 10 * n + (c.toNat - 48)) 0
  if digits ≠ [] ∧ digits.all Char.isDigit ∧ value < bound then some value else none

/-- The second part of `splitn(3, ' ')`; there is none after the last space. -/
def statusOf (line : String) : Except IoError ℕ :=
  let (version, code) := match splitOnce ' ' line.toList with
    | none => (line.toList, [])
    | some (version, rest) => (version, rest.takeWhile (· ≠ ' '))
  if version ≠ "HTTP/1.1".toList then .error (invalidData "M5oH requires HTTP/1.1")
  else
    match parseUnsigned (2 ^ 16) code with
    | none => .error (invalidData "invalid M5oH HTTP status")
    | some status => .ok status

abbrev HttpHeaders := List (String × String)

structure HttpResponse where
  status : ℕ
  headers : HttpHeaders
  body : Bytes

theorem size_pos {line : String} (h : line ≠ "") : 0 < line.utf8ByteSize := by
  by_contra hsize
  exact h (String.utf8ByteSize_eq_zero_iff.mp (Nat.eq_zero_of_not_pos hsize))

/-- One turn of the header loop: the new total and the entry, or nothing for the empty line. `total` is
the size of the lines before. -/
def headerOf (total : ℕ) : Option String → Except IoError (Option (ℕ × String × String))
  | none => .error ⟨.unexpectedEof, "M5oH HTTP headers truncated"⟩
  | some line =>
    match checkedAdd total line.utf8ByteSize with
    | none => .error (invalidData "M5oH HTTP headers overflow")
    | some sum =>
      if maxHttpHead < sum then .error (invalidData "M5oH HTTP headers too large")
      else if line = "" then .ok none
      else
        match splitOnce ':' line.toList with
        | none => .error (invalidData "invalid M5oH HTTP header")
        | some (name, value) =>
          .ok (some (sum, lower (trim (String.ofList name)), trim (String.ofList value)))

def readHeader (total : ℕ) (s : Incoming) :
    Except IoError (Option (ℕ × String × String) × Incoming) :=
  readLine s >>= fun read => (headerOf total read.1).map fun header => (header, read.2)

theorem headerOf_some {total sum : ℕ} {text : String} {entry : String × String}
    (h : headerOf total (some text) = .ok (some (sum, entry))) :
    sum = total + text.utf8ByteSize ∧ sum ≤ maxHttpHead ∧ text ≠ "" ∧
      splitOnce ':' text.toList ≠ none := by
  dsimp only [headerOf] at h
  split at h
  next => cases h
  next sum' hsum =>
    split_ifs at h with hmax hline
    · cases h
    · split at h
      next => cases h
      next hsplit =>
        cases h
        exact ⟨(checkedAdd_eq_some hsum).symm, Nat.le_of_not_lt hmax, hline,
          hsplit ▸ Option.some_ne_none _⟩

theorem readHeader_eq_ok {total : ℕ} {s t : Incoming} {header : Option (ℕ × String × String)}
    (h : readHeader total s = .ok (header, t)) :
    ∃ text, readLine s = .ok (some text, t) ∧ headerOf total (some text) = .ok header := by
  obtain ⟨⟨text, u⟩, hline, hmapped⟩ := bind_eq_ok h
  obtain ⟨header', hheader, heq⟩ := map_eq_ok hmapped
  cases heq
  cases text with
  | none => cases hheader
  | some text => exact ⟨text, hline, hheader⟩

theorem readHeader_lt {total sum : ℕ} {s t : Incoming} {entry : String × String}
    (h : readHeader total s = .ok (some (sum, entry), t)) :
    maxHttpHead - sum < maxHttpHead - total := by
  obtain ⟨text, -, hheader⟩ := readHeader_eq_ok h
  obtain ⟨hsum, hmax, hline, -⟩ := headerOf_some hheader
  have hpos := size_pos hline
  omega

def readHeaders (total : ℕ) (headers : HttpHeaders) (s : Incoming) :
    Except IoError (HttpHeaders × Incoming) :=
  match h : readHeader total s with
  | .error e => .error e
  | .ok (none, s) => .ok (headers, s)
  | .ok (some (sum, entry), s) =>
    have := readHeader_lt h
    readHeaders sum (entry :: headers) s
termination_by maxHttpHead - total

variable {total : ℕ} {s t : Incoming}

theorem readHeaders_error (headers : HttpHeaders) {e : IoError} (h : readHeader total s = .error e) :
    readHeaders total headers s = .error e := by
  rw [readHeaders]
  split <;> rename_i heq <;> rw [h] at heq <;> cases heq
  rfl

theorem readHeaders_ended (headers : HttpHeaders) (h : readHeader total s = .ok (none, t)) :
    readHeaders total headers s = .ok (headers, t) := by
  rw [readHeaders]
  split <;> rename_i heq <;> rw [h] at heq <;> cases heq
  rfl

theorem readHeaders_entry (headers : HttpHeaders) {sum : ℕ} {entry : String × String}
    (h : readHeader total s = .ok (some (sum, entry), t)) :
    readHeaders total headers s = readHeaders sum (entry :: headers) t := by
  rw [readHeaders]
  split <;> rename_i heq <;> rw [h] at heq <;> cases heq
  rfl

def contentLength (headers : HttpHeaders) : Except IoError ℕ :=
  match headers.lookup "content-length" with
  | none => .ok 0
  | some value =>
    match parseUnsigned (2 ^ 64) value.toList with
    | none => .error (invalidData "invalid M5oH content length")
    | some length => .ok length

def bodyOf (status : ℕ) (headers : HttpHeaders) (s : Incoming) :
    Except IoError (HttpResponse × Incoming) :=
  if (headers.lookup "transfer-encoding").isSome then
    .error (invalidData "chunked M5oH responses are unsupported")
  else contentLength headers >>= fun length =>
    if maxHttpBody < length then .error (invalidData "M5oH response too large")
    else s.readExact length >>= fun read => .ok (⟨status, headers, read.1⟩, read.2)

def readResponse (s : Incoming) : Except IoError (HttpResponse × Incoming) := do
  match ← readLine s with
  | (none, _) => throw ⟨.unexpectedEof, "M5oH HTTP peer closed"⟩
  | (some line, s) =>
    let status ← statusOf line
    let (headers, s) ← readHeaders 0 [] s
    bodyOf status headers s

/-- The end of `request`, where `lossy` is `from_utf8_lossy`. -/
def HttpResponse.accepted (response : HttpResponse) (lossy : Bytes → String) :
    Except IoError HttpResponse :=
  if response.status ≠ 200 then
    .error ⟨.connectionAborted, "M5oH server returned HTTP " ++ toString response.status ++ ": " ++
      lossy response.body⟩
  else .ok response

def HttpResponse.closes (response : HttpResponse) : Bool :=
  (response.headers.lookup "connection").any fun value => lower value = "close"

end Mst5Client.HttpResponses
