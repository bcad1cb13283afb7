import Mst5Client.CborRoundTrip
import Mst5Client.TextParts

set_option autoImplicit false

/-!
# HTTP messages on the wire

A message is a status line, header fields and a body, of the announced length or up to the end of
the connection.
-/
namespace Mst5Client.HttpMessages
open ByteOrder IoResult IdentityMessages HttpResponses
open AccountClient (trim)
open TextParts (splitOnce_append)

def fieldLine (field : String × String) : String := field.1 ++ ":" ++ field.2

def headersOf (fields : List (String × String)) : HttpHeaders :=
  (fields.map fun field => (lower (trim field.1), trim field.2)).reverse

/-- No line holds a line feed, no name a colon, and a length that the fields announce is that of the
body. -/
structure HttpMessage where
  status : ℕ
  code : String
  reason : String
  fields : List (String × String)
  body : Bytes
  code_eq : parseUnsigned (2 ^ 16) code.toList = some status
  code_one : ' ' ∉ code.toList
  status_line : lineFeed ∉ utf8 ("HTTP/1.1 " ++ (code ++ (" " ++ reason)))
  names : ∀ field ∈ fields, ':' ∉ field.1.toList
  field_lines : ∀ field ∈ fields, lineFeed ∉ utf8 (fieldLine field)
  length : ((headersOf fields).lookup "content-length").isSome →
    contentLength (headersOf fields) = .ok body.length

def HttpMessage.statusLine (m : HttpMessage) : String :=
  "HTTP/1.1 " ++ (m.code ++ (" " ++ m.reason))

def encodeLine (line : String) : Bytes := utf8 line ++ crlf

def encodeFields (fields : List (String × String)) : Bytes :=
  fields.flatMap fun field => encodeLine (fieldLine field)

def HttpMessage.encode (m : HttpMessage) : Bytes :=
  encodeLine m.statusLine ++ (encodeFields m.fields ++ (encodeLine "" ++ m.body))

def HttpMessage.announced (m : HttpMessage) : Bytes :=
  if ((headersOf m.fields).lookup "content-length").isSome then m.body else []

def HttpMessage.trailing (m : HttpMessage) : Bytes :=
  if ((headersOf m.fields).lookup "content-length").isSome then [] else m.body

def HttpMessage.response (m : HttpMessage) : HttpResponse :=
  ⟨m.status, headersOf m.fields, m.announced⟩

theorem announced_append_trailing (m : HttpMessage) : m.announced ++ m.trailing = m.body := by
  simp only [HttpMessage.announced, HttpMessage.trailing]
  split_ifs with hlength
  · exact List.append_nil _
  · rfl

theorem contentLength_fields (m : HttpMessage) :
    contentLength (headersOf m.fields) = .ok m.announced.length := by
  simp only [HttpMessage.announced]
  split_ifs with hlength
  · exact m.length hlength
  · rw [contentLength, Option.not_isSome_iff_eq_none.mp hlength]
    rfl

section Lines
variable {line : String} {bytes : Bytes} (rest : Bytes) (failure : Option IoError)

theorem utf8_length (s : String) : (utf8 s).length = s.utf8ByteSize := String.size_toByteArray

theorem cut_at_lineFeed (h : lineFeed ∉ bytes) :
    (bytes ++ lineFeed :: rest).takeWhile (fun b => decide (b ≠ lineFeed)) = bytes ∧
      (bytes ++ lineFeed :: rest).dropWhile (fun b => decide (b ≠ lineFeed)) = lineFeed :: rest := by
  have hbytes : ∀ b ∈ bytes, decide (b ≠ lineFeed) = true := fun b hb => decide_eq_true fun heq =>
    h (heq ▸ hb)
  rw [List.takeWhile_append_of_pos hbytes, List.dropWhile_append_of_pos hbytes]
  exact ⟨List.append_nil bytes, rfl⟩

theorem readUntil_append (h : lineFeed ∉ bytes) :
    Incoming.readUntil ⟨bytes ++ lineFeed :: rest, failure⟩ = (bytes ++ [lineFeed],
      .ok ⟨rest, failure⟩) := by
  simp only [Incoming.readUntil, (cut_at_lineFeed rest h).1, (cut_at_lineFeed rest h).2]

theorem readUntil_line (h : lineFeed ∉ bytes) :
    Incoming.readUntil ⟨bytes ++ crlf ++ rest, failure⟩ = (bytes ++ crlf, .ok ⟨rest, failure⟩) := by
  have hline : lineFeed ∉ bytes ++ [13] := by
    rw [List.mem_append, List.mem_singleton]
    exact not_or.mpr ⟨h, by decide⟩
  have hread := readUntil_append rest failure hline
  rw [List.append_assoc, List.append_assoc] at hread
  rw [List.append_assoc]
  exact hread

theorem textOf_line (line : String) :
    textOf (encodeLine line) = if line.utf8ByteSize + 2 ≤ maxHttpHead then .ok (some line)
      else .error (invalidData "invalid M5oH HTTP line") := by
  have hlength : (utf8 line ++ crlf).length = line.utf8ByteSize + 2 := by
    rw [List.length_append, utf8_length]
    rfl
  have hne : utf8 line ++ crlf ≠ [] := List.append_ne_nil_of_right_ne_nil _ nofun
  have htext : (utf8 line ++ crlf).take ((utf8 line ++ crlf).length - 2) = utf8 line := by
    refine List.take_left' ?_
    rw [hlength, utf8_length]
    rfl
  simp only [textOf, encodeLine, if_neg hne, htext, CborRoundTrip.fromUtf8_utf8]
  rw [hlength]
  by_cases hfits : line.utf8ByteSize + 2 ≤ maxHttpHead
  · have hgood : ¬ (maxHttpHead < line.utf8ByteSize + 2 ∨ ¬ crlf <:+ utf8 line ++ crlf) := by
      rintro (hlong | hsuffix)
      · exact absurd hfits (Nat.not_le_of_lt hlong)
      · exact hsuffix (List.suffix_append _ _)
    rw [if_pos hfits, if_neg hgood]
  · rw [if_neg hfits, if_pos (.inl (Nat.lt_of_not_le hfits))]

theorem readLine_line (h : lineFeed ∉ utf8 line) :
    readLine ⟨encodeLine line ++ rest, failure⟩ =
      if line.utf8ByteSize + 2 ≤ maxHttpHead then .ok (some line, ⟨rest, failure⟩)
      else .error (invalidData "invalid M5oH HTTP line") := by
  rw [readLine, encodeLine, readUntil_line rest failure h]
  change (textOf (encodeLine line)).map (fun text => (text, _)) = _
  rw [textOf_line]
  split_ifs
  · rfl
  · rfl

end Lines

section Fields
variable {fields : List (String × String)} (rest : Bytes) (failure : Option IoError)
variable {field : String × String} {total : ℕ}

theorem splitOnce_fieldLine (h : ':' ∉ field.1.toList) :
    splitOnce ':' (fieldLine field).toList = some (field.1.toList, field.2.toList) := by
  rw [fieldLine, String.toList_append, String.toList_append, List.append_assoc]
  exact splitOnce_append h

theorem fieldLine_ne_empty (field : String × String) : fieldLine field ≠ "" := by
  intro h
  have hlist := congrArg String.toList h
  rw [fieldLine, String.toList_append, String.toList_append] at hlist
  simp at hlist

def headSize (fields : List (String × String)) : ℕ :=
  (fields.map fun field => (fieldLine field).utf8ByteSize).sum

structure FieldsFit (total : ℕ) (fields : List (String × String)) : Prop where
  lines : ∀ field ∈ fields, (fieldLine field).utf8ByteSize + 2 ≤ maxHttpHead
  head : total + headSize fields ≤ maxHttpHead

instance (total : ℕ) (fields : List (String × String)) : Decidable (FieldsFit total fields) :=
  decidable_of_iff _ ⟨fun h => FieldsFit.mk h.1 h.2, fun h => And.intro h.lines h.head⟩

theorem fieldsFit_cons : FieldsFit total (field :: fields) ↔
    (fieldLine field).utf8ByteSize + 2 ≤ maxHttpHead ∧
      FieldsFit (total + (fieldLine field).utf8ByteSize) fields := by
  have hsize : total + headSize (field :: fields) =
      total + (fieldLine field).utf8ByteSize + headSize fields := (Nat.add_assoc _ _ _).symm
  constructor
  · intro h
    refine ⟨h.lines field List.mem_cons_self, fun f hf => h.lines f (List.mem_cons_of_mem field hf), ?_⟩
    rw [← hsize]
    exact h.head
  · rintro ⟨hline, h⟩
    refine ⟨List.forall_mem_cons.mpr ⟨hline, h.lines⟩, ?_⟩
    rw [hsize]
    exact h.head

theorem readHeader_empty (htotal : total ≤ maxHttpHead) :
    readHeader total ⟨encodeLine "" ++ rest, failure⟩ = .ok (none, ⟨rest, failure⟩) := by
  have hempty : readLine ⟨encodeLine "" ++ rest, failure⟩ = .ok (some "", ⟨rest, failure⟩) :=
    (readLine_line rest failure (by decide)).trans (if_pos (by decide))
  have hsum : checkedAdd total "".utf8ByteSize = some total :=
    checkedAdd_of_lt (Nat.lt_of_le_of_lt htotal (by decide))
  rw [readHeader, bind_of_ok hempty]
  simp only [headerOf, hsum, if_neg (Nat.not_lt_of_le htotal), if_true]
  rfl

theorem readHeader_field (hname : ':' ∉ field.1.toList) (hline : lineFeed ∉ utf8 (fieldLine field))
    (htotal : total ≤ maxHttpHead) :
    ((fieldLine field).utf8ByteSize + 2 ≤ maxHttpHead ∧ total + (fieldLine field).utf8ByteSize ≤
        maxHttpHead) ∧ readHeader total ⟨encodeLine (fieldLine field) ++ rest, failure⟩ =
          .ok (some (total + (fieldLine field).utf8ByteSize, lower (trim field.1), trim field.2),
            ⟨rest, failure⟩) ∨
      ¬ ((fieldLine field).utf8ByteSize + 2 ≤ maxHttpHead ∧ total + (fieldLine field).utf8ByteSize ≤
        maxHttpHead) ∧
        ∃ e, readHeader total ⟨encodeLine (fieldLine field) ++ rest, failure⟩ = .error e := by
  have hread := readLine_line rest failure hline
  by_cases hsize : (fieldLine field).utf8ByteSize + 2 ≤ maxHttpHead
  · rw [if_pos hsize] at hread
    have hsum : checkedAdd total (fieldLine field).utf8ByteSize =
        some (total + (fieldLine field).utf8ByteSize) := by
      refine checkedAdd_of_lt (Nat.lt_of_le_of_lt
        (Nat.add_le_add htotal (Nat.le_of_add_right_le hsize)) ?_)
      decide
    rw [readHeader, bind_of_ok hread]
    simp only [headerOf, hsum, if_neg (fieldLine_ne_empty field), splitOnce_fieldLine hname,
      String.ofList_toList]
    by_cases hmax : total + (fieldLine field).utf8ByteSize ≤ maxHttpHead
    · rw [if_neg (Nat.not_lt_of_le hmax)]
      exact .inl ⟨⟨hsize, hmax⟩, rfl⟩
    · rw [if_pos (Nat.lt_of_not_le hmax)]
      exact .inr ⟨fun h => hmax h.2, _, rfl⟩
  · rw [if_neg hsize] at hread
    rw [readHeader, hread]
    exact .inr ⟨fun h => hsize h.1, _, rfl⟩

theorem readHeaders_fields (hnames : ∀ field ∈ fields, ':' ∉ field.1.toList)
    (hlines : ∀ field ∈ fields, lineFeed ∉ utf8 (fieldLine field)) (htotal : total ≤ maxHttpHead)
    (headers : HttpHeaders) :
    FieldsFit total fields ∧ readHeaders total headers
        ⟨encodeFields fields ++ (encodeLine "" ++ rest), failure⟩ =
        .ok (headersOf fields ++ headers, ⟨rest, failure⟩) ∨
      ¬ FieldsFit total fields ∧
        ∃ e, readHeaders total headers ⟨encodeFields fields ++ (encodeLine "" ++ rest), failure⟩ =
          .error e := by
  induction fields generalizing total headers with
  | nil => exact .inl ⟨⟨nofun, htotal⟩,
    readHeaders_ended headers (readHeader_empty rest failure htotal)⟩
  | cons field fields ih =>
    rw [show encodeFields (field :: fields) ++ (encodeLine "" ++ rest) =
      encodeLine (fieldLine field) ++ (encodeFields fields ++ (encodeLine "" ++ rest))
        from List.append_assoc _ _ _,
      fieldsFit_cons]
    obtain ⟨⟨hsize, hmax⟩, hread⟩ | ⟨hlarge, e, hread⟩ := readHeader_field
      (encodeFields fields ++ (encodeLine "" ++ rest)) failure (hnames field List.mem_cons_self)
      (hlines field List.mem_cons_self) htotal
    · rw [readHeaders_entry headers hread]
      obtain ⟨hfits, hok⟩ | ⟨hfits, herror⟩ := ih (fun f hf => hnames f (List.mem_cons_of_mem field hf))
        (fun f hf => hlines f (List.mem_cons_of_mem field hf)) hmax
          ((lower (trim field.1), trim field.2) :: headers)
      · refine .inl ⟨⟨hsize, hfits⟩, hok.trans ?_⟩
        rw [headersOf, headersOf, List.map_cons, List.reverse_cons, List.append_assoc]
        rfl
      · exact .inr ⟨fun h => hfits h.2, herror⟩
    · refine .inr ⟨fun h => hlarge ⟨h.1, Nat.le_of_add_right_le h.2.head⟩, e, ?_⟩
      exact readHeaders_error headers hread

end Fields

variable (m : HttpMessage) (rest : Bytes) (failure : Option IoError)

structure HttpMessage.Fits : Prop where
  line : m.statusLine.utf8ByteSize + 2 ≤ maxHttpHead
  fields : FieldsFit 0 m.fields
  plain : (headersOf m.fields).lookup "transfer-encoding" = none
  body : m.announced.length ≤ maxHttpBody

instance : Decidable m.Fits :=
  decidable_of_iff _ ⟨fun h => HttpMessage.Fits.mk h.1 h.2.1 h.2.2.1 h.2.2.2,
    fun h => And.intro h.line (And.intro h.fields (And.intro h.plain h.body))⟩

theorem statusOf_statusLine : statusOf m.statusLine = .ok m.status := by
  have hline : m.statusLine.toList = "HTTP/1.1".toList ++ ' ' ::
      (m.code.toList ++ ' ' :: m.reason.toList) := by
    simp [HttpMessage.statusLine]
  have hversion : ' ' ∉ "HTTP/1.1".toList := by decide
  have hcode : (m.code.toList ++ ' ' :: m.reason.toList).takeWhile (fun c => decide (c ≠ ' ')) =
      m.code.toList := by
    have hone : ∀ c ∈ m.code.toList, decide (c ≠ ' ') = true := by
      intro c hc
      refine decide_eq_true ?_
      rintro rfl
      exact m.code_one hc
    rw [List.takeWhile_append_of_pos hone]
    exact List.append_nil _
  rw [statusOf, hline, splitOnce_append hversion]
  simp only [hcode, m.code_eq, ne_eq, not_true_eq_false, if_false]

theorem readExact_append (bytes : Bytes) :
    Incoming.readExact ⟨bytes ++ rest, failure⟩ bytes.length = .ok (bytes, ⟨rest, failure⟩) := by
  have hlength : ¬ (bytes ++ rest).length < bytes.length := by
    rw [List.length_append]
    omega
  simp only [Incoming.readExact, if_neg hlength, List.take_left, List.drop_left]

theorem readResponse_encode :
    m.Fits ∧ readResponse ⟨m.encode ++ rest, failure⟩ = .ok (m.response,
      ⟨m.trailing ++ rest, failure⟩) ∨
      ¬ m.Fits ∧ ∃ e, readResponse ⟨m.encode ++ rest, failure⟩ = .error e := by
  have hencode : m.encode ++ rest =
      encodeLine m.statusLine ++
        (encodeFields m.fields ++ (encodeLine "" ++ (m.announced ++ (m.trailing ++ rest)))) := by
    simp only [HttpMessage.encode, ← announced_append_trailing m, List.append_assoc]
  rw [readResponse, hencode]
  have hline : readLine ⟨encodeLine m.statusLine ++ _, failure⟩ = _ := readLine_line
    (encodeFields m.fields ++ (encodeLine "" ++ (m.announced ++ (m.trailing ++ rest)))) failure
      m.status_line
  rw [hline]
  by_cases hfits : m.statusLine.utf8ByteSize + 2 ≤ maxHttpHead
  · rw [if_pos hfits]
    have hheaders := readHeaders_fields (m.announced ++ (m.trailing ++ rest)) failure m.names
      m.field_lines (Nat.zero_le maxHttpHead) []
    rw [List.append_nil] at hheaders
    obtain ⟨hfields, hok⟩ | ⟨hfields, e, herror⟩ := hheaders
    · simp only [bodyOf, Except.bind, bind, statusOf_statusLine, hok, contentLength_fields]
      by_cases hplain : (headersOf m.fields).lookup "transfer-encoding" = none
      · rw [hplain]
        by_cases hbody : m.announced.length ≤ maxHttpBody
        · refine .inl ⟨⟨hfits, hfields, hplain, hbody⟩, ?_⟩
          simp only [Option.isSome_none, Bool.false_eq_true, if_false, if_neg (Nat.not_lt_of_le hbody),
            readExact_append]
          rfl
        · refine .inr ⟨fun h => hbody h.body, invalidData "M5oH response too large", ?_⟩
          simp only [Option.isSome_none, Bool.false_eq_true, if_false, if_pos (Nat.lt_of_not_le hbody)]
      · refine .inr ⟨fun h => hplain h.plain, invalidData "chunked M5oH responses are unsupported", ?_⟩
        rw [if_pos (Option.isSome_iff_ne_none.mpr hplain)]
    · refine .inr ⟨fun h => hfields h.fields, e, ?_⟩
      simp only [Except.bind, bind, statusOf_statusLine, herror]
  · rw [if_neg hfits]
    exact .inr ⟨fun h => hfits h.line, _, rfl⟩

end Mst5Client.HttpMessages
