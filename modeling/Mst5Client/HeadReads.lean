import Mst5Client.HttpMessages

set_option autoImplicit false

/-!
# What the head of a response makes the reader hold

`read_line` looks at the length of a line when `read_until` has accumulated it.
-/
namespace Mst5Client.HeadReads
open ByteOrder IoResult IdentityMessages HttpResponses HttpMessages TextParts

/-- What each call of `read_until` in the header loop has accumulated when it returns. -/
def headerReads (total : ℕ) (s : Incoming) : List Bytes :=
  s.readUntil.1 ::
    match h : readHeader total s with
    | .ok (some (sum, _), s) =>
      have := readHeader_lt h
      headerReads sum s
    | .ok (none, _) => []
    | .error _ => []
termination_by maxHttpHead - total

def headReads (s : Incoming) : List Bytes :=
  s.readUntil.1 ::
    match readLine s with
    | .ok (some line, s) =>
      match statusOf line with
      | .ok _ => headerReads 0 s
      | .error _ => []
    | .ok (none, _) => []
    | .error _ => []

/-- The head of a response is bounded, however the reader ends. -/
structure Bounded (s : Incoming) : Prop where
  response : ∀ r t, readResponse s = .ok (r, t) → (headReads s).flatten.length ≤ 5 * maxHttpHead ∧
    s.bytes = (headReads s).flatten ++ r.body ++ t.bytes ∧
    ∃ n, contentLength r.headers = .ok n ∧ n ≤ maxHttpBody ∧ r.body.length = n
  failure : ∀ e, readResponse s = .error e → (headReads s).flatten.length ≤ 5 * maxHttpHead
  lines : ∀ line ∈ headReads s, line.length ≤ 5 * maxHttpHead

/-- The first line: up to its line feed, or everything if there is none. -/
def lineOf (bytes : Bytes) : Bytes :=
  bytes.takeWhile (· ≠ lineFeed) ++ (bytes.dropWhile (· ≠ lineFeed)).take 1

/-- A text that the reader takes as one line. -/
structure Line (text : String) : Prop where
  one : lineFeed ∉ utf8 text
  size : text.utf8ByteSize + 2 ≤ maxHttpHead

/-- `HTTP/1.1`, a space and a status; what comes behind them begins with another space. -/
def StatusLine (text : String) : Prop :=
  ∃ code tail, text.toList = "HTTP/1.1".toList ++ ' ' :: (code ++ tail) ∧ ' ' ∉ code ∧
    (∀ c ∈ tail.head?, c = ' ') ∧ (parseUnsigned (2 ^ 16) code).isSome

/-- Header lines that keep to the limit behind others of the given size. -/
structure Fields (total : ℕ) (texts : List String) : Prop where
  each : ∀ text ∈ texts, Line text ∧ ':' ∈ text.toList
  size : total + (texts.map String.utf8ByteSize).sum ≤ maxHttpHead

/-- The beginnings of a response that end within its head, at the end of a line. -/
inductive Open : Bytes → Prop
  | start : Open []
  | headers {first : String} {fields : List String} : Line first → StatusLine first → Fields 0 fields →
      Open (encodeLine first ++ (fields.map encodeLine).flatten)

variable {bytes rest : Bytes} {s t : Incoming} {text : String} {failure : Option IoError}

theorem takeWhile_of_notMem (h : lineFeed ∉ bytes) : bytes.takeWhile (· ≠ lineFeed) = bytes ∧
    bytes.dropWhile (· ≠ lineFeed) = [] := by
  have hall : ∀ b ∈ bytes, decide (b ≠ lineFeed) = true := fun b hb => decide_eq_true fun heq =>
    h (heq ▸ hb)
  exact ⟨List.takeWhile_eq_self_iff.mpr hall, List.dropWhile_eq_nil_iff.mpr hall⟩

/-- Either a line ends in what is there, or all of it is taken. -/
theorem readUntil_cases (s : Incoming) :
    (∃ l rest, lineFeed ∉ l ∧ s = ⟨l ++ lineFeed :: rest, s.failure⟩ ∧
      s.readUntil = (l ++ [lineFeed], .ok ⟨rest, s.failure⟩)) ∨
    lineFeed ∉ s.bytes ∧ s.readUntil.1 = s.bytes ∧ ∀ t, s.readUntil.2 = .ok t → s.failure = none ∧
      t = ⟨[], none⟩ := by
  obtain ⟨bytes, failure⟩ := s
  by_cases h : lineFeed ∈ bytes
  · obtain ⟨l, rest, rfl, hl⟩ := List.eq_append_cons_of_mem h
    exact .inl ⟨l, rest, hl, rfl, readUntil_append rest failure hl⟩
  · refine .inr ⟨h, ?_⟩
    simp only [Incoming.readUntil, (takeWhile_of_notMem h).2]
    cases failure with
    | none => exact ⟨rfl, fun t ht => ⟨rfl, (Except.ok.inj ht).symm⟩⟩
    | some e =>
      refine ⟨rfl, fun t ht => ?_⟩
      cases ht

theorem readUntil_fst (s : Incoming) : s.readUntil.1 = lineOf s.bytes := by
  obtain ⟨l, rest, hl, hs, hread⟩ | ⟨hnone, hread, -⟩ := readUntil_cases s
  · rw [hread, hs, lineOf, (cut_at_lineFeed rest hl).1, (cut_at_lineFeed rest hl).2]
    rfl
  · rw [hread, lineOf, (takeWhile_of_notMem hnone).1, (takeWhile_of_notMem hnone).2]
    exact (List.append_nil _).symm

theorem textOf_some (h : textOf bytes = .ok (some text)) :
    bytes = encodeLine text ∧ text.utf8ByteSize + 2 ≤ maxHttpHead := by
  unfold textOf at h
  split_ifs at h with hnil hbad
  · cases h
  · split at h
    next => cases h
    next line hline =>
      cases h
      obtain ⟨hlength, hcrlf⟩ := not_or.mp hbad
      obtain ⟨before, rfl⟩ := not_not.mp hcrlf
      have htwo : (before ++ crlf).length - 2 = before.length := by
        rw [List.length_append]
        rfl
      rw [htwo, List.take_left] at hline
      have hutf8 := CborRoundTrip.utf8_of_fromUtf8 hline
      refine ⟨by rw [encodeLine, hutf8], ?_⟩
      rw [← utf8_length, hutf8]
      rw [List.length_append] at hlength
      exact Nat.le_of_not_lt hlength

theorem readLine_some_iff : readLine s = .ok (some text, t) ↔
    Line text ∧ s = ⟨encodeLine text ++ t.bytes, t.failure⟩ := by
  constructor
  · intro h
    obtain ⟨u, hrest, hmapped⟩ := bind_eq_ok h
    obtain ⟨_, htext, heq⟩ := map_eq_ok hmapped
    cases heq
    obtain ⟨hbytes, hsize⟩ := textOf_some htext
    obtain ⟨l, rest, hl, hs, hread⟩ | ⟨hnone, hread, -⟩ := readUntil_cases s
    · rw [hread] at hbytes hrest
      cases hrest
      dsimp only at hbytes
      have hlast : l ++ [lineFeed] = utf8 text ++ [13] ++ [lineFeed] := by
        rw [hbytes, List.append_assoc]
        rfl
      have hutf8 : l = utf8 text ++ [13] := List.append_cancel_right hlast
      refine ⟨⟨fun hmem => hl ?_, hsize⟩, ?_⟩
      · rw [hutf8]
        exact List.mem_append_left _ hmem
      · rw [← hbytes, List.append_assoc]
        exact hs
    · rw [hread] at hbytes
      refine absurd ?_ hnone
      rw [hbytes]
      exact List.mem_append_right _ (by decide)
  · rintro ⟨hline, rfl⟩
    exact (readLine_line t.bytes t.failure hline.one).trans (if_pos hline.size)

theorem Line.lineOf_append (h : Line text) (rest : Bytes) :
    lineOf (encodeLine text ++ rest) = encodeLine text := by
  rw [← readUntil_fst ⟨encodeLine text ++ rest, none⟩, encodeLine, readUntil_line rest none h.one]

theorem encodeLine_length (text : String) : (encodeLine text).length = text.utf8ByteSize + 2 := by
  rw [encodeLine, List.length_append, utf8_length]
  rfl

theorem statusOf_ok_iff : (∃ status, statusOf text = .ok status) ↔ StatusLine text := by
  unfold statusOf StatusLine
  constructor
  · rintro ⟨status, h⟩
    cases hsplit : splitOnce ' ' text.toList with
    | none =>
      simp only [hsplit] at h
      split_ifs at h
      cases h
    | some parts =>
      obtain ⟨version, rest⟩ := parts
      simp only [hsplit] at h
      split_ifs at h with hversion
      obtain ⟨htext, -⟩ := splitOnce_eq_some_iff.mp hsplit
      refine ⟨rest.takeWhile (· ≠ ' '), rest.dropWhile (· ≠ ' '), ?_, ?_, ?_, ?_⟩
      · rw [List.takeWhile_append_dropWhile, htext, not_not.mp hversion]
      · intro hmem
        have hne := List.mem_takeWhile_imp hmem
        exact of_decide_eq_true hne rfl
      · intro c hc
        have hstop := List.head?_dropWhile_not (fun c => decide (c ≠ ' ')) rest
        rw [Option.mem_def.mp hc] at hstop
        simpa using hstop
      · cases hcode : parseUnsigned (2 ^ 16) (rest.takeWhile (· ≠ ' ')) with
        | none =>
          rw [hcode] at h
          cases h
        | some value => rfl
  · rintro ⟨code, tail, htext, hcode, htail, hvalue⟩
    obtain ⟨status, hstatus⟩ := Option.isSome_iff_exists.mp hvalue
    have htake : (code ++ tail).takeWhile (· ≠ ' ') = code := by
      have hall : ∀ c ∈ code, decide (c ≠ ' ') = true := fun c hc => decide_eq_true fun heq =>
        hcode (heq ▸ hc)
      rw [List.takeWhile_append_of_pos hall]
      cases tail with
      | nil => exact List.append_nil code
      | cons c tail =>
        obtain rfl := htail c rfl
        exact List.append_nil code
    refine ⟨status, ?_⟩
    rw [htext, splitOnce_append (by decide)]
    simp only [htake, hstatus, ne_eq, not_true_eq_false, if_false]

variable {total sum : ℕ} {texts : List String} {entry : String × String}

/-- A line that the header loop takes behind others of the given size. -/
structure Taken (total : ℕ) (text : String) : Prop where
  line : Line text
  colon : ':' ∈ text.toList
  size : total + text.utf8ByteSize ≤ maxHttpHead

theorem Taken.pos (h : Taken total text) : 0 < text.utf8ByteSize := by
  refine size_pos ?_
  rintro rfl
  exact absurd h.colon (by decide)

theorem fields_cons : Fields total (text :: texts) ↔
    Taken total text ∧ Fields (total + text.utf8ByteSize) texts := by
  constructor
  · rintro ⟨heach, hsize⟩
    rw [List.map_cons, List.sum_cons] at hsize
    obtain ⟨⟨hline, hcolon⟩, hrest⟩ := List.forall_mem_cons.mp heach
    exact ⟨⟨hline, hcolon, by omega⟩, hrest, by omega⟩
  · rintro ⟨⟨hline, hcolon, -⟩, hrest, hsize⟩
    refine ⟨List.forall_mem_cons.mpr ⟨⟨hline, hcolon⟩, hrest⟩, ?_⟩
    rw [List.map_cons, List.sum_cons]
    omega

theorem Fields.length_le (h : Fields total texts) :
    (texts.map encodeLine).flatten.length ≤ 3 * (maxHttpHead - total) := by
  induction texts generalizing total with
  | nil => exact Nat.zero_le _
  | cons text texts ih =>
    obtain ⟨htaken, hrest⟩ := fields_cons.mp h
    have hlength := ih hrest
    have hpos := htaken.pos
    have hsize := htaken.size
    rw [List.map_cons, List.flatten_cons, List.length_append, encodeLine_length]
    omega

theorem Taken.readHeader (h : Taken total text) (rest : Bytes) (failure : Option IoError) :
    ∃ entry, readHeader total ⟨encodeLine text ++ rest, failure⟩ =
      .ok (some (total + text.utf8ByteSize, entry), ⟨rest, failure⟩) := by
  obtain ⟨name, value, hsplit, hname⟩ := List.eq_append_cons_of_mem h.colon
  have hsum : checkedAdd total text.utf8ByteSize = some (total + text.utf8ByteSize) :=
    checkedAdd_of_lt (Nat.lt_of_le_of_lt h.size (by decide))
  have hread : readLine ⟨encodeLine text ++ rest, failure⟩ = .ok (some text, ⟨rest, failure⟩) :=
    readLine_some_iff.mpr ⟨h.line, rfl⟩
  refine ⟨(lower (AccountClient.trim (String.ofList name)),
    AccountClient.trim (String.ofList value)), ?_⟩
  rw [HttpResponses.readHeader, bind_of_ok hread]
  simp only [headerOf, hsum, if_neg (Nat.not_lt_of_le h.size),
    if_neg (String.utf8ByteSize_eq_zero_iff.not.mp h.pos.ne'), hsplit, splitOnce_append hname]
  rfl

theorem taken_of_readHeader (h : readHeader total s = .ok (some (sum, entry), t)) :
    ∃ text, Taken total text ∧ sum = total + text.utf8ByteSize ∧
      s = ⟨encodeLine text ++ t.bytes, t.failure⟩ := by
  obtain ⟨text, hline, hheader⟩ := readHeader_eq_ok h
  obtain ⟨hsum, hmax, -, hcolon⟩ := headerOf_some hheader
  obtain ⟨hone, hs⟩ := readLine_some_iff.mp hline
  exact ⟨text, ⟨hone, not_not.mp (mt splitOnce_eq_none_iff.mpr hcolon), hsum ▸ hmax⟩, hsum, hs⟩

theorem headerReads_entry (h : readHeader total s = .ok (some (sum, entry), t)) :
    headerReads total s = s.readUntil.1 :: headerReads sum t := by
  rw [headerReads]
  split <;> rename_i heq <;> rw [h] at heq <;> cases heq
  rfl

theorem headerReads_stop (h : ∀ sum entry t, readHeader total s ≠ .ok (some (sum, entry), t)) :
    headerReads total s = [s.readUntil.1] := by
  rw [headerReads]
  split
  next sum entry t heq => exact absurd heq (h sum entry t)
  next => rfl
  next => rfl

theorem headerReads_cons (total : ℕ) (s : Incoming) :
    ∃ more, headerReads total s = s.readUntil.1 :: more := by
  rw [headerReads]
  exact ⟨_, rfl⟩

theorem headerReads_fields (h : Fields total texts) (rest : Bytes) (failure : Option IoError) :
    headerReads total ⟨(texts.map encodeLine).flatten ++ rest, failure⟩ =
      texts.map encodeLine ++
        headerReads (total + (texts.map String.utf8ByteSize).sum) ⟨rest, failure⟩ := by
  induction texts generalizing total with
  | nil => rfl
  | cons text texts ih =>
    obtain ⟨htaken, hrest⟩ := fields_cons.mp h
    simp only [List.map_cons, List.flatten_cons, List.sum_cons, List.append_assoc, List.cons_append]
    obtain ⟨entry, hentry⟩ := htaken.readHeader ((texts.map encodeLine).flatten ++ rest) failure
    rw [headerReads_entry hentry, ih hrest, Nat.add_assoc, readUntil_fst]
    exact congrArg (· :: _) (htaken.line.lineOf_append _)

theorem readHeaders_taken (h : Fields total texts) (rest : Bytes) (failure : Option IoError)
    (headers : HttpHeaders) :
    ∃ headers', readHeaders total headers ⟨(texts.map encodeLine).flatten ++ rest, failure⟩ =
      readHeaders (total + (texts.map String.utf8ByteSize).sum) headers' ⟨rest, failure⟩ := by
  induction texts generalizing total headers with
  | nil => exact ⟨headers, rfl⟩
  | cons text texts ih =>
    obtain ⟨htaken, hrest⟩ := fields_cons.mp h
    simp only [List.map_cons, List.flatten_cons, List.sum_cons, List.append_assoc]
    obtain ⟨entry, hentry⟩ := htaken.readHeader ((texts.map encodeLine).flatten ++ rest) failure
    obtain ⟨headers', heq⟩ := ih hrest (entry :: headers)
    rw [Nat.add_assoc] at heq
    exact ⟨headers', (readHeaders_entry headers hentry).trans heq⟩

/-- A stream is cut where the header loop stops taking lines. -/
theorem exists_fields (total : ℕ) (htotal : total ≤ maxHttpHead) (s : Incoming) :
    ∃ texts rest, Fields total texts ∧
    s = ⟨(texts.map encodeLine).flatten ++ rest, s.failure⟩ ∧
    ∀ sum entry t, readHeader (total + (texts.map String.utf8ByteSize).sum) ⟨rest, s.failure⟩ ≠
      .ok (some (sum, entry), t) := by
  by_cases hgo : ∃ sum entry t, readHeader total s = .ok (some (sum, entry), t)
  · obtain ⟨sum, entry, t, hentry⟩ := hgo
    have := readHeader_lt hentry
    obtain ⟨text, htaken, rfl, rfl⟩ := taken_of_readHeader hentry
    obtain ⟨texts, rest, hfields, ht, hstop⟩ := exists_fields _ htaken.size t
    refine ⟨text :: texts, rest, fields_cons.mpr ⟨htaken, hfields⟩, ?_, ?_⟩
    · rw [List.map_cons, List.flatten_cons, List.append_assoc]
      exact congrArg (fun u : Incoming => Incoming.mk (encodeLine text ++ u.bytes) t.failure) ht
    · rw [List.map_cons, List.sum_cons, ← Nat.add_assoc]
      exact hstop
  · exact ⟨[], s.bytes, ⟨nofun, htotal⟩, rfl, fun sum entry t h => hgo ⟨sum, entry, t, h⟩⟩
termination_by maxHttpHead - total

theorem readHeader_end (h : readHeader total s = .ok (none, t)) :
    s = ⟨encodeLine "" ++ t.bytes, t.failure⟩ := by
  obtain ⟨text, hline, hheader⟩ := readHeader_eq_ok h
  obtain ⟨-, hs⟩ := readLine_some_iff.mp hline
  dsimp only [headerOf] at hheader
  split at hheader
  next => cases hheader
  next =>
    split_ifs at hheader with hmax hempty
    · rw [← hempty]
      exact hs
    · split at hheader
      next => cases hheader
      next => cases hheader

theorem readHeaders_cases (headers : HttpHeaders) (s : Incoming) : ∃ texts rest, Fields 0 texts ∧
    s = ⟨(texts.map encodeLine).flatten ++ rest, s.failure⟩ ∧
    headerReads 0 s = texts.map encodeLine ++ [lineOf rest] ∧
    ∀ out t, readHeaders 0 headers s = .ok (out, t) → rest = encodeLine "" ++ t.bytes := by
  obtain ⟨texts, rest, hfields, hs, hstop⟩ := exists_fields 0 (Nat.zero_le _) s
  obtain ⟨headers', hheaders⟩ := readHeaders_taken hfields rest s.failure headers
  refine ⟨texts, rest, hfields, hs, ?_, fun out t hout => ?_⟩
  · rw [hs, headerReads_fields hfields, headerReads_stop hstop, readUntil_fst]
  · rw [← hs, hout] at hheaders
    cases hend : readHeader (0 + (texts.map String.utf8ByteSize).sum) ⟨rest, s.failure⟩ with
    | error e => cases hheaders.trans (readHeaders_error headers' hend)
    | ok result =>
      obtain ⟨header, u⟩ := result
      cases header with
      | some header => exact absurd hend (hstop header.1 header.2 u)
      | none =>
        cases hheaders.trans (readHeaders_ended headers' hend)
        exact congrArg Incoming.bytes (readHeader_end hend)

variable {before : Bytes} {r : HttpResponse}
variable {headers : HttpHeaders} {status : ℕ}

theorem readResponse_some (h : readLine s = .ok (some text, t)) :
    readResponse s = statusOf text >>= fun status => readHeaders 0 [] t >>= fun read =>
      bodyOf status read.1 read.2 := by
  rw [readResponse, bind_of_ok h]

theorem bodyOf_ok (h : bodyOf status headers s = .ok (r, t)) :
    s.bytes = r.body ++ t.bytes ∧ ∃ n, contentLength r.headers = .ok n ∧ n ≤ maxHttpBody ∧
      r.body.length = n := by
  obtain ⟨-, hlength⟩ := ite_error_eq_ok.mp h
  obtain ⟨n, hn, hbody⟩ := bind_eq_ok hlength
  obtain ⟨hmax, hread⟩ := ite_error_eq_ok.mp hbody
  obtain ⟨⟨body, u⟩, hexact, heq⟩ := bind_eq_ok hread
  cases heq
  unfold Incoming.readExact at hexact
  obtain ⟨hshort, htake⟩ := ite_error_eq_ok.mp hexact
  cases htake
  refine ⟨(List.take_append_drop n s.bytes).symm, n, hn, Nat.le_of_not_lt hmax, ?_⟩
  rw [List.length_take]
  omega

theorem Open.length_le (h : Open before) : before.length ≤ 4 * maxHttpHead := by
  cases h with
  | start => exact Nat.zero_le _
  | headers hline _ hfields =>
    have hfirst := hline.size
    have hlines := hfields.length_le
    rw [List.length_append, encodeLine_length]
    omega

theorem headReads_some (hline : readLine s = .ok (some text, t))
    (hstatus : statusOf text = .ok status) : headReads s = s.readUntil.1 :: headerReads 0 t := by
  simp only [headReads, hline, hstatus]

theorem exists_open (s : Incoming) :
    ∃ lines rest, headReads s = lines ++ [lineOf rest] ∧ Open lines.flatten ∧
    s.bytes = lines.flatten ++ rest := by
  have hstart (h : headReads s = [s.readUntil.1]) : ∃ lines rest, headReads s = lines ++ [lineOf rest] ∧
      Open lines.flatten ∧ s.bytes = lines.flatten ++ rest :=
    ⟨[], s.bytes, h.trans (congrArg (fun l => [l]) (readUntil_fst s)), .start, rfl⟩
  cases hread : readLine s with
  | error e => exact hstart (by simp only [headReads, hread])
  | ok result =>
    obtain ⟨text, t⟩ := result
    cases text with
    | none => exact hstart (by simp only [headReads, hread])
    | some text =>
      cases hstatus : statusOf text with
      | error e => exact hstart (by simp only [headReads, hread, hstatus])
      | ok status =>
        obtain ⟨hline, hs⟩ := readLine_some_iff.mp hread
        obtain ⟨texts, rest, hfields, ht, hreads, -⟩ := readHeaders_cases [] t
        refine ⟨encodeLine text :: texts.map encodeLine, rest, ?_,
          .headers hline (statusOf_ok_iff.mp ⟨status, hstatus⟩) hfields, ?_⟩
        · rw [headReads_some hread hstatus, hreads, readUntil_fst, congrArg Incoming.bytes hs]
          exact congrArg (· :: _) (hline.lineOf_append t.bytes)
        · rw [congrArg Incoming.bytes hs, List.flatten_cons, List.append_assoc]
          exact congrArg (encodeLine text ++ ·) (congrArg Incoming.bytes ht)

theorem headReads_of_open (h : Open before) (hbytes : s.bytes = before ++ rest) :
    ∃ lines more, headReads s = lines ++ lineOf rest :: more ∧ lines.flatten = before := by
  cases h with
  | start =>
    obtain ⟨more, hmore⟩ : ∃ more, headReads s = s.readUntil.1 :: more := ⟨_, rfl⟩
    refine ⟨[], more, ?_, rfl⟩
    rw [hmore, readUntil_fst, hbytes]
    rfl
  | @headers first fields hline hstatus hfields =>
    obtain ⟨status, hstatus⟩ := statusOf_ok_iff.mpr hstatus
    have hs : s = ⟨encodeLine first ++ ((fields.map encodeLine).flatten ++ rest), s.failure⟩ := by
      rw [← List.append_assoc, ← hbytes]
    have hread : readLine s = .ok (some first, ⟨(fields.map encodeLine).flatten ++ rest, s.failure⟩) :=
      readLine_some_iff.mpr ⟨hline, hs⟩
    obtain ⟨more, hmore⟩ := headerReads_cons (0 + (fields.map String.utf8ByteSize).sum)
      ⟨rest, s.failure⟩
    refine ⟨encodeLine first :: fields.map encodeLine, more, ?_, rfl⟩
    rw [headReads_some hread hstatus, headerReads_fields hfields, hmore, readUntil_fst,
      readUntil_fst, hs]
    exact congrArg (· :: _) (hline.lineOf_append _)

theorem readResponse_ok (h : readResponse s = .ok (r, t)) :
    (headReads s).flatten.length ≤ 5 * maxHttpHead ∧
    s.bytes = (headReads s).flatten ++ r.body ++ t.bytes ∧
    ∃ n, contentLength r.headers = .ok n ∧ n ≤ maxHttpBody ∧ r.body.length = n := by
  cases hread : readLine s with
  | error e =>
    rw [readResponse, hread] at h
    cases h
  | ok result =>
    obtain ⟨text, u⟩ := result
    cases text with
    | none =>
      rw [readResponse, hread] at h
      cases h
    | some text =>
      rw [readResponse_some hread] at h
      obtain ⟨status, hstatus, hrest⟩ := bind_eq_ok h
      obtain ⟨⟨headers, v⟩, hheaders, hbody⟩ := bind_eq_ok hrest
      obtain ⟨hline, hs⟩ := readLine_some_iff.mp hread
      obtain ⟨texts, rest, hfields, hu, hreads, hend⟩ := readHeaders_cases [] u
      have hends := hend _ _ hheaders
      have hsbytes : s.bytes = encodeLine text ++ u.bytes := congrArg Incoming.bytes hs
      have hubytes : u.bytes = (texts.map encodeLine).flatten ++ rest := congrArg Incoming.bytes hu
      obtain ⟨hbytes, hlength⟩ := bodyOf_ok hbody
      have hempty : Line "" := ⟨by decide, by decide⟩
      have hflatten : (headReads s).flatten =
          encodeLine text ++ ((texts.map encodeLine).flatten ++ encodeLine "") := by
        rw [headReads_some hread hstatus, hreads, readUntil_fst, hsbytes, hline.lineOf_append, hends,
          hempty.lineOf_append, List.flatten_cons, List.flatten_append, List.flatten_singleton]
      refine ⟨?_, ?_, hlength⟩
      · have hhead := (Open.headers hline (statusOf_ok_iff.mp ⟨status, hstatus⟩) hfields).length_le
        have htwo : (encodeLine "").length = 2 := encodeLine_length ""
        have hmax : maxHttpHead = 64 * 1024 := rfl
        rw [hflatten, ← List.append_assoc, List.length_append, htwo]
        omega
      · rw [hsbytes, hubytes, hends, hflatten, hbytes]
        simp only [List.append_assoc]

theorem length_le_of_mem_headReads {line : Bytes} (h : line ∈ headReads s) :
    line.length ≤ (headReads s).flatten.length := by
  obtain ⟨lines, more, hlines⟩ := List.append_of_mem h
  rw [hlines, List.flatten_append, List.flatten_cons, List.length_append, List.length_append]
  omega

theorem Bounded.head_le (h : Bounded s) : (headReads s).flatten.length ≤ 5 * maxHttpHead := by
  cases hresponse : readResponse s with
  | error e => exact h.failure e hresponse
  | ok result => exact (h.response result.1 result.2 hresponse).1

theorem bounded_of_head_le (h : (headReads s).flatten.length ≤ 5 * maxHttpHead) : Bounded s where
  response _ _ hresponse := readResponse_ok hresponse
  failure _ _ := h
  lines _ hline := (length_le_of_mem_headReads hline).trans h

/--
The head is bounded exactly when behind every beginning of the stream that is a head so far the next
line ends within the bound: it is accumulated before it is measured.
-/
theorem heads_bounded_iff (s : Incoming) : Bounded s ↔
    ∀ before rest, s.bytes = before ++ rest → Open before →
      (before ++ lineOf rest).length ≤ 5 * maxHttpHead := by
  refine ⟨fun h before rest hbytes hopen => ?_, fun h => bounded_of_head_le ?_⟩
  · obtain ⟨lines, more, hreads, rfl⟩ := headReads_of_open hopen hbytes
    have hhead := h.head_le
    rw [hreads, List.flatten_append, List.flatten_cons, ← List.append_assoc, List.length_append]
      at hhead
    omega
  · obtain ⟨lines, rest, hreads, hopen, hbytes⟩ := exists_open s
    rw [hreads, List.flatten_append, List.flatten_singleton]
    exact h lines.flatten rest hbytes hopen

/-- A peer that sends no line feed is listened to for as long as it sends. -/
theorem heads_unbounded_without_lineFeed :
    ¬ Bounded ⟨List.replicate (5 * maxHttpHead + 1) 65, none⟩ := by
  intro h
  have hnone : lineFeed ∉ List.replicate (5 * maxHttpHead + 1) (65 : UInt8) := by
    intro hmem
    have heq := List.eq_of_mem_replicate hmem
    exact absurd heq (by decide)
  have hline := h.lines _ (List.mem_cons_self ..)
  rw [readUntil_fst, lineOf, (takeWhile_of_notMem hnone).1, (takeWhile_of_notMem hnone).2,
    List.length_append, List.length_replicate] at hline
  omega

end Mst5Client.HeadReads
