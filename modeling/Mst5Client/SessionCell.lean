import Mst5Client.FileReplacement
import Mst5Client.SessionDocuments

set_option autoImplicit false

/-!
# The session store

`SessionStorage` of `src/messenger.rs` over the steps of a file system.
-/
namespace Mst5Client.SessionCell
open ByteOrder IoResult TaskPrograms CrashPrograms FileSteps FileReplacement SessionDocuments
open IdentityMessages (other)

section Programs
variable (serde : SessionSerde)

def emptyRoot : IoError := invalidInput "messenger session storage root is empty"

def decodeSession (raw : Bytes) : Except IoError SessionStorage := do
  if maxSessionBytes < raw.length then throw (invalidData "messenger session file exceeds size limit")
  let document ← (serde.decode raw).mapError fun e =>
    invalidData ("invalid messenger session file: " ++ e)
  if document.version ≠ sessionVersion then
    throw (invalidData "unsupported messenger session file version")
  validateSessionValues document.values
  return ⟨document.values, true⟩

def openStorage (root : String) : Trial FileName SessionStorage := do
  if root = "" then throw emptyRoot
  createDirAll
  let present ← ExceptT.lift (pathExists FileName.path)
  if present then
    let file ← openRead .path
    let raw ← readToEnd file
    ExceptT.mk (pure (decodeSession serde raw))
  else return ⟨.empty, false⟩

def snapshotJson (self : SessionStorage) : Except IoError String :=
  (serde.render (snapshotValue self)).mapError fun e => other ("cannot encode session snapshot: " ++ e)

def encodeSession (raw : String) : Except IoError (SessionMap × Bytes) := do
  let values ← (serde.parseValues raw).mapError fun e =>
    invalidInput ("invalid messenger session JSON: " ++ e)
  validateSessionValues values
  let encoded ← (serde.encode ⟨sessionVersion, values⟩).mapError fun e =>
    other ("cannot encode messenger session: " ++ e)
  if maxSessionBytes < encoded.length then throw (invalidInput "messenger session exceeds size limit")
  return (values, encoded)

def stage (encoded : Bytes) : Trial FileName Unit := do
  let file ← createFile .temporary
  writeAt file 0 encoded

def replaceFile (raw : String) : Trial FileName SessionMap := do
  let (values, encoded) ← ExceptT.mk (pure (encodeSession serde raw))
  stage encoded
  rename .temporary .path
  return values

def replaceJson (self : SessionStorage) (raw : String) :
    Steps FileName (SessionStorage × Except IoError Unit) := do
  match ← (replaceFile serde raw).run with
  | .error e => return (self, .error e)
  | .ok values => return (⟨values, true⟩, .ok ())

end Programs

section Documents
variable {serde : SessionSerde}

/-- The bytes are those of a document that `replace_json` has accepted. -/
structure Accepted (serde : SessionSerde) (values : SessionMap) (bytes : Bytes) : Prop where
  encoded : serde.encode ⟨sessionVersion, values⟩ = .ok bytes
  fits : bytes.length ≤ maxSessionBytes
  valid : validateSessionValues values = .ok ()

theorem encodeSession_eq_ok {raw : String} {values : SessionMap} {bytes : Bytes}
    (h : encodeSession serde raw = .ok (values, bytes)) :
    serde.parseValues raw = .ok values ∧ Accepted serde values bytes := by
  obtain ⟨parsed, hparsed, h⟩ := bind_eq_ok h
  obtain ⟨_, hvalid, h⟩ := bind_eq_ok h
  obtain ⟨encoded, hencoded, h⟩ := bind_eq_ok h
  split_ifs at h with hsize
  · cases h
  · cases h
    exact ⟨mapError_eq_ok hparsed, mapError_eq_ok hencoded, Nat.le_of_not_lt hsize, hvalid⟩

theorem decodeSession_of_accepted {values : SessionMap} {bytes : Bytes}
    (h : Accepted serde values bytes) : decodeSession serde bytes = .ok ⟨values, true⟩ := by
  obtain ⟨bytes', hencode, hdecode⟩ := serde.document_round_trip ⟨sessionVersion, values⟩
  cases hencode.symm.trans h.encoded
  rw [decodeSession, if_neg (Nat.not_lt.mpr h.fits), hdecode]
  simp only [Except.mapError, bind, Except.bind, pure, Except.pure, ne_eq, not_true_eq_false,
    ↓reduceIte, h.valid]

/-- The contents of the file are a document of these values, or there are neither. -/
abbrev Stored (serde : SessionSerde) (saved : Option SessionMap) (contents : Option Bytes) : Prop :=
  Option.Rel (Accepted serde) saved contents

variable {d : Disk FileName}

theorem stage_spec (encoded : Bytes) {before : Option Bytes} (hd : d.contents .path = before) :
    Guarded faulty (fun e => e.contents .path = before)
      (fun e a => a = .ok () → ∃ file, Written .temporary file encoded e) (stage encoded).run d := by
  have hother : FileName.path ≠ .temporary := by decide
  refine Guarded.tryBind (createFile_spec hother hd) ?_ (fun _ _ _ _ => nofun)
  intro d₁ file h₁ hopened
  refine (writeAt_spec encoded hother h₁ (hopened file rfl) rfl).mono (fun _ h => h) ?_
  intro d₂ a _ hwritten ha
  exact ⟨file, hwritten ha⟩

theorem stage_quiet (encoded : Bytes) : Uses Quiet (stage encoded).run :=
  uses_quiet.tryBind (Uses.perform fun _ => ⟨rfl, rfl⟩) fun _ => Uses.perform fun _ => ⟨rfl, rfl⟩

theorem openStorage_keeps (serde : SessionSerde) (root : String) :
    Uses (fun op => op.keeps = true) (openStorage serde root).run := by
  have hK := uses_keeps
  unfold openStorage
  split_ifs
  · exact hK.ret _
  · refine hK.tryBind (Uses.perform rfl) fun _ => ?_
    refine hK.tryBind (hK.lift (Uses.perform rfl)) fun present => ?_
    split_ifs
    · refine hK.tryBind (Uses.perform rfl) fun file => ?_
      exact hK.tryBind (Uses.perform rfl) fun raw => hK.ret _
    · exact hK.ret _

theorem replaceFile_spec (raw : String) {before : Option Bytes} (hd : d.contents .path = before) :
    Guarded faulty (fun _ => True) (fun e a => match a with
      | .error _ => e.contents .path = before
      | .ok values => serde.parseValues raw = .ok values ∧
        Stored serde (some values) (e.contents .path))
      (replaceFile serde raw).run d := by
  unfold replaceFile
  refine Guarded.tryBind (Q := fun e a => e.contents .path = before ∧ a = encodeSession serde raw)
    ⟨trivial, hd, rfl⟩ ?_ (fun _ _ _ h => h.1)
  rintro d₁ ⟨values, encoded⟩ - ⟨h₁, hencoded⟩
  have hstage := (stage_spec encoded h₁).mono (R := fun e a => e.contents .path = before ∧
    (a = .ok () → ∃ file, Written .temporary file encoded e)) (fun _ _ => trivial) fun _ _ hc hq =>
      ⟨hc, hq⟩
  refine Guarded.tryBind hstage ?_ (fun _ _ _ h => h.1)
  rintro d₂ _ - ⟨h₂, hwritten⟩
  obtain ⟨file, hfile⟩ := hwritten rfl
  refine Guarded.tryBind (Q := fun e a => (a = .ok () ∧ e.contents .path = some encoded) ∨
    (∃ error, a = .error error) ∧ e.contents .path = before)
    (Guarded.perform (Op.rename FileName.temporary .path) trivial ?_) ?_ ?_
  · intro choice e a h
    obtain hdone | ⟨herror, rfl⟩ := faulty_rename (by decide) hfile h
    · exact ⟨trivial, .inl hdone⟩
    · exact ⟨trivial, .inr ⟨herror, h₂⟩⟩
  · rintro d₃ _ - (⟨-, hcontents⟩ | ⟨⟨error, herror⟩, -⟩)
    · obtain ⟨hparsed, haccepted⟩ := encodeSession_eq_ok hencoded.symm
      exact ⟨trivial, hparsed, hcontents ▸ .some haccepted⟩
    · cases herror
  · rintro d₃ error - (⟨herror, -⟩ | ⟨-, hcontents⟩)
    · cases herror
    · exact hcontents

end Documents

section Calls

inductive Call where
  | «open»
  | replace (object : ℕ) (raw : String)

inductive Outcome where
  | opened (result : Except IoError SessionStorage)
  | replaced (self : SessionStorage) (result : Except IoError Unit)

abbrev State := Disk FileName × List SessionStorage

variable (serde : SessionSerde) (root : String)

def openCode : Steps FileName Outcome := do return .opened (← (openStorage serde root).run)

def replaceCode (self : SessionStorage) (raw : String) : Steps FileName Outcome := do
  let (self, result) ← replaceJson serde self raw
  return .replaced self result

def cell : Service (Op FileName) Ans Call Choice State Outcome where
  device := faulty.beside (List SessionStorage)
  code := fun s call =>
    match call with
    | .open => some (openCode serde root)
    | .replace object raw => s.2[object]?.map fun self => replaceCode serde self raw
  finish := fun s call outcome =>
    match call, outcome with
    | .open, .opened (.ok self) => (s.1, s.2 ++ [self])
    | .replace object _, .replaced self _ => (s.1, s.2.set object self)
    | _, _ => s
  crash := fun s => (s.1, [])

abbrev History := List (Event Call Outcome)

abbrev Record := Recorded (Op FileName) Ans Call State Outcome

def Call.values (serde : SessionSerde) : Call → Option SessionMap
  | .open => none
  | .replace _ raw => (serde.parseValues raw).toOption

def lastStored (h : History) : Option SessionMap := (ghost (Call.values serde) h).saved

end Calls

variable {serde : SessionSerde} {root : String} {g : Ghost Call SessionMap} {r : Record} {call : Call}
variable {p : Process (Op FileName) Ans Call State Outcome} {saved : Option SessionMap}

def protocol (serde : SessionSerde) : Protocol Call SessionMap Outcome where
  key := Call.values serde
  Encodes := Accepted serde
  Right := fun _ _ => True
  right_quiet := fun _ _ _ _ => trivial
  right_started := fun _ _ => trivial
  right_crashed := fun _ => trivial

abbrev Keeps (serde : SessionSerde) (g : Ghost Call SessionMap) (r : Record) : Prop :=
  Holds (protocol serde) Prod.fst g r

abbrev Running (serde : SessionSerde) (call : Call) (r : Record) : Prop :=
  Busy (protocol serde) Prod.fst call r

theorem cell_backed : Backed Prod.fst (cell serde root).device :=
  fun _ _ choice _ _ h => ⟨choice, (beside_perform h).1⟩

theorem replaceFile_guarded {object : ℕ} {raw : String}
    (hg : g.running = some (.replace object raw)) (h : Keeps serde g r) :
    Guarded (cell serde root).device.recorded (Running serde (.replace object raw)) (fun _ _ => True)
      (replaceFile serde raw).run r := by
  unfold replaceFile
  refine Guarded.tryBind (Q := fun r' a => r' = r ∧ a = encodeSession serde raw) ⟨⟨g, hg, h⟩, rfl,
    rfl⟩ ?_
    (fun _ _ _ _ => trivial)
  rintro r₀ ⟨values, encoded⟩ - ⟨rfl, hencoded⟩
  obtain ⟨hparsed, haccepted⟩ := encodeSession_eq_ok hencoded.symm
  have hstage : Guarded (cell serde root).device _ _ (stage encoded).run r₀.state :=
    (stage_spec encoded rfl).restrict Prod.fst cell_backed
  refine Guarded.tryBind (quietly (stage_quiet encoded) hstage hg h) ?_ (fun _ _ _ _ => trivial)
  rintro r₁ _ - ⟨h₁, hwritten⟩
  obtain ⟨file, hfile⟩ := hwritten rfl
  have hkey : (protocol serde).key (.replace object raw) = some values := by
    change (serde.parseValues raw).toOption = _
    rw [hparsed]
    rfl
  refine Guarded.tryBind (rename_guarded cell_backed hg hkey haccepted trivial h₁ hfile) ?_
    (fun _ _ _ _ => trivial)
  intro r₂ _ hbusy _
  exact ⟨hbusy, trivial⟩

theorem cell_follows (serde : SessionSerde) (root : String) :
    Follows (protocol serde) Prod.fst (cell serde root) := by
  intro r g call prog hcode hg h
  cases call with
  | «open» =>
    cases hcode
    exact (keeps_guarded cell_backed (openStorage_keeps serde root) hg h).bind fun _ _ hbusy _ =>
      ⟨hbusy, trivial⟩
  | replace object raw =>
    obtain ⟨self, -, rfl⟩ := Option.map_eq_some_iff.mp hcode
    refine Guarded.bind (Q := fun _ _ => True) ?_ (fun _ _ hbusy _ => ⟨hbusy, trivial⟩)
    refine (replaceFile_guarded hg h).bind ?_
    intro r' result hbusy _
    cases result with
    | error e => exact ⟨hbusy, trivial⟩
    | ok values => exact ⟨hbusy, trivial⟩

theorem finish_disk (s : State) (call : Call) (outcome : Outcome) :
    ((cell serde root).finish s call outcome).1 = s.1 := by
  unfold cell
  dsimp only
  split <;> rfl

theorem stored_of_run {d : Disk FileName} (hfresh : d.link .path = none)
    {moves : List (Move Call Choice)}
    (hrun : MachineRuns.runFrom (cell serde root).move ⟨⟨(d, []), []⟩, none⟩ moves = some p)
    (hidle : p.running = none) :
    Stored serde (lastStored serde p.now.history) (p.now.state.1.contents .path) :=
  ((cell_follows serde root).run (fun _ => rfl) finish_disk hfresh hrun).2 hidle

variable {d e : Disk FileName} {choices : List Choice} {result : Except IoError SessionStorage}

/-- The existence check, the second step of `open`, fails. -/
def Blind (choices : List Choice) : Prop :=
  ∃ written error, choices[1]? = some (.fail written error)

def readSession (serde : SessionSerde) : Option Bytes → Except IoError SessionStorage
  | none => .ok ⟨.empty, false⟩
  | some raw => decodeSession serde raw

/-- The outcomes of `open`: no root, a failed step, a failed existence check, and the file as it is. -/
inductive Opens (serde : SessionSerde) (root : String) (d : Disk FileName) (choices : List Choice) :
    Except IoError SessionStorage → Prop
  | noRoot (hroot : root = "") (hsees : ¬ Blind choices) : Opens serde root d choices (.error emptyRoot)
  | failed {written : ℕ} {error : IoError} (hmem : Choice.fail written error ∈ choices)
    (hsees : ¬ Blind choices) : Opens serde root d choices (.error error)
  | blind (hblind : Blind choices) : Opens serde root d choices (.ok ⟨.empty, false⟩)
  | read (hsees : ¬ Blind choices) : Opens serde root d choices (readSession serde (d.contents .path))

theorem openFile_opens {file : ℕ} (hlink : d.link .path = some file)
    (h : execute faulty (do
      let file ← openRead .path
      let raw ← readToEnd file
      ExceptT.mk (pure (decodeSession serde raw)) : Trial FileName SessionStorage).run d choices =
      some (e, result)) : Opens serde root d (.ok :: .ok :: choices) result := by
  have hsees : ∀ rest, ¬ Blind (.ok :: .ok :: rest) := by
    rintro rest ⟨written, error, h⟩
    cases h
  obtain ⟨error, hopen, rfl⟩ | ⟨first, rest, d₁, opened, rfl, hopen, h⟩ := execute_tryBind h
  · obtain ⟨choice, rfl, hstep⟩ := execute_perform hopen
    cases choice with
    | ok =>
      have hact := Option.some.inj hstep
      rw [act, hlink] at hact
      cases hact
    | fail written error' =>
      cases hstep
      exact .failed (List.mem_of_getElem? (i := 2) rfl) (hsees _)
  obtain ⟨choice, rfl, hstep⟩ := execute_perform hopen
  cases choice with
  | fail written error => cases hstep
  | ok =>
    have hact := Option.some.inj hstep
    rw [act, hlink] at hact
    cases hact
    obtain ⟨error, hread, rfl⟩ | ⟨first, rest, d₂, raw, rfl, hread, h⟩ := execute_tryBind h
    · obtain ⟨choice, rfl, hstep⟩ := execute_perform hread
      cases choice with
      | ok => cases hstep
      | fail written error' =>
        cases hstep
        exact .failed (List.mem_of_getElem? (i := 3) rfl) (hsees _)
    obtain ⟨choice, rfl, hstep⟩ := execute_perform hread
    cases choice with
    | fail written error => cases hstep
    | ok =>
      cases hstep
      have hcontents : d.contents .path = some (d.data.getD file []) := by
        have hlt := d.inRange _ _ hlink
        rw [contents_of_link d hlink, List.getD_eq_getElem?_getD, List.getElem?_eq_getElem hlt,
          Option.getD_some]
      cases rest with
      | cons choice rest => cases h
      | nil =>
        cases h
        have hopens : Opens serde root d [.ok, .ok, .ok, .ok] _ := .read (hsees [.ok, .ok])
        rw [hcontents] at hopens
        exact hopens

theorem openStorage_opens
    (h : execute faulty (openStorage serde root).run d choices = some (e, result)) :
    Opens serde root d choices result := by
  unfold openStorage at h
  split_ifs at h with hroot
  · cases choices with
    | cons choice choices => cases h
    | nil =>
      cases h
      exact .noRoot hroot nofun
  obtain ⟨error, hcreate, rfl⟩ | ⟨first, rest, d₁, _, rfl, hcreate, h⟩ := execute_tryBind h
  · obtain ⟨choice, rfl, hstep⟩ := execute_perform hcreate
    cases choice with
    | ok => cases hstep
    | fail written error' =>
      cases hstep
      exact .failed List.mem_cons_self nofun
  obtain ⟨choice, rfl, hstep⟩ := execute_perform hcreate
  cases choice with
  | fail written error => cases hstep
  | ok =>
    cases hstep
    obtain ⟨first, rest, d₂, present, rfl, hcheck, h⟩ := execute_liftThen h
    obtain ⟨choice, rfl, hstep⟩ := execute_perform hcheck
    cases choice with
    | fail written error =>
      cases hstep
      cases rest with
      | cons choice rest => cases h
      | nil =>
        cases h
        exact .blind ⟨written, error, rfl⟩
    | ok =>
      cases hstep
      cases hlink : d.link .path with
      | some file =>
        rw [hlink] at h
        exact openFile_opens hlink h
      | none =>
        rw [hlink] at h
        cases rest with
        | cons choice rest => cases h
        | nil =>
          cases h
          have hopens : Opens serde root d [.ok, .ok] _ := .read nofun
          rw [contents_of_unlinked d hlink] at hopens
          exact hopens

def restored : Option SessionMap → SessionStorage
  | none => ⟨.empty, false⟩
  | some values => ⟨values, true⟩

/-- `open` gives exactly what is stored, and fails only because a step fails or the root is empty. -/
def Restores (root : String) (saved : Option SessionMap) (choices : List Choice) :
    Except IoError SessionStorage → Prop
  | .ok self => self = restored saved
  | .error error => (root = "" ∧ error = emptyRoot) ∨ ∃ written, Choice.fail written error ∈ choices

theorem readSession_stored {contents : Option Bytes} (h : Stored serde saved contents) :
    readSession serde contents = .ok (restored saved) := by
  cases h with
  | none => rfl
  | some haccepted => exact decodeSession_of_accepted haccepted

theorem Opens.restores_iff (h : Opens serde root d choices result)
    (hstored : Stored serde saved (d.contents .path)) :
    Restores root saved choices result ↔ saved = none ∨ ¬ Blind choices := by
  cases h with
  | noRoot hroot hsees => exact ⟨fun _ => .inr hsees, fun _ => .inl ⟨hroot, rfl⟩⟩
  | failed hmem hsees => exact ⟨fun _ => .inr hsees, fun _ => .inr ⟨_, hmem⟩⟩
  | blind hblind =>
    cases saved with
    | none => exact ⟨fun _ => .inl rfl, fun _ => rfl⟩
    | some values =>
      refine ⟨fun h => ?_, fun h => ?_⟩
      · cases congrArg SessionStorage.existing h
      · exact absurd hblind (h.resolve_left nofun)
  | read hsees =>
    rw [readSession_stored hstored]
    exact ⟨fun _ => .inr hsees, fun _ => rfl⟩

/-- The snapshot of the object is a value with these values. -/
def Shows (serde : SessionSerde) (self : SessionStorage) (values : SessionMap) : Prop :=
  ∃ text, snapshotJson serde self = .ok text ∧
    serde.parse text = .ok (.object [("exists", .bool true), ("values", valuesValue values),
      ("version", .number 1)])

theorem shows_replaced (serde : SessionSerde) (values : SessionMap) :
    Shows serde ⟨values, true⟩ values := by
  obtain ⟨text, hrender, hparse⟩ := serde.snapshot_round_trip ⟨values, true⟩
  refine ⟨text, ?_, hparse⟩
  rw [snapshotJson, hrender]
  rfl

variable {s t : State}

theorem complete_open {outcome : Outcome}
    (h : (cell serde root).complete s .open choices = some (t, outcome)) :
    ∃ e result, execute faulty (openStorage serde root).run s.1 choices = some (e, result) ∧
      outcome = .opened result := by
  obtain ⟨prog, hprog, h⟩ := Option.bind_eq_some_iff.mp h
  cases hprog
  obtain ⟨⟨u, b⟩, hu, heq⟩ := Option.map_eq_some_iff.mp h
  cases heq
  obtain ⟨first, rest, v, result, rfl, hfirst, hrest⟩ := execute_bind (execute_beside hu).1
  cases rest with
  | cons choice rest => cases hrest
  | nil =>
    cases hrest
    rw [List.append_nil]
    exact ⟨_, result, hfirst, rfl⟩

/-- What a replacement returns, and what it leaves behind. -/
inductive Replaces (serde : SessionSerde) (raw : String) (self : SessionStorage)
    (before : Option Bytes) (e : Disk FileName) : Outcome → Prop
  | failed (error : IoError) (hsame : e.contents .path = before) :
    Replaces serde raw self before e (.replaced self (.error error))
  | done {values : SessionMap} (hparsed : serde.parseValues raw = .ok values)
      (hstored : Stored serde (some values) (e.contents .path)) :
    Replaces serde raw self before e (.replaced ⟨values, true⟩ (.ok ()))

theorem replaceCode_spec (self : SessionStorage) (raw : String) (d : Disk FileName) :
    Guarded faulty (fun _ => True) (Replaces serde raw self (d.contents .path))
    (replaceCode serde self raw) d := by
  refine Guarded.bind (Q := fun e a => Replaces serde raw self (d.contents .path) e
    (.replaced a.1 a.2)) ?_ (fun _ _ _ h => ⟨trivial, h⟩)
  refine (replaceFile_spec raw rfl).bind ?_
  intro e result _ h
  cases result with
  | error error => exact ⟨trivial, .failed error h⟩
  | ok values => exact ⟨trivial, .done h.1 h.2⟩

theorem complete_replace {object : ℕ} {raw : String} {outcome : Outcome}
    (h : (cell serde root).complete s (.replace object raw) choices = some (t, outcome)) :
    ∃ self, s.2[object]? = some self ∧ Replaces serde raw self (s.1.contents .path) t.1 outcome ∧
      ∀ self' result, outcome = .replaced self' result → t.2 = s.2.set object self' := by
  obtain ⟨prog, hprog, h⟩ := Option.bind_eq_some_iff.mp h
  obtain ⟨self, hself, rfl⟩ := Option.map_eq_some_iff.mp hprog
  obtain ⟨⟨u, b⟩, hu, heq⟩ := Option.map_eq_some_iff.mp h
  obtain ⟨rfl, rfl⟩ := Prod.mk.injEq .. ▸ heq
  obtain ⟨hexecute, hsame⟩ := execute_beside hu
  obtain ⟨-, hreplaces⟩ := (replaceCode_spec self raw s.1).outcome hexecute
  refine ⟨self, hself, ?_, ?_⟩
  · rw [finish_disk]
    exact hreplaces
  · rintro self' result rfl
    rw [← hsame]
    rfl

theorem stored_unique {saved' : Option SessionMap} {contents : Option Bytes}
    (h : Stored serde saved contents) (h' : Stored serde saved' contents) : saved = saved' := by
  have heq : restored saved = restored saved' :=
    Except.ok.inj ((readSession_stored h).symm.trans (readSession_stored h'))
  cases saved <;> cases saved' <;> cases heq <;> rfl

/-- A failed replacement changes nothing, a successful one is shown and stored, and `open` restores
the values of the last rename exactly when its existence check does not fail on them. -/
theorem session_is_atomic_iff (serde : SessionSerde) (root : String) {d : Disk FileName}
    (hfresh : d.link .path = none) {moves : List (Move Call Choice)}
    {p : Process (Op FileName) Ans Call State Outcome}
    (hrun : MachineRuns.runFrom (cell serde root).move ⟨⟨(d, []), []⟩, none⟩ moves = some p)
    (hidle : p.running = none) :
    (∀ object raw choices t self error,
      (cell serde root).complete p.now.state (.replace object raw) choices =
        some (t, .replaced self (.error error)) →
      t.2 = p.now.state.2 ∧ t.1.contents .path = p.now.state.1.contents .path) ∧
    (∀ object raw choices t self,
      (cell serde root).complete p.now.state (.replace object raw) choices =
        some (t, .replaced self (.ok ())) →
      ∃ values history, serde.parseValues raw = .ok values ∧ t.2[object]? = some ⟨values, true⟩ ∧
        Shows serde ⟨values, true⟩ values ∧
        MachineRuns.runFrom (cell serde root).move p
          (.start (.replace object raw) :: (choices.map .step ++ [.finish])) =
          some ⟨⟨t, history⟩, none⟩ ∧
        lastStored serde history = some values) ∧
    ∀ choices t result, (cell serde root).complete p.now.state .open choices =
      some (t, .opened result) → (Restores root (lastStored serde p.now.history) choices result ↔
        lastStored serde p.now.history = none ∨ ¬ Blind choices) := by
  refine ⟨?_, ?_, ?_⟩
  · intro object raw choices t self error h
    obtain ⟨self₀, hself, hreplaces, hobjects⟩ := complete_replace h
    cases hreplaces with
    | failed _ hsame =>
      obtain ⟨hlt, rfl⟩ := List.getElem?_eq_some_iff.mp hself
      exact ⟨(hobjects _ _ rfl).trans (List.set_getElem_self hlt), hsame⟩
  · intro object raw choices t self h
    obtain ⟨self₀, hself, hreplaces, hobjects⟩ := complete_replace h
    cases hreplaces with
    | done hparsed hstored =>
      rename_i values
      obtain ⟨⟨now, history₀⟩, running⟩ := p
      cases hidle
      obtain ⟨history, hcall⟩ := runFrom_complete h history₀
      have hlater : MachineRuns.runFrom (cell serde root).move ⟨⟨(d, []), []⟩, none⟩
          (moves ++ .start (.replace object raw) :: (choices.map .step ++ [.finish])) =
          some ⟨⟨t, history⟩, none⟩ := by
        rw [MachineRuns.runFrom_append, hrun]
        exact hcall
      refine ⟨values, history, hparsed, ?_, shows_replaced serde values, hcall, ?_⟩
      · rw [hobjects _ _ rfl, List.getElem?_set_self (List.getElem?_eq_some_iff.mp hself).1]
      · exact stored_unique (stored_of_run hfresh hlater rfl) hstored
  · intro choices t result h
    obtain ⟨e, result', hexecute, heq⟩ := complete_open h
    cases heq
    exact (openStorage_opens hexecute).restores_iff (stored_of_run hfresh hrun hidle)

def sampleRaw : String := "\x7b\"a\":\"b\"\x7d"

def sampleMoves : List (Move Call Choice) :=
  [.start .open, .step .ok, .step .ok, .finish, .start (.replace 0 sampleRaw), .step .ok, .step .ok,
    .step .ok, .finish]

def observe (choices : List Choice) (p : Process (Op FileName) Ans Call State Outcome) :
    Option (List (String × String) × Bool × List (String × String)) :=
  match lastStored sessionSerde p.now.history, p.running,
      (cell sessionSerde "r").complete p.now.state .open choices with
  | some stored, none, some (_, .opened (.ok self)) =>
    some (stored.entries, self.existing, self.values.entries)
  | _, _, _ => none

theorem observe_eq_some {stored shown : List (String × String)} {existing : Bool}
    (h : observe choices p = some (stored, existing, shown)) :
    ∃ values t self, lastStored sessionSerde p.now.history = some values ∧ values.entries = stored ∧
      p.running = none ∧ (cell sessionSerde "r").complete p.now.state .open choices = some (t,
      .opened (.ok self)) ∧ self.existing = existing ∧ self.values.entries = shown := by
  unfold observe at h
  split at h
  · rename_i values t self hlast hrunning hcomplete
    cases h
    exact ⟨values, t, self, hlast, rfl, hrunning, hcomplete, rfl, rfl⟩
  · cases h

theorem session_is_atomic_iff_sample :
    ∃ p t self, MachineRuns.runFrom (cell sessionSerde "r").move ⟨⟨(emptyDisk, []), []⟩,
      none⟩ sampleMoves = some p ∧
      (cell sessionSerde "r").complete p.now.state .open [.ok, .ok, .ok, .ok] =
        some (t, .opened (.ok self)) ∧
      self.values.entries = [("a", "b")] ∧ self = restored (lastStored sessionSerde p.now.history) := by
  have hobserved : (MachineRuns.runFrom (cell sessionSerde "r").move ⟨⟨(emptyDisk, []), []⟩,
    none⟩ sampleMoves).bind
      (observe [.ok, .ok, .ok, .ok]) = some ([("a", "b")], true, [("a", "b")]) := by
    decide +kernel
  obtain ⟨p, hrun, hp⟩ := Option.bind_eq_some_iff.mp hobserved
  obtain ⟨values, t, self, -, -, hidle, hcomplete, -, hentries⟩ := observe_eq_some hp
  obtain ⟨-, -, hopen⟩ := session_is_atomic_iff sessionSerde "r" rfl hrun hidle
  refine ⟨p, t, self, hrun, hcomplete, hentries, (hopen _ t _ hcomplete).mpr (.inr ?_)⟩
  rintro ⟨written, error, h⟩
  cases h

/-- The document is there, but the look at its path fails: the store opens as if it were new. -/
theorem open_hides_session :
    ∃ p t self, MachineRuns.runFrom (cell sessionSerde "r").move ⟨⟨(emptyDisk, []), []⟩,
      none⟩ sampleMoves = some p ∧
      (lastStored sessionSerde p.now.history).map SessionMap.entries = some [("a", "b")] ∧
      (cell sessionSerde "r").complete p.now.state .open [.ok, .fail 0 (other "denied")] =
        some (t, .opened (.ok self)) ∧
      self.existing = false ∧ self.values.entries = [] := by
  have hobserved : (MachineRuns.runFrom (cell sessionSerde "r").move ⟨⟨(emptyDisk, []), []⟩,
    none⟩ sampleMoves).bind
      (observe [.ok, .fail 0 (other "denied")]) = some ([("a", "b")], false, []) := by
    decide +kernel
  obtain ⟨p, hrun, hp⟩ := Option.bind_eq_some_iff.mp hobserved
  obtain ⟨values, t, self, hlast, hvalues, -, hcomplete, hexisting, hentries⟩ := observe_eq_some hp
  exact ⟨p, t, self, hrun, by rw [hlast, Option.map_some, hvalues], hcomplete, hexisting, hentries⟩

end Mst5Client.SessionCell
