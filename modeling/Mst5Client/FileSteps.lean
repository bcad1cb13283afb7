import Mst5Client.CrashPrograms
import Mst5Client.IoResult

set_option autoImplicit false

/-!
# Files and the steps that change them

No two names share a file, so a write to one name's file leaves every other name alone, and a rename
changes what two names mean in one step. A write may stop after any part of its bytes; any other
step that fails has no effect.
-/
namespace Mst5Client.FileSteps
open ByteOrder IoResult CrashPrograms TaskPrograms

structure Disk (ν : Type) where
  data : List Bytes
  link : ν → Option ℕ
  inRange : ∀ name i, link name = some i → i < data.length
  apart : ∀ a b i, link a = some i → link b = some i → a = b

def overwrite (content : Bytes) (offset : ℕ) (bytes : Bytes) : Bytes :=
  content.take offset ++ List.replicate (offset - content.length) 0 ++ bytes ++
    content.drop (offset + bytes.length)

theorem overwrite_end (content bytes : Bytes) :
    overwrite content content.length bytes = content ++ bytes := by
  simp [overwrite]

section Contents
variable {ν : Type}

namespace Disk

def contents (d : Disk ν) (name : ν) : Option Bytes := (d.link name).bind fun i => d.data[i]?

def write (d : Disk ν) (file offset : ℕ) (bytes : Bytes) : Disk ν :=
  { d with
    data := d.data.modify file fun content => overwrite content offset bytes
    inRange := fun name i h => by
      rw [List.length_modify]
      exact d.inRange name i h }

def truncate (d : Disk ν) (file : ℕ) : Disk ν :=
  { d with
    data := d.data.set file []
    inRange := fun name i h => by
      rw [List.length_set]
      exact d.inRange name i h }

def grow (d : Disk ν) : Disk ν :=
  { d with
    data := d.data ++ [[]]
    inRange := fun name i h => by
      rw [List.length_append]
      exact Nat.lt_add_right _ (d.inRange name i h) }

end Disk

variable (d : Disk ν) {name : ν}

@[simp] theorem write_link (file offset : ℕ) (bytes : Bytes) :
    (d.write file offset bytes).link = d.link :=
  rfl

@[simp] theorem truncate_link (file : ℕ) : (d.truncate file).link = d.link := rfl

@[simp] theorem grow_link : d.grow.link = d.link := rfl

theorem contents_of_link {i : ℕ} (h : d.link name = some i) : d.contents name = d.data[i]? := by
  rw [Disk.contents, h]
  rfl

theorem contents_of_unlinked (h : d.link name = none) : d.contents name = none := by
  rw [Disk.contents, h]
  rfl

theorem contents_isSome (name : ν) : (d.contents name).isSome = (d.link name).isSome := by
  cases h : d.link name with
  | none =>
    rw [contents_of_unlinked d h]
    rfl
  | some i =>
    rw [contents_of_link d h, List.getElem?_eq_getElem (d.inRange name i h)]
    rfl

theorem write_contents_ne {file offset : ℕ} {bytes : Bytes} (h : d.link name ≠ some file) :
    (d.write file offset bytes).contents name = d.contents name := by
  cases hl : d.link name with
  | none => rw [contents_of_unlinked d hl, contents_of_unlinked _ (by rwa [write_link])]
  | some i =>
    rw [contents_of_link d hl, contents_of_link _ (by rwa [write_link])]
    apply List.getElem?_modify_ne
    rintro rfl
    exact h hl

theorem write_contents {file offset : ℕ} {bytes : Bytes} (h : d.link name = some file) :
    (d.write file offset bytes).contents name =
      (d.contents name).map fun content => overwrite content offset bytes := by
  rw [contents_of_link d h, contents_of_link _ (by rwa [write_link])]
  exact List.getElem?_modify_eq (fun content => overwrite content offset bytes) file d.data

end Contents

variable {ν : Type} [DecidableEq ν]

namespace Disk

def relink (d : Disk ν) (name : ν) (target : Option ℕ)
    (h : ∀ i, target = some i → i < d.data.length ∧ ∀ a, d.link a = some i → a = name) :
    Disk ν where
  data := d.data
  link := Function.update d.link name target
  inRange := by
    intro a i ha
    by_cases hname : a = name
    · rw [hname, Function.update_self] at ha
      exact (h i ha).1
    · rw [Function.update_of_ne hname] at ha
      exact d.inRange a i ha
  apart := by
    intro a b i ha hb
    by_cases hna : a = name
    · by_cases hnb : b = name
      · rw [hna, hnb]
      · rw [hna, Function.update_self] at ha
        rw [Function.update_of_ne hnb] at hb
        exact absurd ((h i ha).2 b hb) hnb
    · rw [Function.update_of_ne hna] at ha
      by_cases hnb : b = name
      · rw [hnb, Function.update_self] at hb
        exact absurd ((h i hb).2 a ha) hna
      · rw [Function.update_of_ne hnb] at hb
        exact d.apart a b i ha hb

@[simp] theorem relink_link (d : Disk ν) (name : ν) (target : Option ℕ) (h : _) :
    (d.relink name target h).link = Function.update d.link name target := rfl

def unlink (d : Disk ν) (name : ν) : Disk ν := d.relink name none fun _ h => by cases h

theorem unlink_link_ne (d : Disk ν) {name a : ν} {i : ℕ} (h : d.link name = some i) :
    (d.unlink name).link a ≠ some i := by
  intro ha
  rw [unlink, relink_link] at ha
  by_cases hname : a = name
  · rw [hname, Function.update_self] at ha
    cases ha
  · rw [Function.update_of_ne hname] at ha
    exact hname (d.apart a name i ha h)

def create (d : Disk ν) (name : ν) : Disk ν × ℕ :=
  match d.link name with
  | some i => (d.truncate i, i)
  | none => (d.grow.relink name (some d.data.length) (by
      rintro i ⟨⟩
      refine ⟨by rw [grow, List.length_append]; exact Nat.lt_succ_self _, fun a ha => ?_⟩
      exact absurd (d.inRange a _ ha) (Nat.lt_irrefl _)), d.data.length)

def rename (d : Disk ν) (source target : ν) : Disk ν :=
  if source = target then d
  else (d.unlink source).relink target (d.link source) fun i h =>
    ⟨d.inRange source i h, fun _ ha => absurd ha (d.unlink_link_ne h)⟩

end Disk

section Names
variable (d : Disk ν) {name other : ν}

theorem create_link (name : ν) : (d.create name).1.link name = some (d.create name).2 := by
  unfold Disk.create
  split
  · assumption
  · exact Function.update_self _ _ _

theorem create_contents (name : ν) : (d.create name).1.contents name = some [] := by
  rw [contents_of_link _ (create_link d name)]
  unfold Disk.create
  split
  · rename_i i hi
    exact List.getElem?_set_self (d.inRange name i hi)
  · exact List.getElem?_concat_length

theorem create_contents_ne (h : other ≠ name) :
    (d.create name).1.contents other = d.contents other := by
  unfold Disk.create
  split
  · rename_i i hi
    cases ho : d.link other with
    | none => rw [contents_of_unlinked d ho, contents_of_unlinked _ (by rwa [truncate_link])]
    | some j =>
      rw [contents_of_link d ho, contents_of_link _ (by rwa [truncate_link])]
      apply List.getElem?_set_ne
      rintro rfl
      exact h (d.apart other name i ho hi)
  · have hlink : ∀ target h', (d.grow.relink name target h').link other = d.link other := by
      intro target h'
      rw [Disk.relink_link, Function.update_of_ne h, grow_link]
    cases ho : d.link other with
    | none => rw [contents_of_unlinked d ho, contents_of_unlinked _ (by rw [hlink, ho])]
    | some j =>
      rw [contents_of_link d ho, contents_of_link _ (by rw [hlink, ho])]
      exact List.getElem?_append_left (d.inRange other j ho)

theorem rename_contents {source target : ν} (h : source ≠ target) :
    (d.rename source target).contents target = d.contents source := by
  rw [Disk.rename, if_neg h, Disk.contents, Disk.relink_link, Function.update_self]
  rfl

theorem unlink_contents (name : ν) : (d.unlink name).contents name = none :=
  contents_of_unlinked _ (Function.update_self _ _ _)

end Names

inductive Op (ν : Type) where
  | pathExists (name : ν)
  | createDirAll
  | openRead (name : ν)
  | readToEnd (file : ℕ)
  | create (name : ν)
  | write (file offset : ℕ) (bytes : Bytes)
  | syncAll (file : ℕ)
  | rename (source target : ν)
  | removeFile (name : ν)
  | openDirectory
  | syncDirectory

abbrev Ans : Op ν → Type
  | .pathExists _ => Bool
  | .openRead _ => Except IoError ℕ
  | .readToEnd _ => Except IoError Bytes
  | .create _ => Except IoError ℕ
  | _ => Except IoError Unit

inductive Choice where
  | ok
  | fail (written : ℕ) (error : IoError)

def missing : IoError := ⟨.notFound, "No such file or directory"⟩

def act (d : Disk ν) : (op : Op ν) → Disk ν × Ans op
  | .pathExists name => (d, (d.link name).isSome)
  | .createDirAll => (d, .ok ())
  | .openRead name => (d, (d.link name).elim (.error missing) .ok)
  | .readToEnd file => (d, .ok (d.data.getD file []))
  | .create name => ((d.create name).1, .ok (d.create name).2)
  | .write file offset bytes => (d.write file offset bytes, .ok ())
  | .syncAll _ => (d, .ok ())
  | .rename source target =>
    if (d.link source).isSome then (d.rename source target, .ok ()) else (d, .error missing)
  | .removeFile name => if (d.link name).isSome then (d.unlink name, .ok ()) else (d, .error missing)
  | .openDirectory => (d, .ok ())
  | .syncDirectory => (d, .ok ())

/-- The effect and the answer of a step that fails. A path that cannot be looked at counts as
missing. -/
def abort (d : Disk ν) (written : ℕ) (e : IoError) : (op : Op ν) → Disk ν × Ans op
  | .pathExists _ => (d, false)
  | .createDirAll => (d, .error e)
  | .openRead _ => (d, .error e)
  | .readToEnd _ => (d, .error e)
  | .create _ => (d, .error e)
  | .write file offset bytes => (d.write file offset (bytes.take written), .error e)
  | .syncAll _ => (d, .error e)
  | .rename _ _ => (d, .error e)
  | .removeFile _ => (d, .error e)
  | .openDirectory => (d, .error e)
  | .syncDirectory => (d, .error e)

/-- Any step may fail, whatever the state. -/
def faulty : Device (Op ν) Ans Choice (Disk ν) where
  perform := fun d op choice =>
    match choice with
    | .ok => some (act d op)
    | .fail written e => some (abort d written e op)

def Op.reads : Op ν → Bool
  | .pathExists _ => true
  | .openRead _ => true
  | .readToEnd _ => true
  | _ => false

def Op.syncs : Op ν → Bool
  | .createDirAll => true
  | .syncAll _ => true
  | .openDirectory => true
  | .syncDirectory => true
  | _ => false

def Op.keeps (op : Op ν) : Bool := op.reads || op.syncs

/-- Any step may fail but those that read. -/
def readable : Device (Op ν) Ans Choice (Disk ν) where
  perform := fun d op choice =>
    match choice with
    | .ok => some (act d op)
    | .fail written e => if op.reads then none else some (abort d written e op)

section Outcomes
variable {d e : Disk ν} {choice : Choice}
variable {op : Op ν} {a : Ans op}

theorem faulty_cases (h : faulty.perform d op choice = some (e, a)) :
    (e, a) = act d op ∨ ∃ written error, (e, a) = abort d written error op := by
  cases choice with
  | ok => exact .inl (Option.some.inj h).symm
  | fail written error => exact .inr ⟨written, error, (Option.some.inj h).symm⟩

theorem faulty_of_readable (h : readable.perform d op choice = some (e, a)) :
    faulty.perform d op choice = some (e, a) := by
  cases choice with
  | ok => exact h
  | fail written error =>
    simp only [readable] at h
    split_ifs at h
    exact h

theorem readable_reads (hreads : op.reads = true) (h : readable.perform d op choice = some (e, a)) :
    e = d ∧ a = (act d op).2 := by
  cases choice with
  | ok =>
    have hact : act d op = (e, a) := Option.some.inj h
    refine ⟨?_, (congrArg Prod.snd hact).symm⟩
    rw [show e = (act d op).1 from (congrArg Prod.fst hact).symm]
    cases op <;> first | rfl | cases hreads
  | fail written error =>
    simp only [readable, hreads, ↓reduceIte] at h
    cases h

theorem faulty_keeps (hkeeps : op.keeps = true) (h : faulty.perform d op choice = some (e, a)) :
    e = d := by
  obtain hact | ⟨written, error, hfail⟩ := faulty_cases h
  · rw [show e = (act d op).1 from congrArg Prod.fst hact]
    cases op <;> first | rfl | cases hkeeps
  · rw [show e = (abort d written error op).1 from congrArg Prod.fst hfail]
    cases op <;> first | rfl | cases hkeeps

def Written (name : ν) (file : ℕ) (bytes : Bytes) (d : Disk ν) : Prop :=
  d.link name = some file ∧ d.contents name = some bytes

variable {name other : ν} {file : ℕ} {bytes : Bytes}

omit [DecidableEq ν] in
theorem Written.link_ne (h : Written name file bytes d) (hother : other ≠ name) :
    d.link other ≠ some file := by
  intro hlink
  exact hother (d.apart other name file hlink h.1)

theorem faulty_create {a : Ans (Op.create name)}
    (h : faulty.perform d (.create name) choice = some (e, a)) :
    (∀ other, other ≠ name → e.contents other = d.contents other) ∧ ∀ file, a = .ok file →
      Written name file [] e := by
  obtain hact | ⟨written, error, hfail⟩ := faulty_cases h
  · cases hact
    refine ⟨fun other => create_contents_ne d, ?_⟩
    rintro file ⟨⟩
    exact ⟨create_link d name, create_contents d name⟩
  · cases hfail
    exact ⟨fun _ _ => rfl, fun _ => nofun⟩

theorem faulty_write {before : Bytes} {offset : ℕ} (hwritten : Written name file before d)
    (hoffset : before.length = offset) {a : Ans (Op.write file offset bytes : Op ν)}
    (h : faulty.perform d (.write file offset bytes) choice = some (e, a)) :
    (∀ other, other ≠ name → e.contents other = d.contents other) ∧
      (a = .ok () → Written name file (before ++ bytes) e) := by
  obtain hact | ⟨written, error, hfail⟩ := faulty_cases h
  · cases hact
    refine ⟨fun other hother => write_contents_ne d (hwritten.link_ne hother),
      fun _ => ⟨hwritten.1, ?_⟩⟩
    rw [write_contents _ hwritten.1, hwritten.2, Option.map_some, ← hoffset, overwrite_end]
  · cases hfail
    exact ⟨fun other hother => write_contents_ne d (hwritten.link_ne hother), nofun⟩

theorem faulty_rename {source target : ν} (hne : source ≠ target)
    (hwritten : Written source file bytes d) {a : Ans (Op.rename source target)}
    (h : faulty.perform d (.rename source target) choice = some (e, a)) :
    (a = .ok () ∧ e.contents target = some bytes) ∨ (∃ error, a = .error error) ∧ e = d := by
  obtain hact | ⟨written, error, hfail⟩ := faulty_cases h
  · rw [act, hwritten.1] at hact
    cases hact
    exact .inl ⟨rfl, (rename_contents d hne).trans hwritten.2⟩
  · cases hfail
    exact .inr ⟨⟨error, rfl⟩, rfl⟩

end Outcomes

abbrev Steps (ν : Type) := Prog (Op ν) Ans

abbrev Trial (ν α : Type) := ExceptT IoError (Steps ν) α

def pathExists (name : ν) : Steps ν Bool := Prog.perform (Op.pathExists name)

def createDirAll : Trial ν Unit := ExceptT.mk (Prog.perform Op.createDirAll)

def openRead (name : ν) : Trial ν ℕ := ExceptT.mk (Prog.perform (Op.openRead name))

def readToEnd (file : ℕ) : Trial ν Bytes := ExceptT.mk (Prog.perform (Op.readToEnd file))

def createFile (name : ν) : Trial ν ℕ := ExceptT.mk (Prog.perform (Op.create name))

def writeAt (file offset : ℕ) (bytes : Bytes) : Trial ν Unit :=
  ExceptT.mk (Prog.perform (Op.write file offset bytes))

def syncAll (file : ℕ) : Trial ν Unit := ExceptT.mk (Prog.perform (Op.syncAll file))

def rename (source target : ν) : Trial ν Unit := ExceptT.mk (Prog.perform (Op.rename source target))

def removeFile (name : ν) : Steps ν (Except IoError Unit) := Prog.perform (Op.removeFile name)

def openDirectory : Trial ν Unit := ExceptT.mk (Prog.perform Op.openDirectory)

def syncDirectory : Trial ν Unit := ExceptT.mk (Prog.perform Op.syncDirectory)

variable {d : Disk ν} {name other : ν} {before : Option Bytes}
variable {α : Type} {Q : Disk ν → α → Prop} {p : Steps ν α}

theorem guarded_readable {C : Disk ν → Prop} {d : Disk ν} (h : Guarded faulty C Q p d) :
    Guarded readable C Q p d :=
  h.restrict id fun _ _ choice _ _ hstep => ⟨choice, faulty_of_readable hstep⟩

theorem keeps_spec (h : Uses (fun op => op.keeps = true) p) (d : Disk ν) :
    Guarded faulty (· = d) (fun _ _ => True) p d :=
  Guarded.of_uses (fun _ _ _ _ _ hkeeps hs hstep => (faulty_keeps hkeeps hstep).trans hs) h rfl

theorem createFile_spec (hother : other ≠ name) (hd : d.contents other = before) :
    Guarded faulty (fun e => e.contents other = before)
      (fun e a => ∀ file, a = .ok file → Written name file [] e) (createFile name).run d := by
  refine Guarded.perform (Op.create name) hd ?_
  intro choice e a h
  obtain ⟨hsame, hwritten⟩ := faulty_create h
  exact ⟨(hsame other hother).trans hd, hwritten⟩

theorem writeAt_spec {file offset : ℕ} {content : Bytes} (bytes : Bytes) (hother : other ≠ name)
    (hd : d.contents other = before) (hwritten : Written name file content d)
    (hoffset : content.length = offset) :
    Guarded faulty (fun e => e.contents other = before)
      (fun e a => a = .ok () → Written name file (content ++ bytes) e)
      (writeAt file offset bytes).run d := by
  refine Guarded.perform (Op.write file offset bytes) hd ?_
  intro choice e a h
  obtain ⟨hsame, hwritten⟩ := faulty_write hwritten hoffset h
  exact ⟨(hsame other hother).trans hd, hwritten⟩

end Mst5Client.FileSteps
