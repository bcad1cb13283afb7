import Mst5Client.IdentityStore
import Mst5Client.MessageRoundTrip

set_option autoImplicit false

/-!
# What an error of `save` says

`IdentityStore::save` syncs the parent directory after it has renamed the temporary file.
-/
namespace Mst5Client.IdentitySaves
open ByteOrder IoResult CrashPrograms FileSteps FileReplacement IdentityMessages IdentityStore

/-- The parent of the store's path: none, the empty path of a bare file name, or a directory with a
name. -/
inductive ParentPath where
  | missing
  | empty
  | directory
deriving DecidableEq

/-- The disk under a parent path. An empty path is never created, and opening it as a directory
fails. -/
def under (parent : ParentPath) : Device (Op FileName) Ans Choice (Disk FileName) where
  perform := fun d op choice =>
    match op, parent with
    | .createDirAll, .empty => some (d, .ok ())
    | .openDirectory, .empty => some (d, .error missing)
    | op, _ => faulty.perform d op choice

def placeOf (unix : Bool) (parent : ParentPath) : Place := ⟨unix, parent ≠ .missing⟩

section Steps
variable {parent : ParentPath} {d e : Disk FileName}

theorem under_faulty {op : Op FileName} {choice : Choice} {a : Ans op}
    (h : (under parent).perform d op choice = some (e, a)) :
    ∃ choice', faulty.perform d op choice' = some (e, a) := by
  cases op with
  | createDirAll =>
    cases parent with
    | empty => exact ⟨.ok, h⟩
    | _ => exact ⟨choice, h⟩
  | openDirectory =>
    cases parent with
    | empty => exact ⟨.fail 0 missing, h⟩
    | _ => exact ⟨choice, h⟩
  | _ => exact ⟨choice, h⟩

theorem guarded_under {α : Type} {C : Disk FileName → Prop} {Q : Disk FileName → α → Prop}
    {p : Steps FileName α} (h : Guarded faulty C Q p d) : Guarded (under parent) C Q p d :=
  h.restrict id fun _ _ _ _ _ => under_faulty

theorem syncParent_outcome {unix : Bool} (hparent : parent ≠ .missing) {rest : List Choice}
    {result : Except IoError Unit}
    (h : execute (under parent) (syncParent (placeOf unix parent)).run d rest = some (e, result)) :
    result = .ok () ↔ (unix = true → parent = .directory ∧ ∀ choice ∈ rest, choice = .ok) := by
  unfold syncParent placeOf at h
  cases unix with
  | false =>
    cases rest with
    | cons choice rest => cases h
    | nil =>
      cases h
      exact ⟨fun _ h => absurd h Bool.false_ne_true, fun _ => rfl⟩
  | true =>
    obtain ⟨error, hopen, rfl⟩ | ⟨first, last, u, done, rfl, hopen, hsync⟩ := execute_tryBind h
    · obtain ⟨choice, rfl, hstep⟩ := execute_perform hopen
      refine ⟨fun hok => absurd hok (by simp), fun hall => ?_⟩
      obtain ⟨rfl, hchoice⟩ := hall rfl
      rw [hchoice choice (List.mem_singleton_self _)] at hstep
      cases hstep
    · obtain ⟨choice, rfl, hstep⟩ := execute_perform hopen
      obtain ⟨choice', rfl, hstep'⟩ := execute_perform hsync
      cases parent with
      | missing => exact absurd rfl hparent
      | empty => cases hstep
      | directory =>
        cases choice with
        | fail written error => cases hstep
        | ok =>
          cases choice' with
          | ok =>
            cases hstep'
            refine ⟨fun _ _ => ⟨rfl, ?_⟩, fun _ => rfl⟩
            intro choice hchoice
            simpa using hchoice
          | fail written error =>
            cases hstep'
            refine ⟨fun hok => absurd hok (by simp), fun hall => ?_⟩
            have hfail := (hall rfl).2 (.fail written error) (by simp)
            cases hfail

variable {C : E2eCrypto}

/-- `load` can return this. -/
def Loads (C : E2eCrypto) (d : Disk FileName) (result : Except IoError (Option (Identity C))) :
    Prop :=
  ∃ choices e, execute readable (load C).run d choices = some (e, result)

theorem loads_iff {result : Except IoError (Option (Identity C))} :
    Loads C d result ↔ result = loadResult C (d.contents .path) := by
  constructor
  · rintro ⟨choices, e, hrun⟩
    exact ((load_spec d).outcome hrun).2
  · rintro rfl
    cases hlink : d.link .path with
    | none =>
      refine ⟨[.ok], d, ?_⟩
      change execute readable (ExceptT.run (if (d.link .path).isSome = true then _ else _)) d [] = _
      rw [hlink, contents_of_unlinked d hlink]
      rfl
    | some file =>
      have hopen : execute readable (openRead .path).run d [.ok] = some (d, .ok file) := by
        change some (d, ((d.link .path).elim (.error missing) .ok : Except IoError ℕ)) = _
        rw [hlink]
        rfl
      have hread : d.data[file]? = some (d.data.getD file []) := by
        rw [List.getD_eq_getElem?_getD, List.getElem?_eq_getElem (d.inRange _ _ hlink),
          Option.getD_some]
      refine ⟨[.ok] ++ ([.ok] ++ [.ok]), d, ?_⟩
      change execute readable (ExceptT.run (if (d.link .path).isSome = true then _ else _)) d
        ([.ok] ++ [.ok]) = _
      rw [hlink, if_pos (Option.isSome_some), execute_tryThen hopen, contents_of_link d hlink,
        hread, loadResult]
      cases hdecode : decodeIdentity C ((d.data.getD file []).take 64) with
      | ok identity =>
        change execute readable (ExceptT.run (ExceptT.mk (pure (decodeIdentity C _)) >>= _)) d [] = _
        rw [hdecode]
        rfl
      | error e =>
        change execute readable (ExceptT.run (ExceptT.mk (pure (decodeIdentity C _)) >>= _)) d [] = _
        rw [hdecode]
        rfl

variable {choices : List Choice} {result : Except IoError Unit}

/-- None of the six steps up to the rename fails, and `rest` is what happens after it. Under an
empty parent the first step, which creates the directory, cannot fail. -/
def Renamed (parent : ParentPath) (choices rest : List Choice) : Prop :=
  parent ≠ .missing ∧ ∃ first, choices = first :: (List.replicate 5 .ok ++ rest) ∧
    (first = .ok ∨ parent = .empty)

theorem Renamed.unique {rest rest' : List Choice} (h : Renamed parent choices rest)
    (h' : Renamed parent choices rest') : rest' = rest := by
  obtain ⟨-, first, rfl, -⟩ := h
  obtain ⟨-, first', heq, -⟩ := h'
  exact (List.append_cancel_left (List.cons.inj heq).2).symm

theorem Renamed.length_le {rest : List Choice} (h : Renamed parent choices rest) :
    6 ≤ choices.length := by
  obtain ⟨-, first, rfl, -⟩ := h
  simp

/-- A trial of `n` steps that stops at the first failure and succeeds if there is none. -/
def Attempts {α : Type} (parent : ParentPath) (n : ℕ) (p : Trial FileName α) : Prop :=
  ∀ d choices e result, execute (under parent) p.run d choices = some (e, result) →
    (∀ a, result = .ok a → choices = List.replicate n .ok) ∧ ∀ error, result = .error error →
      choices.length ≤ n

theorem Attempts.bind {α β : Type} {m n : ℕ} {p : Trial FileName α} {f : α → Trial FileName β}
    (hp : Attempts parent m p) (hf : ∀ a, Attempts parent n (f a)) :
    Attempts parent (m + n) (p >>= f) := by
  intro d choices e result h
  obtain ⟨error, hfirst, rfl⟩ | ⟨first, rest, u, a, rfl, hfirst, hrest⟩ := execute_tryBind h
  · exact ⟨nofun, fun _ _ => Nat.le_add_right_of_le ((hp _ _ _ _ hfirst).2 error rfl)⟩
  · have heq := (hp _ _ _ _ hfirst).1 a rfl
    obtain ⟨hok, herror⟩ := hf a _ _ _ _ hrest
    constructor
    · intro b hb
      rw [heq, hok b hb, List.replicate_append_replicate]
    · intro error he
      rw [heq, List.length_append, List.length_replicate]
      exact Nat.add_le_add_left (herror error he) m

theorem attempts_create (parent : ParentPath) (name : FileName) :
    Attempts parent 1 (createFile name) := by
  intro d choices e result h
  obtain ⟨choice, rfl, hstep⟩ := execute_perform h
  cases choice <;> cases hstep
  · exact ⟨fun _ _ => rfl, nofun⟩
  · exact ⟨nofun, fun _ _ => le_rfl⟩

theorem attempts_write (parent : ParentPath) (file offset : ℕ) (bytes : Bytes) :
    Attempts parent 1 (writeAt file offset bytes) := by
  intro d choices e result h
  obtain ⟨choice, rfl, hstep⟩ := execute_perform h
  cases choice <;> cases hstep
  · exact ⟨fun _ _ => rfl, nofun⟩
  · exact ⟨nofun, fun _ _ => le_rfl⟩

theorem attempts_sync (parent : ParentPath) (file : ℕ) : Attempts parent 1 (syncAll file) := by
  intro d choices e result h
  obtain ⟨choice, rfl, hstep⟩ := execute_perform h
  cases choice <;> cases hstep
  · exact ⟨fun _ _ => rfl, nofun⟩
  · exact ⟨nofun, fun _ _ => le_rfl⟩

theorem stage_outcome {identity : Identity C}
    (h : execute (under parent) (stage identity).run d choices = some (e, result)) :
    (∀ a, result = .ok a → ∃ first, choices = first :: List.replicate 4 .ok ∧
      (first = .ok ∨ parent = .empty)) ∧ ∀ error, result = .error error → choices.length ≤ 5 := by
  obtain ⟨error, hcreate, rfl⟩ | ⟨first, rest, u, _, rfl, hcreate, hrest⟩ := execute_tryBind h
  · obtain ⟨choice, rfl, -⟩ := execute_perform hcreate
    exact ⟨nofun, fun _ _ => by simp⟩
  obtain ⟨choice, rfl, hstep⟩ := execute_perform hcreate
  have hfile : Attempts parent (1 + (1 + (1 + 1))) (createFile .temporary >>= fun file =>
      writeAt file 0 identityMagic >>= fun _ =>
        writeAt file identityMagic.length identity.privateKey.toList >>= fun _ => syncAll file) :=
    (attempts_create parent _).bind fun file => (attempts_write parent file _ _).bind fun _ =>
      (attempts_write parent file _ _).bind fun _ => attempts_sync parent file
  obtain ⟨hok, herror⟩ := hfile _ _ _ _ hrest
  refine ⟨fun a ha => ⟨choice, congrArg (choice :: ·) (hok a ha), ?_⟩, fun error he => ?_⟩
  · cases choice with
    | ok => exact .inl rfl
    | fail written error =>
      cases parent with
      | empty => exact .inr rfl
      | missing => cases hstep
      | directory => cases hstep
  · exact Nat.succ_le_succ (herror error he)

theorem save_cases {unix : Bool} {identity : Identity C}
    (h : execute (under parent) (save (placeOf unix parent) identity).run d choices =
      some (e, result)) :
    (e.contents .path = d.contents .path ∧ (∃ error, result = .error error) ∧ ∀ rest,
      ¬ Renamed parent choices rest) ∨ ∃ rest u, Renamed parent choices rest ∧
        execute (under parent) (syncParent (placeOf unix parent)).run u rest = some (e, result) := by
  by_cases hparent : parent = .missing
  · subst hparent
    cases choices with
    | cons choice choices => cases h
    | nil =>
      cases h
      exact .inl ⟨rfl, ⟨_, rfl⟩, fun rest h => h.1 rfl⟩
  have hsave : save (placeOf unix parent) identity =
      (stage identity >>= fun _ => rename .temporary .path >>=
        fun _ => syncParent (placeOf unix parent)) :=
    if_pos (decide_eq_true hparent)
  rw [hsave] at h
  have hstaged : Guarded (under parent) _ _ (stage identity).run d :=
    guarded_under (stage_spec identity rfl)
  obtain ⟨error, hstage, rfl⟩ | ⟨staging, after, staged, _, rfl, hstage, hrest⟩ := execute_tryBind h
  · refine .inl ⟨(hstaged.outcome hstage).1, ⟨error, rfl⟩, fun rest hrenamed => ?_⟩
    have hshort := (stage_outcome hstage).2 error rfl
    have hlong := hrenamed.length_le
    omega
  obtain ⟨hcontents, hwritten⟩ := hstaged.outcome hstage
  obtain ⟨file, hfile⟩ := hwritten rfl
  obtain ⟨first, rfl, hfirst⟩ := (stage_outcome hstage).1 () rfl
  obtain ⟨error, hrename, rfl⟩ | ⟨moving, rest, moved, _, rfl, hrename, hsync⟩ := execute_tryBind hrest
  · obtain ⟨choice, rfl, hstep⟩ := execute_perform hrename
    obtain ⟨hok, -⟩ | ⟨-, rfl⟩ := faulty_rename (by decide) hfile hstep
    · cases hok
    refine .inl ⟨hcontents, ⟨error, rfl⟩, ?_⟩
    rintro rest ⟨-, first', heq, -⟩
    cases heq
    have hact : (act e (.rename .temporary .path)).2 = .error error :=
      congrArg Prod.snd (Option.some.inj hstep)
    rw [act, hfile.1] at hact
    cases hact
  · obtain ⟨choice, rfl, hstep⟩ := execute_perform hrename
    cases choice with
    | fail written error => cases hstep
    | ok => exact .inr ⟨rest, moved, ⟨hparent, first, rfl, hfirst⟩, hsync⟩

end Steps

/-- A call of `save` is all or nothing exactly when nothing fails after the rename: the platform
does not sync directories, or the parent has a name and is opened and synced. -/
theorem save_all_or_nothing_iff {C : E2eCrypto} {unix : Bool} {parent : ParentPath}
    {identity : Identity C} {d e : Disk FileName} {choices : List Choice}
    {result : Except IoError Unit}
    (hrun : execute (under parent) (save (placeOf unix parent) identity).run d choices =
      some (e, result)) :
    ((∀ error, result = .error error → ∀ loaded, Loads C e loaded ↔ Loads C d loaded) ∧
      ∀ rest, Renamed parent choices rest → result = .ok ()) ↔
    ∀ rest, Renamed parent choices rest → unix = true →
      parent = .directory ∧ ∀ choice ∈ rest, choice = .ok := by
  obtain ⟨hcontents, ⟨error, rfl⟩, hnever⟩ | ⟨rest, u, hrenamed, hsync⟩ := save_cases hrun
  · refine ⟨fun _ rest h => absurd h (hnever rest), fun _ => ⟨?_, fun rest h => absurd h (hnever rest)⟩⟩
    intro _ _ loaded
    rw [loads_iff, loads_iff, hcontents]
  · have hresult := syncParent_outcome hrenamed.1 hsync
    constructor
    · rintro ⟨-, hok⟩ other hother
      rw [hrenamed.unique hother]
      exact hresult.mp (hok rest hrenamed)
    · intro hall
      have hok := hresult.mpr (hall rest hrenamed)
      refine ⟨fun error herror => ?_, fun _ _ => hok⟩
      cases hok.symm.trans herror

section Samples
open MessageRoundTrip (sampleCrypto sampleIdentity)

theorem syncs_saved_identity : ∃ e, execute (under .directory)
    (save (placeOf true .directory) (sampleIdentity 1)).run emptyDisk (List.replicate 8 .ok) =
      some (e, .ok ()) :=
  ⟨_, rfl⟩

theorem save_all_or_nothing_iff_synced : ∃ e, execute (under .directory)
      (save (placeOf true .directory) (sampleIdentity 1)).run emptyDisk (List.replicate 8 .ok) =
      some (e, .ok ()) ∧
    (∀ error, (Except.ok () : Except IoError Unit) = .error error →
      ∀ loaded, Loads sampleCrypto e loaded ↔ Loads sampleCrypto emptyDisk loaded) ∧
    (∀ rest, Renamed .directory (List.replicate 8 .ok) rest →
      (Except.ok () : Except IoError Unit) = .ok ()) := by
  obtain ⟨e, hrun⟩ := syncs_saved_identity
  refine ⟨e, hrun, (save_all_or_nothing_iff hrun).mpr ?_⟩
  rintro rest ⟨-, first, heq, -⟩ -
  cases heq
  exact ⟨rfl, by simp⟩

def full : IoError := ⟨.other, "No space left on device"⟩

/-- `save` returns an error and the identity is in place: always for a bare file name, and for a
directory that cannot be synced. -/
theorem failed_save_replaces :
    ((execute (under .empty) (save (placeOf true .empty) (sampleIdentity 1)).run emptyDisk
        (List.replicate 7 .ok)).map fun r => (r.1.contents .path, r.2)) =
      some (some (encodeIdentity (sampleIdentity 1).privateKey), .error missing) ∧
    ((execute (under .directory) (save (placeOf true .directory) (sampleIdentity 1)).run emptyDisk
        (List.replicate 7 .ok ++ [.fail 0 full])).map fun r => (r.1.contents .path, r.2)) =
      some (some (encodeIdentity (sampleIdentity 1).privateKey), .error full) ∧
    emptyDisk.contents .path = none := by
  decide +kernel

end Samples

end Mst5Client.IdentitySaves
