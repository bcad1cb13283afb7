import Mst5Client.IdentityStore
import Mst5Client.MessageRoundTrip

set_option autoImplicit false

/-!
# The identity file survives crashes

Whatever happens, the file behind the path is the one whose rename took place last: the writes of a
save go to the temporary file, which is another file.
-/
namespace Mst5Client.IdentityCrashes
open ByteOrder IoResult TaskPrograms CrashPrograms FileSteps FileReplacement IdentityMessages
  IdentityStore

variable {C : E2eCrypto}

abbrev Record (C : E2eCrypto) := Recorded (Op FileName) Ans (Call C) (Disk FileName) (Outcome C)

section Invariant

/-- What the store promises of an event: a `load`, a confirmed save or creation answers with what
the history before it saved last, and only the calls that may replace or remove the file do. -/
def Right (before : History C) : Event (Call C) (Outcome C) → Prop
  | .returned .load (.loaded result) => result = .ok (lastSaved before)
  | .returned (.loadOrCreate _) (.created (.ok identity)) => lastSaved before = some identity
  | .returned (.save identity) (.saved (.ok ())) => lastSaved before = some identity
  | .performed op a =>
    (renamed op a → (∃ identity, (ghost Call.key before).running = some (.save identity)) ∨
      (∃ random, (ghost Call.key before).running = some (.loadOrCreate random)) ∧
        (ghost Call.key before).saved = none) ∧
    (unlinked op a → (ghost Call.key before).running = some .remove)
  | _ => True

variable (C) in

def protocol : Protocol (Call C) (Block 32) (Outcome C) where
  key := Call.key
  Encodes := fun key bytes => bytes = encodeIdentity key
  Right := Right
  right_quiet := fun before op a h => by
    simp only [Right, h.1, h.2, Bool.false_eq_true, false_implies, and_self]
  right_started := fun _ _ => trivial
  right_crashed := fun _ => trivial

abbrev Ghosts (C : E2eCrypto) := Ghost (Call C) (Block 32)

abbrev Keeps (g : Ghosts C) (r : Record C) : Prop := Holds (protocol C) id g r

abbrev Running (call : Call C) (r : Record C) : Prop := Busy (protocol C) id call r

theorem readable_backed : Backed id readable :=
  fun _ _ choice _ _ h => ⟨choice, faulty_of_readable h⟩

theorem contents_of_stored {saved : Option (Block 32)} {d : Disk FileName}
    (h : (protocol C).Stored saved d) : d.contents .path = saved.map encodeIdentity := by
  unfold Protocol.Stored at h
  generalize d.contents .path = contents at h
  cases h with
  | some heq => rw [show _ = encodeIdentity _ from heq, Option.map_some]
  | none => rfl

end Invariant

section Programs
variable {g : Ghosts C} {r : Record C} {call : Call C}

theorem load_quiet : Uses Quiet (load C).run := by
  have hK := uses_quiet
  unfold load
  refine hK.tryBind (hK.lift (Uses.perform (quiet_of_keeps rfl))) fun present => ?_
  split_ifs
  · refine hK.tryBind (Uses.perform (quiet_of_keeps rfl)) fun file => ?_
    refine hK.tryBind (Uses.perform (quiet_of_keeps rfl)) fun encoded => ?_
    exact hK.tryBind (hK.ret _) fun identity => hK.ret _
  · exact hK.ret _

theorem stage_quiet (identity : Identity C) : Uses Quiet (stage identity).run := by
  have hK := uses_quiet
  unfold stage
  refine hK.tryBind (Uses.perform (quiet_of_keeps rfl)) fun _ => ?_
  refine hK.tryBind (Uses.perform fun _ => ⟨rfl, rfl⟩) fun file => ?_
  refine hK.tryBind (Uses.perform fun _ => ⟨rfl, rfl⟩) fun _ => ?_
  refine hK.tryBind (Uses.perform fun _ => ⟨rfl, rfl⟩) fun _ => ?_
  exact Uses.perform (quiet_of_keeps rfl)

theorem load_guarded (hg : g.running = some call) (h : Keeps g r) :
    Guarded readable.recorded (Running call)
      (fun r' a => Keeps g r' ∧ a = .ok (g.saved.map (Identity.fromPrivate C))) (load C).run r := by
  have hspec : Guarded readable (fun d => d.contents .path = r.state.contents .path)
      (fun _ a => a = loadResult C (r.state.contents .path)) (load C).run r.state :=
    (load_spec r.state).mono (fun _ heq => by rw [heq]) fun _ _ _ h => h
  refine (quietly load_quiet hspec hg h).mono (fun _ h => h) ?_
  rintro _ _ - ⟨h', rfl⟩
  refine ⟨h', ?_⟩
  rw [show r.state.contents .path = _ from contents_of_stored h.stored]
  cases g.saved with
  | none => rfl
  | some key =>
    rw [Option.map_some, loadResult, decode_encodeIdentity]
    rfl

theorem syncParent_guarded (place : Place) (hg : g.running = some call) (h : Keeps g r) :
    Guarded readable.recorded (Running call) (fun r' _ => Keeps g r') (syncParent place).run r :=
  keeps_guarded readable_backed (syncParent_keeps place) hg h

/-- The call under way may put a key in place: a save, or a creation that found nothing. -/
def Licensed (g : Ghosts C) : Prop :=
  (∃ identity, g.running = some (.save identity)) ∨
    (∃ random, g.running = some (.loadOrCreate random)) ∧ g.saved = none

theorem save_guarded (place : Place) (identity : Identity C) (hg : g.running = some call)
    (hkey : call.key = some identity.privateKey) (hlicensed : Licensed g) (h : Keeps g r) :
    Guarded readable.recorded (Running call)
      (fun r' a => a = .ok () → Keeps ⟨some call, some identity.privateKey⟩ r')
      (save place identity).run r := by
  unfold save
  split_ifs
  · have hstage := quietly (stage_quiet identity) (guarded_readable (stage_spec identity rfl)) hg h
    refine Guarded.tryBind hstage ?_ (fun _ _ _ _ => nofun)
    rintro r₁ _ - ⟨h₁, hstaged⟩
    obtain ⟨file, hfile⟩ := hstaged rfl
    have hright : Right r₁.history (.performed (.rename .temporary .path) (.ok ())) := by
      refine ⟨fun _ => ?_, nofun⟩
      rw [show ghost Call.key r₁.history = g from h₁.ghost]
      exact hlicensed
    refine Guarded.tryBind (rename_guarded readable_backed hg hkey rfl hright h₁ hfile) ?_
      (fun _ _ _ _ => nofun)
    rintro r₂ _ - h₂
    exact (syncParent_guarded place rfl (h₂ rfl)).mono (fun _ h => h) fun _ _ _ h _ => h
  · exact ⟨⟨g, hg, h⟩, nofun⟩

theorem loadOrCreate_guarded (place : Place) (random : Except String (Block 32))
    (hg : g.running = some (.loadOrCreate random)) (h : Keeps g r) :
    Guarded readable.recorded (Running (.loadOrCreate random))
      (fun r' a => ∀ identity, a = .ok identity →
        Keeps ⟨some (.loadOrCreate random), some identity.privateKey⟩ r')
      (loadOrCreate C place random).run r := by
  unfold loadOrCreate
  refine Guarded.tryBind (load_guarded hg h) ?_ (fun _ _ _ _ _ => nofun)
  rintro r₁ found - ⟨h₁, hfound⟩
  cases hfound
  cases hsaved : g.saved with
  | some key =>
    refine ⟨⟨g, hg, h₁⟩, ?_⟩
    rintro identity ⟨⟩
    have hghost : g = ⟨some (.loadOrCreate random), some key⟩ := by rw [← hg, ← hsaved]
    rw [hghost] at h₁
    exact h₁
  | none =>
    cases random with
    | error e => exact ⟨⟨g, hg, h₁⟩, fun _ => nofun⟩
    | ok key =>
      refine Guarded.tryBind (Q := fun r a => Keeps g r ∧ a = .ok (Identity.fromPrivate C key))
        ⟨⟨g, hg, h₁⟩, h₁, rfl⟩ ?_ (fun _ _ _ _ _ => nofun)
      rintro r₂ _ - ⟨h₂, ⟨⟩⟩
      have hsave := save_guarded place (Identity.fromPrivate C key) hg rfl (.inr ⟨⟨_, hg⟩, hsaved⟩) h₂
      refine Guarded.tryBind hsave ?_ (fun _ _ _ _ _ => nofun)
      rintro r₃ _ hbusy h₃
      refine ⟨hbusy, ?_⟩
      rintro identity ⟨⟩
      exact h₃ rfl

theorem remove_guarded (place : Place) (hg : g.running = some .remove) (h : Keeps g r) :
    Guarded readable.recorded (Running (.remove : Call C)) (fun _ _ => True) (remove place).run r := by
  have hremove : Guarded readable.recorded (Running (.remove : Call C)) (fun r' _ => Running .remove r')
      (removeFile FileName.path) r := by
    refine Guarded.perform (Op.removeFile FileName.path) ⟨g, hg, h⟩ ?_
    intro choice t a ht
    suffices hbusy : Running .remove t from ⟨hbusy, hbusy⟩
    obtain ⟨d, hd, rfl⟩ := recorded_perform ht
    have hmissing : ∀ e : IoError,
      Running .remove (r.add r.state (.performed (.removeFile .path) (.error e))) :=
      fun e => ⟨g, hg, h.performed ⟨rfl, rfl⟩ rfl⟩
    obtain hact | ⟨written, error, hfail⟩ := faulty_cases (faulty_of_readable hd)
    · rw [act] at hact
      split_ifs at hact
      · cases hact
        refine ⟨{ g with saved := none }, hg, h.add _ (.performed (.removeFile .path) (.ok ())) ?_ ?_⟩
        · refine ⟨Bool.noConfusion, fun _ => ?_⟩
          rw [show ghost Call.key r.history = g from h.ghost, hg]
        · rw [Protocol.Stored, id, unlink_contents]
          exact .none
      · cases hact
        exact hmissing missing
    · cases hfail
      exact hmissing error
  unfold remove
  refine Guarded.liftThen hremove ?_
  rintro r₁ removed hbusy -
  cases removed with
  | ok =>
    obtain ⟨g₁, hg₁, h₁⟩ := hbusy
    exact (syncParent_guarded place hg₁ h₁).mono (fun _ h => h) fun _ _ _ _ => trivial
  | error e =>
    dsimp only
    split_ifs
    · exact ⟨hbusy, trivial⟩
    · exact ⟨hbusy, trivial⟩

theorem lastSaved_of_keeps {g : Ghosts C} (h : Keeps g r) :
    lastSaved r.history = g.saved.map (Identity.fromPrivate C) := by
  rw [lastSaved, show ghost Call.key r.history = g from h.ghost]

theorem fromPrivate_privateKey (identity : Identity C) :
    Identity.fromPrivate C identity.privateKey = identity := by
  obtain ⟨privateKey, publicKey, rfl⟩ := identity
  rfl

theorem store_follows (place : Place) : Follows (protocol C) id (store place) := by
  intro r g call prog hprog hg hstarted
  cases hprog
  cases call with
  | save identity =>
    refine (save_guarded place identity hg rfl (.inl ⟨_, hg⟩) hstarted).bind ?_
    intro r' result hbusy hsaved
    refine ⟨hbusy, ?_⟩
    cases result with
    | error e => trivial
    | ok =>
      change lastSaved r'.history = some identity
      rw [lastSaved_of_keeps (hsaved rfl), Option.map_some, fromPrivate_privateKey]
  | load =>
    refine (load_guarded hg hstarted).bind ?_
    rintro r' result hbusy ⟨h', rfl⟩
    refine ⟨hbusy, ?_⟩
    change _ = Except.ok (lastSaved r'.history)
    rw [lastSaved_of_keeps h']
  | loadOrCreate random =>
    refine (loadOrCreate_guarded place random hg hstarted).bind ?_
    intro r' result hbusy hcreated
    refine ⟨hbusy, ?_⟩
    cases result with
    | error e => trivial
    | ok identity =>
      change lastSaved r'.history = some identity
      rw [lastSaved_of_keeps (hcreated identity rfl), Option.map_some, fromPrivate_privateKey]
  | remove =>
    refine (remove_guarded place hg hstarted).bind ?_
    intro r' result hbusy _
    exact ⟨hbusy, trivial⟩

theorem lastSaved_stays {h during : History C} {identity : Identity C}
    (hidle : (ghost Call.key h).running = none) (hsaved : lastSaved h = some identity)
    (htrue : (protocol C).Truthful (h ++ during))
    (hquiet : ∀ entry ∈ during, entry ≠ .started .remove ∧ ∀ other, entry ≠ .started (.save other)) :
    lastSaved (h ++ during) = some identity ∧
      (ghost Call.key (h ++ during)).running ≠ some .remove ∧
      ∀ other, (ghost Call.key (h ++ during)).running ≠ some (.save other) := by
  induction during using List.reverseRecOn with
  | nil =>
    rw [List.append_nil, hidle]
    exact ⟨hsaved, (Option.some_ne_none _).symm, fun _ => (Option.some_ne_none _).symm⟩
  | append_singleton during entry ih =>
    have hshort : h ++ during <+: h ++ (during ++ [entry]) := by
      rw [← List.append_assoc]
      exact List.prefix_append _ _
    obtain ⟨hlast, hremove, hsave⟩ := ih (htrue.before hshort)
      fun e he => hquiet e (List.mem_append_left _ he)
    have hright : Right (h ++ during) entry :=
      htrue _ _ (by rw [List.append_assoc])
    have hentry := hquiet entry (List.mem_append_right _ (List.mem_singleton_self entry))
    rw [← List.append_assoc, lastSaved, ghost_add]
    cases entry with
    | started call =>
      refine ⟨hlast, ?_, fun other => ?_⟩
      · rintro ⟨⟩
        exact hentry.1 rfl
      · rintro ⟨⟩
        exact hentry.2 other rfl
    | performed op a =>
      have hrenamed : renamed op a = false := by
        by_contra htrue
        obtain ⟨other, hrun⟩ | ⟨-, hnone⟩ := hright.1 (by simpa using htrue)
        · exact hsave other hrun
        · rw [lastSaved, hnone] at hlast
          cases hlast
      have hunlinked : unlinked op a = false := by
        by_contra htrue
        exact hremove (hright.2 (by simpa using htrue))
      simp only [Ghost.after, hrenamed, hunlinked, Bool.false_eq_true, ↓reduceIte]
      exact ⟨hlast, hremove, hsave⟩
    | returned call outcome =>
      exact ⟨hlast, (Option.some_ne_none _).symm, fun _ => (Option.some_ne_none _).symm⟩
    | crashed => exact ⟨hlast, (Option.some_ne_none _).symm, fun _ => (Option.some_ne_none _).symm⟩

end Programs

/-- The call has confirmed that this identity is in the file. -/
def Confirms (identity : Identity C) : Call C → Outcome C → Prop
  | .loadOrCreate _, .created result => result = .ok identity
  | .save saved, .saved result => saved = identity ∧ result = .ok ()
  | _, _ => False

theorem Confirms.lastSaved_eq {identity : Identity C} {call : Call C} {outcome : Outcome C}
    {before : History C} (h : Confirms identity call outcome)
    (hright : Right before (.returned call outcome)) : lastSaved before = some identity := by
  cases call <;> cases outcome <;> first | exact h.elim | skip
  · obtain ⟨rfl, rfl⟩ := h
    exact hright
  · cases h
    exact hright

/-- `load` never fails and returns the identity of the last save whose rename took place, and an
identity that was confirmed is what every `load` returns until a save or a removal is started. -/
theorem identity_survives_crashes (place : Place) (d : Disk FileName) (hfresh : d.link .path = none)
    {moves : List (Move (Call C) Choice)}
    {p : Process (Op FileName) Ans (Call C) (Disk FileName) (Outcome C)}
    (hrun : MachineRuns.runFrom (store place).move ⟨⟨d, []⟩, none⟩ moves = some p) :
    (∀ (before : History C) result, before ++ [.returned .load (.loaded result)] <+: p.now.history →
      result = .ok (lastSaved before)) ∧
    ∀ (before during : History C) call outcome identity result, Confirms identity call outcome →
      (before ++ [.returned call outcome]) ++ during ++ [.returned .load (.loaded result)] <+:
        p.now.history →
      (∀ entry ∈ during, entry ≠ .started .remove ∧ ∀ other, entry ≠ .started (.save other)) →
      result = .ok (some identity) := by
  obtain ⟨htrue, -⟩ := (store_follows place).run (fun _ => rfl) (fun _ _ _ => rfl) hfresh hrun
  refine ⟨fun before result he => htrue before _ he, ?_⟩
  intro before during call outcome identity result hconfirms he hquiet
  have hload : result = .ok (lastSaved ((before ++ [.returned call outcome]) ++ during)) := htrue _ _ he
  have hduring : (protocol C).Truthful ((before ++ [.returned call outcome]) ++ during) :=
    htrue.before ((List.prefix_append _ _).trans he)
  have hreturned : lastSaved before = some identity :=
    hconfirms.lastSaved_eq (hduring before _ (List.prefix_append _ _))
  have hidle : (ghost Call.key (before ++ [.returned call outcome])).running = none := by
    rw [ghost_add]
    rfl
  have hsaved : lastSaved (before ++ [.returned call outcome]) = some identity := by
    rw [lastSaved, ghost_add]
    exact hreturned
  rw [hload, (lastSaved_stays hidle hsaved hduring hquiet).1]

section Sample
open MessageRoundTrip (sampleCrypto sampleIdentity)

def sampleMoves : List (Move (Call sampleCrypto) Choice) :=
  [.start (.save (sampleIdentity 1)), .step .ok, .step .ok, .step .ok, .crash,
    .start (.loadOrCreate (.ok (sampleIdentity 2).privateKey)), .step .ok, .step .ok, .step .ok,
    .step .ok, .step .ok,
    .step .ok, .step .ok, .finish,
    .start (.loadOrCreate (.error "drained")), .step .ok, .step .ok, .step .ok, .crash,
    .start .load, .step .ok, .step .ok, .step .ok, .finish]

/-- A save that is cut short, and a creation over what it has left behind. -/
def sampleBefore : History sampleCrypto :=
  [.started (.save (sampleIdentity 1)), .performed .createDirAll (.ok ()),
    .performed (.create .temporary) (.ok 0), .performed (.write 0 0 identityMagic) (.ok ()), .crashed,
    .started (.loadOrCreate (.ok (sampleIdentity 2).privateKey)), .performed (.pathExists .path) false,
    .performed .createDirAll (.ok ()), .performed (.create .temporary) (.ok 0),
    .performed (.write 0 0 identityMagic) (.ok ()),
    .performed (.write 0 8 (sampleIdentity 2).privateKey.toList) (.ok ()),
    .performed (.syncAll 0) (.ok ()), .performed (.rename .temporary .path) (.ok ())]

def sampleReturned : Event (Call sampleCrypto) (Outcome sampleCrypto) :=
  .returned (.loadOrCreate (.ok (sampleIdentity 2).privateKey)) (.created (.ok (sampleIdentity 2)))

def sampleReads : History sampleCrypto :=
  [.performed (.pathExists .path) true, .performed (.openRead .path) (.ok 0),
    .performed (.readToEnd 0) (.ok (encodeIdentity (sampleIdentity 2).privateKey))]

def sampleDuring : History sampleCrypto :=
  .started (.loadOrCreate (.error "drained")) ::
    (sampleReads ++ .crashed :: .started .load :: sampleReads)

theorem identity_survives_crashes_sample :
    ∃ p loaded, MachineRuns.runFrom (store ⟨false, true⟩).move ⟨⟨emptyDisk, []⟩, none⟩ sampleMoves =
      some p ∧
      p.now.history = (sampleBefore ++ [sampleReturned]) ++ sampleDuring ++
        [.returned .load (.loaded loaded)] ∧
      loaded = .ok (lastSaved ((sampleBefore ++ [sampleReturned]) ++ sampleDuring)) ∧
      loaded = .ok (some (sampleIdentity 2)) := by
  obtain ⟨p, loaded, hrun, hhistory⟩ : ∃ p loaded,
      MachineRuns.runFrom (store ⟨false, true⟩).move ⟨⟨emptyDisk, []⟩, none⟩ sampleMoves = some p ∧
      p.now.history = (sampleBefore ++ [sampleReturned]) ++ sampleDuring ++
        [.returned .load (.loaded loaded)] :=
    ⟨_, _, rfl, rfl⟩
  obtain ⟨hload, hkept⟩ := identity_survives_crashes ⟨false, true⟩ emptyDisk rfl hrun
  have hlast : _ <+: p.now.history := ⟨[], (List.append_nil _).trans hhistory.symm⟩
  have hconfirms : Confirms (sampleIdentity 2) (.loadOrCreate (.ok (sampleIdentity 2).privateKey))
      (.created (.ok (sampleIdentity 2))) := rfl
  refine ⟨p, loaded, hrun, hhistory, hload _ _ hlast, hkept _ sampleDuring _ _ _ _ hconfirms hlast ?_⟩
  simp [sampleDuring, sampleReads]

end Sample

end Mst5Client.IdentityCrashes
