import Mst5Client.IdentityCrashes

set_option autoImplicit false

/-!
# Two first uses of one identity file

Calls of `load_or_create` whose steps on one path come in any order.
-/
namespace Mst5Client.IdentityRaces
open ByteOrder IoResult CrashPrograms FileSteps FileReplacement IdentityMessages IdentityStore
  IdentityCrashes

variable {C : E2eCrypto}

abbrev Creation (C : E2eCrypto) := Steps FileName (Except IoError (Identity C))

def creation (C : E2eCrypto) (place : Place) (random : Except String (Block 32)) : Creation C :=
  (loadOrCreate C place random).run

section Readers
variable {bytes : Bytes} {d : Disk FileName}

/-- A call that only reads a disk with these bytes in the file, and returns no other identity. -/
def Reads (bytes : Bytes) (d : Disk FileName) (p : Creation C) : Prop :=
  Guarded readable (· = d) (fun _ a => ∀ identity, a = .ok identity →
    bytes = encodeIdentity identity.privateKey) p d

theorem loadResult_eq_ok {found : Option (Identity C)} (h : loadResult C (some bytes) = .ok found) :
    ∃ identity, found = some identity ∧ bytes = encodeIdentity identity.privateKey := by
  rw [loadResult] at h
  cases hdecode : decodeIdentity C (bytes.take 64) with
  | error e =>
    rw [hdecode] at h
    cases h
  | ok identity =>
    rw [hdecode] at h
    cases h
    exact ⟨identity, rfl, encode_decodeIdentity hdecode⟩

theorem creation_reads (place : Place) (random : Except String (Block 32))
    (h : d.contents .path = some bytes) : Reads bytes d (creation C place random) := by
  unfold Reads creation loadOrCreate
  refine Guarded.tryBind (load_spec d) ?_ (fun _ _ _ _ _ => nofun)
  rintro d found rfl hfound
  rw [h] at hfound
  obtain ⟨identity, rfl, hbytes⟩ := loadResult_eq_ok hfound.symm
  refine ⟨rfl, ?_⟩
  rintro identity ⟨⟩
  exact hbytes

def Absent (d : Disk FileName) : Prop := d.contents .path = none

def Failed {α : Type} (a : Except IoError α) : Prop := ∃ e, a = .error e

/-- The file has come into being and the call only reads from now on. -/
def Settles (d : Disk FileName) (p : Creation C) : Prop :=
  ∃ bytes, d.contents .path = some bytes ∧ Reads bytes d p

def Creates (d : Disk FileName) (p : Creation C) : Prop := Until readable Absent Failed Settles p d

theorem save_creates (place : Place) (identity : Identity C) (hd : Absent d) :
    Until readable Absent Failed
      (fun e q => e.contents .path = some (encodeIdentity identity.privateKey) ∧
      Guarded readable (· = e) (fun _ _ => True) q e) (save place identity).run d := by
  unfold save
  split_ifs
  · refine (guarded_readable (stage_spec identity hd)).thenUntil ?_
    rintro d₁ staged h₁ hstaged
    cases staged with
    | error e => exact ⟨h₁, e, rfl⟩
    | ok =>
      obtain ⟨file, hfile⟩ := hstaged rfl
      -- the one step after which the file is there
      refine ⟨h₁, ?_⟩
      intro choice d₂ a h₂
      obtain ⟨rfl, hcontents⟩ | ⟨⟨error, rfl⟩, rfl⟩ :=
        faulty_rename (by decide) hfile (faulty_of_readable h₂)
      · exact .inr ⟨hcontents, guarded_readable (keeps_spec (syncParent_keeps place) d₂)⟩
      · exact .inl ⟨h₁, error, rfl⟩
  · exact ⟨hd, _, rfl⟩

theorem missing_creates (place : Place) (random : Except String (Block 32)) (hd : Absent d) :
    Creates d (do
      let identity ← ExceptT.mk (pure (generate C random))
      save place identity
      return identity : Trial FileName (Identity C)).run := by
  cases random with
  | error e => exact ⟨hd, _, rfl⟩
  | ok key =>
    change Creates d (do
      save place (Identity.fromPrivate C key)
      return Identity.fromPrivate C key : Trial FileName (Identity C)).run
    refine Until.bind (save_creates place (Identity.fromPrivate C key) hd) ?_ ?_
    · rintro e _ he ⟨error, rfl⟩
      exact ⟨he, error, rfl⟩
    · rintro e q ⟨hcontents, hq⟩
      refine ⟨_, hcontents, hq.bind ?_⟩
      rintro e result rfl -
      cases result with
      | error error => exact ⟨rfl, fun _ => nofun⟩
      | ok =>
        refine ⟨rfl, ?_⟩
        rintro identity ⟨⟩
        rfl

theorem creation_check (C : E2eCrypto) (place : Place) (random : Except String (Block 32)) :
    ∃ k, creation C place random = .call (.pathExists .path) k ∧ ∀ d, Absent d → Creates d (k false) :=
  ⟨_, rfl, fun _ hd => missing_creates place random hd⟩

variable {place : Place}

abbrev Creations (C : E2eCrypto) :=
  Race (Op FileName) Ans (Disk FileName) (Except IoError (Identity C))

def Fresh (place : Place) (p : Creation C) : Prop := ∃ random, p = creation C place random

/-- No check finds the file missing while another call is under way. -/
def Alone (place : Place) (s : Creations C) (label : ℕ × Choice) : Prop :=
  ∀ k, s.calls[label.1]? = some (.call (.pathExists .path) k) → Absent s.state →
    ∀ j p, j ≠ label.1 → s.calls[j]? = some p → Fresh place p ∨ ∃ a, p = .ret a

inductive Orderly (place : Place) (s : Creations C) : Prop
  | present (bytes : Bytes) (contents : s.state.contents .path = some bytes)
      (reads : ∀ p ∈ s.calls, Reads bytes s.state p)
  | absent (creator : Option ℕ) (contents : Absent s.state)
      (calls : ∀ i p, s.calls[i]? = some p → Fresh place p ∨ (∃ e, p = .ret (.error e)) ∨
        creator = some i ∧ Creates s.state p)

theorem Orderly.start (place : Place) (d : Disk FileName)
    (randoms : List (Except String (Block 32))) :
    Orderly place (⟨d, randoms.map (creation C place)⟩ : Creations C) := by
  cases hd : d.contents .path with
  | some bytes =>
    refine .present bytes hd ?_
    intro p hp
    obtain ⟨random, -, rfl⟩ := List.mem_map.mp hp
    exact creation_reads place random hd
  | none =>
    refine .absent none hd ?_
    intro i p hp
    obtain ⟨random, -, rfl⟩ := List.mem_map.mp (List.mem_of_getElem? hp)
    exact .inl ⟨random, rfl⟩

variable {s t : Creations C} {i : ℕ} {choice : Choice}

theorem getElem?_set_cases {α : Type} {calls : List α} {j : ℕ} {next p : α}
    (h : (calls.set i next)[j]? = some p) : p = next ∧ i = j ∨ i ≠ j ∧ calls[j]? = some p := by
  rw [List.getElem?_set] at h
  split_ifs at h with hj
  · exact .inl ⟨(Option.some.inj h).symm, hj⟩
  · exact .inr ⟨hj, h⟩

theorem Orderly.read {bytes : Bytes} (hcontents : s.state.contents .path = some bytes)
    (hreads : ∀ p ∈ s.calls, Reads bytes s.state p) (hstep : s.step readable (i, choice) = some t) :
    Orderly place t := by
  obtain ⟨op, k, d, a, hcall, hperform, rfl⟩ := Race.step_cases hstep
  have hnext := (hreads _ (List.mem_of_getElem? hcall)).2 choice d a hperform
  obtain rfl : d = s.state := hnext.condition
  refine .present bytes hcontents ?_
  intro p hp
  obtain hp | rfl := List.mem_or_eq_of_mem_set hp
  · exact hreads p hp
  · exact hnext

theorem Orderly.check {random : Except String (Block 32)} {creator : Option ℕ}
    (hcontents : Absent s.state)
    (hcalls : ∀ i p, s.calls[i]? = some p → Fresh place p ∨ (∃ e, p = .ret (.error e)) ∨
      creator = some i ∧ Creates s.state p) (hfresh : s.calls[i]? = some (creation C place random))
    (halone : Alone place s (i, choice)) (hstep : s.step readable (i, choice) = some t) :
    Orderly place t := by
  obtain ⟨op, k, d, a, hcall, hperform, rfl⟩ := Race.step_cases hstep
  obtain ⟨k', hk', hcreates⟩ := creation_check C place random
  rw [hk', hcall] at hfresh
  cases hfresh
  obtain ⟨rfl, ha⟩ := readable_reads rfl hperform
  have hfalse : a = false := by
    have hlink := contents_isSome s.state FileName.path
    rw [hcontents] at hlink
    exact ha.trans hlink.symm
  rw [hfalse]
  refine .absent (some i) hcontents ?_
  intro j p hp
  obtain ⟨rfl, rfl⟩ | ⟨hj, hp⟩ := getElem?_set_cases hp
  · exact .inr (.inr ⟨rfl, hcreates _ hcontents⟩)
  · obtain hp' | ⟨result, rfl⟩ := halone _ hcall hcontents j p (Ne.symm hj) hp
    · exact .inl hp'
    · obtain hp' | hp' | ⟨-, -, e, he⟩ := hcalls j _ hp
      · exact .inl hp'
      · exact .inr (.inl hp')
      · exact .inr (.inl ⟨e, by rw [he]⟩)

theorem Orderly.create (hcreates : ∀ p, s.calls[i]? = some p → Creates s.state p)
    (hothers : ∀ j p, i ≠ j → s.calls[j]? = some p → Fresh place p ∨ ∃ e, p = .ret (.error e))
    (hstep : s.step readable (i, choice) = some t) : Orderly place t := by
  obtain ⟨op, k, d, a, hcall, hperform, rfl⟩ := Race.step_cases hstep
  obtain hnext | ⟨bytes, hcontents, hreads⟩ := (hcreates _ hcall).2 choice d a hperform
  · refine .absent (some i) hnext.condition ?_
    intro j p hp
    obtain ⟨rfl, rfl⟩ | ⟨hj, hp⟩ := getElem?_set_cases hp
    · exact .inr (.inr ⟨rfl, hnext⟩)
    · obtain hp' | hp' := hothers j p hj hp
      · exact .inl hp'
      · exact .inr (.inl hp')
  · -- the file is there, and the others will find it
    refine .present bytes hcontents ?_
    intro p hp
    obtain ⟨j, hp⟩ := List.mem_iff_getElem?.mp hp
    obtain ⟨rfl, -⟩ | ⟨hj, hp⟩ := getElem?_set_cases hp
    · exact hreads
    · obtain ⟨random, rfl⟩ | ⟨e, rfl⟩ := hothers j p hj hp
      · exact creation_reads place random hcontents
      · exact ⟨rfl, fun _ => nofun⟩

theorem Orderly.step (h : Orderly place s) (halone : Alone place s (i, choice))
    (hstep : s.step readable (i, choice) = some t) : Orderly place t := by
  cases h with
  | present bytes hcontents hreads => exact Orderly.read hcontents hreads hstep
  | absent creator hcontents hcalls =>
    obtain ⟨op, k, -, -, hcall, -, -⟩ := Race.step_cases hstep
    obtain ⟨random, hfresh⟩ | ⟨e, herror⟩ | ⟨hcreator, hcreates⟩ := hcalls i _ hcall
    · exact Orderly.check hcontents hcalls (hfresh ▸ hcall) halone hstep
    · cases herror
    · refine Orderly.create (fun p hp => ?_) (fun j p hj hp => ?_) hstep
      · rw [hcall] at hp
        exact Option.some.inj hp ▸ hcreates
      · obtain hp' | hp' | ⟨hj', -⟩ := hcalls j p hp
        · exact .inl hp'
        · exact .inr hp'
        · exact absurd (Option.some.inj (hcreator.symm.trans hj')) hj

theorem Orderly.run {labels : List (ℕ × Choice)} (h : Orderly place s)
    (halone : MachineRuns.Allows (Race.step readable) (Alone place) s labels)
    (hrun : MachineRuns.runFrom (Race.step readable) s labels = some t) : Orderly place t :=
  MachineRuns.run_invariant (fun _ _ _ h halone hstep => h.step halone hstep) h halone hrun

theorem Orderly.agree (h : Orderly place s) {identity : Identity C}
    (hi : s.calls[i]? = some (.ret (.ok identity))) :
    s.state.contents .path = some (encodeIdentity identity.privateKey) := by
  cases h with
  | present bytes hcontents hreads =>
    have hbytes := (hreads _ (List.mem_of_getElem? hi)).2 identity rfl
    rw [hcontents, hbytes]
  | absent creator hcontents hcalls =>
    obtain ⟨random, hfresh⟩ | ⟨e, herror⟩ | ⟨-, -, e, herror⟩ := hcalls i _ hi
    · obtain ⟨k, hk, -⟩ := creation_check C place random
      rw [hk] at hfresh
      cases hfresh
    · cases herror
    · cases herror

end Readers

theorem encodeIdentity_injective {a b : Identity C}
    (h : encodeIdentity a.privateKey = encodeIdentity b.privateKey) : a = b := by
  have hkey : a.privateKey = b.privateKey := List.Vector.toList_injective (List.append_cancel_left h)
  rw [← fromPrivate_privateKey a, hkey, fromPrivate_privateKey]

theorem load_executes {d : Disk FileName} {identity : Identity C}
    (h : d.contents .path = some (encodeIdentity identity.privateKey)) :
    execute readable (load C).run d [.ok, .ok, .ok] = some (d, .ok (some identity)) := by
  obtain ⟨file, hlink, hdata⟩ := Option.bind_eq_some_iff.mp h
  have hexists : readable.perform d (.pathExists .path) .ok = some (d, true) := by
    change some (d, (d.link .path).isSome) = _
    rw [hlink]
    rfl
  have hopen : readable.perform d (.openRead .path) .ok = some (d, .ok file) := by
    change some (d, (d.link .path).elim (Except.error missing) Except.ok) = _
    rw [hlink]
    rfl
  have hread : readable.perform d (.readToEnd file) .ok = some (d,
      .ok (encodeIdentity identity.privateKey)) := by
    change some (d, Except.ok (d.data.getD file [])) = _
    rw [List.getD_eq_getElem?_getD, hdata]
    rfl
  change execute readable (.call (.pathExists .path) _) d _ = _
  rw [execute_call hexists]
  change execute readable (.call (.openRead .path) _) d _ = _
  rw [execute_call hopen]
  change execute readable (.call (.readToEnd file) _) d _ = _
  rw [execute_call hread]
  change execute readable ((do
    let identity ← ExceptT.mk (pure (decodeIdentity C ((encodeIdentity identity.privateKey).take 64)))
    return some identity : Trial FileName (Option (Identity C))).run) d [] = _
  rw [decode_encodeIdentity, fromPrivate_privateKey]
  rfl

/-- Two first uses agree, and a later `load` returns their identity, when neither check finds the file
missing while the other call is under way. -/
theorem first_uses_agree (place : Place) (d : Disk FileName)
    (first second : Except String (Block 32)) {labels : List (ℕ × Choice)} {s : Creations C}
    (halone : MachineRuns.Allows (Race.step readable) (Alone place)
      ⟨d, [creation C place first, creation C place second]⟩ labels)
    (hrun : MachineRuns.runFrom (Race.step readable)
      ⟨d, [creation C place first, creation C place second]⟩ labels = some s)
    {a b : Identity C} (hcalls : s.calls = [.ret (.ok a), .ret (.ok b)]) :
    a = b ∧ execute readable (load C).run s.state [.ok, .ok, .ok] = some (s.state, .ok (some a)) := by
  have horderly := (Orderly.start place d [first, second]).run halone hrun
  have ha : s.state.contents .path = some (encodeIdentity a.privateKey) :=
    horderly.agree (i := 0) (by rw [hcalls]; rfl)
  have hb : s.state.contents .path = some (encodeIdentity b.privateKey) :=
    horderly.agree (i := 1) (by rw [hcalls]; rfl)
  exact ⟨encodeIdentity_injective (Option.some.inj (ha.symm.trans hb)), load_executes ha⟩

section Samples
open MessageRoundTrip (sampleCrypto sampleIdentity)

def sampleCreation (b : UInt8) : Creation sampleCrypto :=
  creation sampleCrypto ⟨true, true⟩ (.ok (sampleIdentity b).privateKey)

def returnedKeys (s : Creations C) : List (Option (Block 32)) :=
  s.calls.map fun
    | .ret (.ok identity) => some identity.privateKey
    | _ => none

def Finds (s : Creations C) (label : ℕ × Choice) : Prop :=
  match s.calls[label.1]? with
  | some (.call (.pathExists .path) _) => (s.state.link .path).isSome = true
  | _ => True

instance (s : Creations C) (label : ℕ × Choice) : Decidable (Finds s label) := by
  unfold Finds
  split <;> infer_instance

theorem Finds.alone {place : Place} {s : Creations C} {label : ℕ × Choice} (h : Finds s label) :
    Alone place s label := by
  intro k hcall habsent
  rw [Finds, hcall] at h
  dsimp only at h
  rw [← contents_isSome, habsent] at h
  cases h

def sampleStart : Creations sampleCrypto := ⟨emptyDisk, [sampleCreation 1, sampleCreation 2]⟩

def inTurn : List (ℕ × Choice) := (0, .ok) :: (List.replicate 8 (0, .ok) ++ List.replicate 3 (1, .ok))

theorem inTurn_alone : MachineRuns.Allows (Race.step readable) (Alone ⟨true, true⟩) sampleStart
    inTurn := by
  constructor
  · -- the other call has not begun at the first check
    intro k hcall habsent j p hj hp
    cases j with
    | zero => exact absurd rfl hj
    | succ j =>
      cases j with
      | zero =>
        cases hp
        exact .inl ⟨_, rfl⟩
      | succ j => cases hp
  · intro t ht
    have hfinds : ∀ t ∈ Race.step readable sampleStart (0, .ok),
        MachineRuns.Allows (Race.step readable) Finds t
          (List.replicate 8 (0, .ok) ++ List.replicate 3 (1, .ok)) := by
      decide +kernel
    exact (hfinds t ht).mono fun _ _ => Finds.alone

theorem first_uses_agree_in_turn :
    ∃ s, MachineRuns.runFrom (Race.step readable) sampleStart inTurn = some s ∧
      s.calls = [.ret (.ok (sampleIdentity 1)), .ret (.ok (sampleIdentity 1))] ∧
      execute readable (load sampleCrypto).run s.state [.ok, .ok, .ok] =
        some (s.state, .ok (some (sampleIdentity 1))) := by
  have hrun : MachineRuns.runFrom (Race.step readable) sampleStart inTurn =
      some ⟨_, [.ret (.ok (sampleIdentity 1)), .ret (.ok (sampleIdentity 1))]⟩ := rfl
  exact ⟨_, hrun, rfl, (first_uses_agree ⟨true, true⟩ emptyDisk _ _ inTurn_alone hrun rfl).2⟩

/-- Both calls check before either creates the file, and each returns a key of its own. -/
theorem first_uses_disagree :
    ((MachineRuns.runFrom (Race.step readable) sampleStart
        ([(0, .ok), (1, .ok)] ++ List.replicate 8 (0, .ok) ++ List.replicate 8 (1, .ok))).map
          returnedKeys =
      some [some (sampleIdentity 1).privateKey, some (sampleIdentity 2).privateKey]) ∧
    (sampleIdentity 1).privateKey ≠ (sampleIdentity 2).privateKey := by
  decide +kernel

end Samples

end Mst5Client.IdentityRaces
