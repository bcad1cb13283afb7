import Mst5Client.RecordLockstep

set_option autoImplicit false

/-!
# One direction under an active network

The sender seals records; the network presents any byte strings to the receiver, at any time and as
often as it likes. The cipher is ideal: it decrypts only what the sender has encrypted so far.
-/
namespace Mst5Client.RecordAdversary
open ByteOrder AuthenticatedCipher RecordLayer RecordPlaintext Ratchet RecordSteps
  RecordLockstep

/-- A cipher whose decryption may depend on the encryptions made so far. -/
structure Oracle where
  encrypt : Key → Bytes → Bytes → Bytes → Option Bytes
  decrypt : List (Entry Key) → Key → Bytes → Bytes → Bytes → Option Bytes
  hkdf : Hkdf

def Oracle.crypto (O : Oracle) (log : List (Entry Key)) : RecordCrypto :=
  ⟨⟨O.encrypt, O.decrypt log⟩, O.hkdf⟩

inductive Event where
  | sealRecord (contentType : UInt8) (payload : Bytes)
  | present (record : Bytes)

structure World where
  sender : Session
  receiver : Session
  log : List (Entry Key)
  sealed : List Record
  opened : List Record

def World.start (sender receiver : Session) : World := ⟨sender, receiver, [], [], []⟩

def World.step (O : Oracle) (w : World) : Event → World
  | .sealRecord contentType payload =>
    let log := w.log ++ (encryption (O.crypto w.log) w.sender contentType payload).toList
    match w.sender.sealRecord (O.crypto w.log) contentType payload with
    | (sender, .ok _) => { w with sender, log, sealed := w.sealed ++ [recordOf contentType payload] }
    | (sender, .error _) => { w with sender, log }
  | .present record =>
    match w.receiver.openRecord (O.crypto w.log) record with
    | (receiver, .ok decoded) => { w with receiver, opened := w.opened ++ [decoded] }
    | (receiver, .error _) => { w with receiver }

def World.run (O : Oracle) (w : World) (events : List Event) : World :=
  events.foldl (World.step O) w

def place (items : List Item) : Position := position limits (items.map Item.size)

theorem place_concat (items : List Item) (i : Item) :
    place (items ++ [i]) = advance limits (place items) i.size := by
  rw [place, List.map_append, List.map_singleton, position_concat]
  rfl

theorem place_within (items : List Item) : (place items).Within limits :=
  position_within limits_records_pos limits_bytes_pos _

theorem place_injective {items before delivered : List Item} (hb : before <+: items)
    (hd : delivered <+: items) (hg : (place before).generation = (place delivered).generation)
    (hr : (place before).records = (place delivered).records) : before = delivered := by
  have strict : ∀ xs ys : List Item, xs <+: ys → xs ≠ ys → (place xs).Before (place ys) := by
    rintro xs _ ⟨zs, rfl⟩ hne
    rw [place, place, List.map_append]
    refine position_before limits _ _ ?_
    rintro hz
    rw [List.map_eq_nil_iff.mp hz, List.append_nil] at hne
    exact hne rfl
  by_contra hne
  rcases List.prefix_or_prefix_of_prefix hb hd with h | h
  · exact (strict _ _ h hne).ne ⟨hg, hr⟩
  · exact (strict _ _ h (Ne.symm hne)).ne ⟨hg.symm, hr.symm⟩

/-- What holds between the ends while keys last: the receiver has accepted exactly
`delivered`, and `waiting` are the records sealed after those. -/
structure Synced (O : Oracle) (hash : Block 32) (key : Key) (w : World)
    (delivered waiting : List Item) : Prop where
  senderHash : w.sender.handshakeHash = hash
  receiverHash : w.receiver.handshakeHash = hash
  sealed : w.sealed = (delivered ++ waiting).map Item.record
  opened : w.opened = delivered.map Item.record
  sender : w.sender.sealState = stateAt O.hkdf hash key (place (delivered ++ waiting))
  receiver : w.receiver.openState = stateAt O.hkdf hash key (place delivered)
  log : ∀ e ∈ w.log, ∃ before i after, delivered ++ waiting = before ++ i :: after ∧
    e.key = generationKey O.hkdf hash key (place before).generation ∧
    e.nonce = aeadNonce (place before).records ∧ e.message = i.plaintext

variable {O : Oracle} {hash : Block 32} {key : Key} {w : World} {delivered waiting : List Item}

theorem Synced.generation (h : Synced O hash key w delivered waiting) :
    w.sender.sealState.generation = (place (delivered ++ waiting)).generation := by
  rw [h.sender]
  rfl

theorem Synced.seal_step (h : Synced O hash key w delivered waiting)
    (hg : w.sender.sealState.generation < maxGeneration) (contentType : UInt8) (payload : Bytes) :
    ∃ waiting', Synced O hash key (w.step O (.sealRecord contentType payload)) delivered waiting' := by
  rcases sealRecord_cases (O.crypto w.log) w.sender contentType payload with
    ⟨hnone, e, hrec⟩ | ⟨hadm, aad, c, -, hsome, hrec⟩
  · refine ⟨waiting, ?_⟩
    simp only [World.step, hnone, hrec, Option.toList_none, List.append_nil]
    exact ⟨h.senderHash, h.receiverHash, h.sealed, h.opened, h.sender, h.receiver, h.log⟩
  let i : Item := ⟨contentType, payload, hadm⟩
  have hcommit : w.sender.sealState.commit O.hkdf w.sender.handshakeHash i.plaintext.length =
      (stateAt O.hkdf hash key (place (delivered ++ waiting ++ [i])), .ok ()) := by
    rw [h.generation] at hg
    rw [h.sender, h.senderHash, i.plaintext_length, place_concat]
    exact commit_stateAt O.hkdf hash key (place_within _) i.size_le hg
  change w.sender.sealRecord _ _ _ = ({ w.sender with sealState :=
    (w.sender.sealState.commit O.hkdf w.sender.handshakeHash i.plaintext.length).1 },
    (w.sender.sealState.commit O.hkdf w.sender.handshakeHash i.plaintext.length).2.map _) at hrec
  rw [hcommit] at hrec
  refine ⟨waiting ++ [i], ?_⟩
  simp only [World.step, hsome, hrec, Except.map, Option.toList_some]
  refine ⟨h.senderHash, h.receiverHash, ?_, h.opened, ?_, h.receiver, ?_⟩
  · have hmap : (delivered ++ (waiting ++ [i])).map Item.record = w.sealed ++ [i.record] := by
      rw [← List.append_assoc, List.map_append, ← h.sealed, List.map_singleton]
    exact hmap.symm
  · rw [← List.append_assoc]
  · intro e he
    rw [← List.append_assoc]
    rcases List.mem_append.mp he with he | he
    · obtain ⟨before, j, after, hsplit, hk⟩ := h.log e he
      exact ⟨before, j, after ++ [i], by rw [hsplit]; simp, hk⟩
    · rw [List.mem_singleton] at he
      subst he
      refine ⟨delivered ++ waiting, i, [], rfl, ?_, ?_, rfl⟩
      · rw [h.sender]; rfl
      · rw [h.sender]; rfl

theorem Synced.present_cases (h : Synced O hash key w delivered waiting)
    (hO : Ideal w.log (O.decrypt w.log))
    (hkeys : Set.InjOn (generationKey O.hkdf hash key) {g | g < 2 ^ 64})
    (hg : w.sender.sealState.generation < maxGeneration) (record : Bytes) :
    (∃ e, w.receiver.openRecord (O.crypto w.log) record = (w.receiver, .error e)) ∨
    ∃ i after, waiting = i :: after ∧
      w.receiver.openRecord (O.crypto w.log) record =
        ({ w.receiver with openState := stateAt O.hkdf hash key (place (delivered ++ [i])) },
          .ok i.record) := by
  rcases openRecord_cases (O.crypto w.log) w.receiver record with
    hrej | ⟨aad, plaintext, decoded, hdec, hparse, hrec⟩
  · exact Or.inl hrej
  right
  -- what opens was sealed somewhere, and its key and nonce say where
  obtain ⟨before, i, after, hsplit, hkey, hnonce, hmsg⟩ := h.log _ (hO _ _ _ _ _ hdec)
  have hbefore : before <+: delivered ++ waiting := ⟨i :: after, hsplit.symm⟩
  have hgen : ∀ xs, xs <+: delivered ++ waiting → (place xs).generation < maxGeneration := by
    rintro xs ⟨ys, hys⟩
    refine lt_of_le_of_lt ?_ (h.generation ▸ hg)
    rw [← hys, place, place, List.map_append]
    exact position_generation_mono limits _ _
  have hsame : before = delivered := by
    refine place_injective hbefore (List.prefix_append _ _) ?_ ?_
    · refine (hkeys ?_ ?_ ?_).symm
      · exact (hgen _ (List.prefix_append _ _)).trans (by decide)
      · exact (hgen _ hbefore).trans (by decide)
      · rw [← hkey, h.receiver]
        rfl
    · have hb := (within_limits (place_within before)).1
      have hd := (within_limits (place_within delivered)).1
      refine aeadNonce_injective (by omega) (by omega) ?_
      rw [← hnonce, h.receiver]
      rfl
  subst hsame
  refine ⟨i, after, List.append_cancel_left hsplit, ?_⟩
  dsimp only at hmsg
  subst hmsg
  have hdecoded : decoded = i.record := by
    have hp : parseTransportPlaintext i.plaintext = .ok i.record := parse_padded i.admissible
    rw [hp] at hparse
    exact (Except.ok.inj hparse).symm
  have hcommit : w.receiver.openState.commit O.hkdf w.receiver.handshakeHash i.plaintext.length =
      (stateAt O.hkdf hash key (place (before ++ [i])), .ok ()) := by
    rw [h.receiver, h.receiverHash, i.plaintext_length, place_concat]
    exact commit_stateAt O.hkdf hash key (place_within _) i.size_le (hgen _ hbefore)
  rw [hrec]
  change ({ w.receiver with openState :=
    (w.receiver.openState.commit O.hkdf w.receiver.handshakeHash i.plaintext.length).1 },
    (w.receiver.openState.commit O.hkdf w.receiver.handshakeHash i.plaintext.length).2.map _) = _
  rw [hcommit, hdecoded]
  rfl

theorem Synced.present_step (h : Synced O hash key w delivered waiting)
    (hO : Ideal w.log (O.decrypt w.log))
    (hkeys : Set.InjOn (generationKey O.hkdf hash key) {g | g < 2 ^ 64})
    (hg : w.sender.sealState.generation < maxGeneration) (record : Bytes) :
    ∃ delivered' waiting', Synced O hash key (w.step O (.present record)) delivered' waiting' := by
  rcases h.present_cases hO hkeys hg record with ⟨e, hrec⟩ | ⟨i, after, rfl, hrec⟩
  · refine ⟨delivered, waiting, ?_⟩
    simp only [World.step, hrec]
    exact ⟨h.senderHash, h.receiverHash, h.sealed, h.opened, h.sender, h.receiver, h.log⟩
  · have hassoc : delivered ++ [i] ++ after = delivered ++ i :: after := by simp
    refine ⟨delivered ++ [i], after, ?_⟩
    simp only [World.step, hrec]
    refine ⟨h.senderHash, h.receiverHash, ?_, ?_, ?_, rfl, ?_⟩
    · rw [hassoc]; exact h.sealed
    · rw [h.opened, List.map_append, List.map_singleton]
    · rw [hassoc]; exact h.sender
    · rw [hassoc]; exact h.log

theorem step_generation_le (O : Oracle) (w : World) (e : Event) :
    w.sender.sealState.generation ≤ (w.step O e).sender.sealState.generation := by
  cases e with
  | sealRecord contentType payload =>
    have hle : w.sender.sealState.generation ≤
        (w.sender.sealRecord (O.crypto w.log) contentType payload).1.sealState.generation := by
      rcases sealRecord_cases (O.crypto w.log) w.sender contentType payload with
        ⟨-, e, hrec⟩ | ⟨hadm, aad, c, -, -, hrec⟩
      · rw [hrec]
      · rw [hrec]
        exact commit_generation_le _ _ _ _
    simp only [World.step]
    rcases hr : w.sender.sealRecord (O.crypto w.log) contentType payload with ⟨s, (e | r)⟩ <;>
      simpa only [hr] using hle
  | present record =>
    simp only [World.step]
    rcases w.receiver.openRecord (O.crypto w.log) record with ⟨s, (e | r)⟩ <;> exact le_refl _

theorem run_synced (O : Oracle) (hO : ∀ log, Ideal log (O.decrypt log)) (hash : Block 32)
    (key : Key) (hkeys : Set.InjOn (generationKey O.hkdf hash key) {g | g < 2 ^ 64}) (w : World)
    (hw : Synced O hash key w [] []) (events : List Event)
    (hg : (w.run O events).sender.sealState.generation < maxGeneration) :
    ∃ delivered waiting, Synced O hash key (w.run O events) delivered waiting := by
  induction events using List.reverseRecOn with
  | nil => exact ⟨[], [], hw⟩
  | append_singleton events e ih =>
    have hrun : w.run O (events ++ [e]) = (w.run O events).step O e := by simp [World.run]
    rw [hrun] at hg ⊢
    -- generations never decrease, so the bound held before the last event
    have hlast := lt_of_le_of_lt (step_generation_le O (w.run O events) e) hg
    obtain ⟨delivered, waiting, h⟩ := ih hlast
    cases e with
    | sealRecord contentType payload => exact ⟨delivered, h.seal_step hlast contentType payload⟩
    | present record => exact h.present_step (hO _) hkeys hlast record

/-- At any time the opened records are a prefix of the sealed ones, and whatever is
rejected leaves the receiver's cipher state as it was. The generation counts the rekeys. -/
theorem opened_prefix_of_sealed (O : Oracle) (hO : ∀ log, Ideal log (O.decrypt log)) (key : Key)
    (sender receiver : Session) (hs : sender.sealState = CipherState.new key)
    (hr : receiver.openState = CipherState.new key)
    (hh : receiver.handshakeHash = sender.handshakeHash)
    (hkeys : Set.InjOn (generationKey O.hkdf sender.handshakeHash key) {g | g < 2 ^ 64})
    (events : List Event)
    (hrekeys : ((World.start sender receiver).run O events).sender.sealState.generation < 2 ^ 64 - 1) :
    let w := (World.start sender receiver).run O events
    w.opened <+: w.sealed ∧
      ∀ record e, (w.receiver.openRecord (O.crypto w.log) record).2 = .error e →
        (w.receiver.openRecord (O.crypto w.log) record).1.openState = w.receiver.openState := by
  intro w
  have hstart : Synced O sender.handshakeHash key (World.start sender receiver) [] [] :=
    ⟨rfl, hh, rfl, rfl, hs, hr, by simp [World.start]⟩
  obtain ⟨delivered, waiting, h⟩ :=
    run_synced O hO sender.handshakeHash key hkeys _ hstart events hrekeys
  refine ⟨?_, ?_⟩
  · rw [h.opened, h.sealed, List.map_append]
    exact List.prefix_append _ _
  · intro record e he
    rcases h.present_cases (hO _) hkeys hrekeys record with ⟨e', hrec⟩ | ⟨i, after, -, hrec⟩
    · rw [hrec]
    · rw [hrec] at he
      cases he

theorem generationKey_counter_injOn (hash : Block 32) (key : Key)
    (hkey : key.toList.drop 8 ≠ List.replicate 24 0) :
    Set.InjOn (generationKey counterHkdf hash key) {g | g < 2 ^ 64} := by
  have htail : ∀ g, (blockOf 32 (beBytes 8 g)).toList = beBytes 8 g ++ List.replicate 24 0 := by
    intro g
    change resize (beBytes 8 g) 32 = _
    rw [resize, beBytes_length, List.take_of_length_le (by simp)]
  have hfirst : ∀ g, generationKey counterHkdf hash key (g + 1) ≠ key := by
    intro g h
    refine hkey ?_
    rw [← h, generationKey_counter, htail, List.drop_left' (beBytes_length 8 _)]
  rintro (_ | m) hm (_ | n) hn h
  · rfl
  · exact absurd h.symm (hfirst n)
  · exact absurd h (hfirst m)
  · rw [generationKey_counter, generationKey_counter] at h
    have hbytes := congrArg List.Vector.toList h
    rw [htail, htail] at hbytes
    exact beBytes_injective (k := 8) (by simpa using hm) (by simpa using hn)
      (List.append_cancel_right hbytes)

def lookupOracle : Oracle := ⟨checksumCrypto.aead.encrypt, lookup, counterHkdf⟩

def sampleSession : Session := Session.new sampleKey sampleHash

def sampleRecord : Bytes :=
  ((sampleSession.sealRecord (lookupOracle.crypto []) 0 [1, 2]).2.toOption).getD []

/-- The first record is presented twice, after the second one has been sealed; the rest is forged. -/
def sampleEvents : List Event :=
  [.present [], .sealRecord 0 [1, 2], .sealRecord 1 [], .present sampleRecord, .present sampleRecord,
    .present (List.replicate 40 0)]

def sampleWorld : World := (World.start sampleSession sampleSession).run lookupOracle sampleEvents

theorem opened_prefix_of_sealed_sample :
    sampleWorld.opened = [recordOf 0 [1, 2]] ∧ sampleWorld.opened <+: sampleWorld.sealed := by
  have hrekeys : ((World.start sampleSession sampleSession).run lookupOracle
      sampleEvents).sender.sealState.generation < 2 ^ 64 - 1 := by decide +kernel
  have hkeys := generationKey_counter_injOn sampleHash sampleKey (by decide)
  have hopened : sampleWorld.opened = [recordOf 0 [1, 2]] := by decide +kernel
  obtain ⟨horder, -⟩ := opened_prefix_of_sealed lookupOracle lookup_ideal sampleKey sampleSession
    sampleSession rfl rfl rfl hkeys sampleEvents hrekeys
  exact ⟨hopened, horder⟩

end Mst5Client.RecordAdversary
