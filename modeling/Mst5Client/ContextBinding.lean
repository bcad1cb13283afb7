import Mathlib.Data.Sym.Sym2
import Mst5Client.IdentityMessages

set_option autoImplicit false

/-!
# What the contexts of messages and media bind

`message_aad`, `message_v4_aad`, `media_aad` and the salt input of `session_key_with_label` join a
context and ids with a NUL byte before each id.
-/
namespace Mst5Client.ContextBinding
open ByteOrder IdentityMessages

def mediaContext : Bytes := utf8 "ove-messenger-e2e-media-v2"

def mediaAad (sender recipient fileId : String) : Bytes :=
  mediaContext ++ [0] ++ utf8 sender ++ [0] ++ utf8 recipient ++ [0] ++ utf8 fileId

def saltInput (left right : String) : Bytes :=
  let (first, second) := orderedIds left right
  context ++ [0] ++ utf8 first ++ [0] ++ utf8 second

def NulFree (id : String) : Prop := '\x00' ∉ id.toList

instance (id : String) : Decidable (NulFree id) := inferInstanceAs (Decidable ('\x00' ∉ id.toList))

theorem utf8_append (s t : String) : utf8 (s ++ t) = utf8 s ++ utf8 t := by
  simp [utf8, String.toByteArray_append]

theorem zero_mem_utf8EncodeChar (c : Char) : 0 ∈ String.utf8EncodeChar c ↔ c = '\x00' := by
  have hval : c = '\x00' ↔ c.val.toNat = 0 := by
    rw [Char.ext_iff, ← UInt32.toNat_inj]
    rfl
  have hbyte : ∀ n < 256, (0 : UInt8) = UInt8.ofNat n ↔ n = 0 := by
    intro n hn
    rw [← UInt8.toNat_inj, UInt8.toNat_ofNat_of_lt' hn]
    exact eq_comm
  rw [hval]
  unfold String.utf8EncodeChar
  dsimp only
  split_ifs with h₁ h₂ h₃
  · simp only [List.mem_singleton]
    rw [hbyte _ (by omega)]
  all_goals
    simp only [List.mem_cons, List.not_mem_nil, or_false]
    repeat rw [hbyte _ (by omega)]
    omega

theorem zero_mem_utf8 (s : String) : 0 ∈ utf8 s ↔ '\x00' ∈ s.toList := by
  rw [utf8_eq_flatMap, List.mem_flatMap]
  simp only [zero_mem_utf8EncodeChar, exists_eq_right]

def joined (ids : List String) : Bytes := ids.flatMap fun id => 0 :: utf8 id

theorem joined_append (ids ids' : List String) : joined (ids ++ ids') = joined ids ++ joined ids' :=
  List.flatMap_append

theorem count_joined (ids : List String) :
    (joined ids).count 0 = ids.length + (ids.map fun id => (utf8 id).count 0).sum := by
  induction ids with
  | nil => rfl
  | cons id ids ih =>
    change (0 :: (utf8 id ++ joined ids)).count 0 = _
    rw [List.count_cons_self, List.count_append, ih, List.length_cons, List.map_cons, List.sum_cons]
    omega

theorem nulFree_iff_count (id : String) : NulFree id ↔ (utf8 id).count 0 = 0 := by
  rw [List.count_eq_zero, zero_mem_utf8]
  rfl

theorem forall_nulFree_iff (ids : List String) :
    (∀ id ∈ ids, NulFree id) ↔ (joined ids).count 0 = ids.length := by
  rw [count_joined]
  simp only [nulFree_iff_count, Nat.add_eq_left, List.sum_eq_zero_iff, List.forall_mem_map]

theorem takeWhile_joined {id : String} (hfree : NulFree id) (ids : List String) :
    (utf8 id ++ joined ids).takeWhile (· ≠ 0) = utf8 id := by
  have hid : ∀ b ∈ utf8 id, decide (b ≠ 0) = true := by
    intro b hb
    apply decide_eq_true
    rintro rfl
    exact hfree ((zero_mem_utf8 id).mp hb)
  rw [List.takeWhile_append_of_pos hid]
  cases ids with
  | nil => exact List.append_nil _
  | cons next ids => exact List.append_nil _

theorem joined_injOn {ids ids' : List String} (hfree : ∀ id ∈ ids, NulFree id)
    (hfree' : ∀ id ∈ ids', NulFree id) (h : joined ids = joined ids') : ids = ids' := by
  induction ids generalizing ids' with
  | nil =>
    cases ids' with
    | nil => rfl
    | cons id' ids' => cases h
  | cons id ids ih =>
    cases ids' with
    | nil => cases h
    | cons id' ids' =>
      rw [List.forall_mem_cons] at hfree hfree'
      have htail : utf8 id ++ joined ids = utf8 id' ++ joined ids' := List.cons.inj h |>.2
      have hid : utf8 id = utf8 id' := by
        rw [← takeWhile_joined hfree.1 ids, htail, takeWhile_joined hfree'.1]
      rw [hid] at htail
      rw [utf8_injective hid, ih hfree.2 hfree'.2 (List.append_cancel_left htail)]

theorem joined_inj {ids ids' : List String} (hfree : ∀ id ∈ ids, NulFree id)
    (hlength : ids.length = ids'.length) (h : joined ids = joined ids') : ids = ids' := by
  apply joined_injOn hfree ?_ h
  rw [forall_nulFree_iff, ← h, ← hlength]
  exact (forall_nulFree_iff ids).mp hfree

theorem joined_shift (before after : List String) (a b c : String) :
    joined (before ++ [a ++ "\x00" ++ b, c] ++ after) =
      joined (before ++ [a, b ++ "\x00" ++ c] ++ after) := by
  have hnul : utf8 "\x00" = [0] := by decide
  simp only [joined_append]
  simp [joined, utf8_append, hnul]

theorem exists_split {id : String} (h : ¬ NulFree id) : ∃ a b, id = a ++ "\x00" ++ b := by
  obtain ⟨a, b, hid⟩ := List.append_of_mem (not_not.mp h)
  refine ⟨String.ofList a, String.ofList b, ?_⟩
  apply String.toList_inj.mp
  simp [hid]

theorem messageAad_eq (sender recipient : String) :
    messageAad sender recipient = context ++ joined [sender, recipient] := by
  simp [messageAad, joined]

theorem messageV4Aad_eq (sender recipient : String) :
    messageV4Aad sender recipient = messageV4Context ++ joined [sender, recipient] := by
  simp [messageV4Aad, joined]

theorem mediaAad_eq (sender recipient fileId : String) :
    mediaAad sender recipient fileId = mediaContext ++ joined [sender, recipient, fileId] := by
  simp [mediaAad, joined]

theorem saltInput_eq (left right : String) :
    saltInput left right = context ++ joined [(orderedIds left right).1,
      (orderedIds left right).2] := by
  simp [saltInput, joined]

theorem orderedIds_cases (left right : String) :
    orderedIds left right = (left, right) ∨ orderedIds left right = (right, left) := by
  unfold orderedIds
  split_ifs
  · exact .inl rfl
  · exact .inr rfl

theorem sym2_orderedIds (left right : String) :
    s((orderedIds left right).1, (orderedIds left right).2) = s(left, right) := by
  obtain h | h := orderedIds_cases left right
  · rw [h]
  · rw [h]
    exact Sym2.eq_swap

variable {sender recipient : String}

theorem pair_of_joined {before : Bytes} {sender' recipient' : String} (hsender : NulFree sender)
    (hrecipient : NulFree recipient)
    (h : before ++ joined [sender, recipient] = before ++ joined [sender', recipient']) :
    (sender, recipient) = (sender', recipient') := by
  have hids : [sender, recipient] = [sender', recipient'] :=
    joined_inj (by simp [hsender, hrecipient]) rfl (List.append_cancel_left h)
  injection hids with hs hids
  injection hids with hr
  rw [hs, hr]

theorem salt_determines (hsender : NulFree sender) (hrecipient : NulFree recipient)
    {left right : String} (h : saltInput sender recipient = saltInput left right) :
    s(sender, recipient) = s(left, right) := by
  rw [saltInput_eq, saltInput_eq] at h
  have hpair : orderedIds sender recipient = orderedIds left right := by
    obtain ho | ho := orderedIds_cases sender recipient
    · rw [ho] at h ⊢
      exact pair_of_joined hsender hrecipient h
    · rw [ho] at h ⊢
      exact pair_of_joined hrecipient hsender h
  rw [← sym2_orderedIds sender, hpair, sym2_orderedIds]

theorem media_determines {fileId sender' recipient' fileId' : String} (hsender : NulFree sender)
    (hrecipient : NulFree recipient) (hfile : NulFree fileId)
    (h : mediaAad sender recipient fileId = mediaAad sender' recipient' fileId') :
    (sender, recipient, fileId) = (sender', recipient', fileId') := by
  rw [mediaAad_eq, mediaAad_eq] at h
  have hids : [sender, recipient, fileId] = [sender', recipient', fileId'] :=
    joined_inj (by simp [hsender, hrecipient, hfile]) rfl (List.append_cancel_left h)
  injection hids with hs hids
  injection hids with hr hids
  injection hids with hf
  rw [hs, hr, hf]

theorem media_ambiguous {fileId : String}
    (h : ¬ (NulFree sender ∧ NulFree recipient ∧ NulFree fileId)) :
    ∃ sender' recipient' fileId', mediaAad sender recipient fileId = mediaAad sender' recipient'
      fileId' ∧ (sender, recipient, fileId) ≠ (sender', recipient', fileId') := by
  have longer : ∀ a b : String, a ++ "\x00" ++ b ≠ a ∧ a ++ "\x00" ++ b ≠ b := by
    intro a b
    constructor <;> intro heq <;> replace heq := congrArg String.length heq <;>
      simp only [String.length_append, show "\x00".length = 1 from rfl] at heq <;> omega
  simp only [mediaAad_eq]
  by_cases hsender : NulFree sender
  · by_cases hrecipient : NulFree recipient
    · have hfile : ¬ NulFree fileId := fun hfile => h ⟨hsender, hrecipient, hfile⟩
      obtain ⟨a, b, rfl⟩ := exists_split hfile
      refine ⟨sender, recipient ++ "\x00" ++ a, b, ?_, ?_⟩
      · exact congrArg _ (joined_shift [sender] [] recipient a b).symm
      · simp [(longer a b).2]
    · obtain ⟨a, b, rfl⟩ := exists_split hrecipient
      refine ⟨sender, a, b ++ "\x00" ++ fileId, ?_, ?_⟩
      · exact congrArg _ (joined_shift [sender] [] a b fileId)
      · simp [(longer a b).1]
  · obtain ⟨a, b, rfl⟩ := exists_split hsender
    refine ⟨a, b ++ "\x00" ++ recipient, fileId, ?_, ?_⟩
    · exact congrArg _ (joined_shift [] [fileId] a b recipient)
    · simp [(longer a b).1]

theorem append_joined_ne {before before' : Bytes} (h : 20 ≤ before.length)
    (h' : 20 ≤ before'.length) (hne : before.take 20 ≠ before'.take 20) (ids ids' : List String) :
    before ++ joined ids ≠ before' ++ joined ids' := by
  intro heq
  apply hne
  rw [← List.take_append_of_le_length h, heq, List.take_append_of_le_length h']

theorem families_disjoint (sender recipient sender' recipient' sender'' recipient'' fileId : String) :
    messageAad sender recipient ≠ messageV4Aad sender' recipient' ∧
      messageAad sender recipient ≠ mediaAad sender'' recipient'' fileId ∧
      messageV4Aad sender' recipient' ≠ mediaAad sender'' recipient'' fileId := by
  rw [messageAad_eq, messageV4Aad_eq, mediaAad_eq]
  refine ⟨?_, ?_, ?_⟩
  · exact append_joined_ne (by decide) (by decide) (by decide) _ _
  · exact append_joined_ne (by decide) (by decide) (by decide) _ _
  · exact append_joined_ne (by decide) (by decide) (by decide) _ _

/-- The contexts bind the participants and the file exactly when no id has a NUL. -/
theorem contexts_bind_iff (sender recipient fileId : String) :
    ((∀ sender' recipient', messageV4Aad sender recipient = messageV4Aad sender' recipient' →
        (sender, recipient) = (sender', recipient')) ∧
      (∀ sender' recipient', messageAad sender recipient = messageAad sender' recipient' →
        (sender, recipient) = (sender', recipient')) ∧
      (∀ sender' recipient' fileId',
        mediaAad sender recipient fileId = mediaAad sender' recipient' fileId' →
        (sender, recipient, fileId) = (sender', recipient', fileId')) ∧
      (∀ sender' recipient' sender'' recipient'' fileId'',
        messageAad sender recipient ≠ messageV4Aad sender' recipient' ∧
        messageAad sender recipient ≠ mediaAad sender'' recipient'' fileId'' ∧
        messageV4Aad sender' recipient' ≠ mediaAad sender'' recipient'' fileId'') ∧
      ∀ left right, saltInput sender recipient = saltInput left right →
        s(sender, recipient) = s(left, right)) ↔
    NulFree sender ∧ NulFree recipient ∧ NulFree fileId := by
  constructor
  · rintro ⟨-, -, hmedia, -, -⟩
    by_contra h
    obtain ⟨sender', recipient', fileId', heq, hne⟩ := media_ambiguous h
    exact hne (hmedia sender' recipient' fileId' heq)
  · rintro ⟨hsender, hrecipient, hfile⟩
    refine ⟨?_, ?_, ?_, ?_, ?_⟩
    · intro sender' recipient' h
      rw [messageV4Aad_eq, messageV4Aad_eq] at h
      exact pair_of_joined hsender hrecipient h
    · intro sender' recipient' h
      rw [messageAad_eq, messageAad_eq] at h
      exact pair_of_joined hsender hrecipient h
    · intro sender' recipient' fileId' h
      exact media_determines hsender hrecipient hfile h
    · exact families_disjoint sender recipient
    · intro left right h
      exact salt_determines hsender hrecipient h

/-- A NUL moves the border between two ids in every one of the joins. -/
theorem contexts_ambiguous :
    messageV4Aad "a\x00b" "c" = messageV4Aad "a" "b\x00c" ∧
      messageAad "a\x00b" "c" = messageAad "a" "b\x00c" ∧
      mediaAad "a" "b\x00c" "d" = mediaAad "a" "b" "c\x00d" ∧
      saltInput "a\x00b" "c" = saltInput "a" "b\x00c" ∧ s("a\x00b", "c") ≠ s("a", "b\x00c") := by
  decide

end Mst5Client.ContextBinding
