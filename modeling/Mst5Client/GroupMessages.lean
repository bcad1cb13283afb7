import Mst5Client.Base64Text
import Mst5Client.JsonValues
import Mst5Client.MessageRoundTrip

set_option autoImplicit false

/-!
# Group messages

`seal_group` and `open_group` of `src/e2e.rs`, and `open_group_message` of `src/messenger.rs`, which
opens one entry of the JSON form.
-/
namespace Mst5Client.GroupMessages
open ByteOrder AuthenticatedCipher IoResult IdentityMessages MessageRoundTrip JsonValues Base64Text

section Groups

/-- The recipients are a map; it is kept in the order of its keys. -/
structure GroupEnvelope where
  version : UInt8
  recipients : List (String × Envelope)
  ascending : Ascending recipients

def GroupEnvelope.insert (group : GroupEnvelope) (id : String) (envelope : Envelope) :
    GroupEnvelope :=
  ⟨group.version, insertMember id envelope group.recipients, group.ascending.insertMember id envelope⟩

variable {C : E2eCrypto} (self : Identity C) (bits : ℕ)

def sealEach (fromId : String) (plaintext : Bytes) :
    List (String × Block 32) → (ℕ → Except String (Block 24)) → GroupEnvelope →
      Except IoError GroupEnvelope
  | [], _, group => .ok group
  | (id, publicKey) :: recipients, random, group =>
    if id = "" ∨ 64 < id.utf8ByteSize then .error (invalidData "invalid group E2E recipient")
    else do
      let envelope ← self.seal bits (random 0) publicKey fromId id plaintext
      sealEach fromId plaintext recipients (fun n => random (n + 1)) (group.insert id envelope)

def sealGroup (random : ℕ → Except String (Block 24)) (recipients : List (String × Block 32))
    (fromId : String) (plaintext : Bytes) : Except IoError GroupEnvelope :=
  if recipients = [] ∨ 256 < recipients.length then
    .error (invalidData "group E2E recipients must be 1..256")
  else sealEach self bits fromId plaintext recipients random ⟨5, [], .nil⟩

def openGroup (senderPublic : Block 32) (senderId recipientId : String) (group : GroupEnvelope) :
    Except IoError Bytes :=
  if group.version ≠ 5 then .error (invalidData "unsupported group E2E envelope")
  else
    match group.recipients.lookup recipientId with
    | none => .error (invalidData "group E2E recipient is not present")
    | some envelope => self.openEnvelope bits senderPublic senderId recipientId envelope

def invalidGroup : IoError := invalidData "invalid group E2E envelope"

def maxGroupText : ℕ := 16 * 1024 * 1024

def orInvalid {α : Type} : Option α → Except IoError α
  | none => .error invalidGroup
  | some a => .ok a

def entryTag (entry : Json) : Except IoError Bytes :=
  match ((entry.get "tag").bind Json.asStr).filter fun tag => tag ≠ "" with
  | none => .ok []
  | some tag => do
    let tag ← decodeBase64 tag
    if tag.length ≠ 16 then .error invalidGroup else .ok tag

def decodeEntry (entry : Json) : Except IoError Envelope := do
  let version ← orInvalid ((entry.get "version").bind Json.asU64)
  if version ≠ 3 ∧ version ≠ 4 then .error invalidGroup
  else
    let nonceText ← orInvalid ((entry.get "nonce").bind Json.asStr)
    let nonce ← decodeBase64 nonceText
    if nonce.length ≠ 24 then .error invalidGroup
    else
      let ciphertextText ← orInvalid ((entry.get "ciphertext").bind Json.asStr)
      let ciphertext ← decodeBase64 ciphertextText
      let tag ← entryTag entry
      return ⟨version.toUInt8, blockOf 24 nonce, ciphertext ++ tag⟩

def openGroupMessage (fromStr : String → Option JsonValue) (senderKey : Block 32)
    (sender recipient raw : String) : Except IoError Bytes :=
  if maxGroupText < raw.utf8ByteSize ∨ recipient = "" ∨ 64 < recipient.utf8ByteSize then
    .error invalidGroup
  else do
    let value ← orInvalid (fromStr raw)
    if (value.tree.get "version").bind Json.asU64 ≠ some 5 then .error invalidGroup
    else
      let recipients ← orInvalid ((value.tree.get "recipients").bind Json.asObject)
      if recipients = [] ∨ 256 < recipients.length then .error invalidGroup
      else
        match recipients.lookup recipient with
        | none => .error ⟨.permissionDenied, "group E2E recipient is unavailable"⟩
        | some entry =>
          let envelope ← decodeEntry entry
          openGroup self bits senderKey sender recipient ⟨5, [(recipient, envelope)],
            List.pairwise_singleton _ _⟩

end Groups

/-- The 16 bytes of the tag stand behind the ciphertext, with or without an empty `tag`, or in a
`tag` of their own. -/
inductive TagLayout where
  | attached
  | attachedEmpty
  | separate

structure Layout where
  pad : Bool
  tag : TagLayout

def entryMembers (layout : Layout) (envelope : Envelope) : List (String × Json) :=
  let nonce := ("nonce", Json.string (encodeBase64 layout.pad envelope.nonce.toList))
  let version := ("version", Json.number (.posInt envelope.version.toUInt64))
  let split := envelope.ciphertext.length - 16
  match layout.tag with
  | .attached => [("ciphertext", .string (encodeBase64 layout.pad envelope.ciphertext)), nonce,
    version]
  | .attachedEmpty =>
    [("ciphertext", .string (encodeBase64 layout.pad envelope.ciphertext)), nonce,
      ("tag", .string ""), version]
  | .separate =>
    [("ciphertext", .string (encodeBase64 layout.pad (envelope.ciphertext.take split))), nonce,
      ("tag", .string (encodeBase64 layout.pad (envelope.ciphertext.drop split))), version]

def entryJson (layout : Layout) (envelope : Envelope) : Json :=
  .object (entryMembers layout envelope)

def groupTree (layout : String → Layout) (group : GroupEnvelope) : Json :=
  .object [("recipients", .object (group.recipients.map
    fun entry => (entry.1, entryJson (layout entry.1) entry.2))),
    ("version", .number (.posInt group.version.toUInt64))]

theorem maps_entryJson (layout : Layout) (envelope : Envelope) :
    Maps (entryJson layout envelope) := by
  have hnonce : KeyLt "ciphertext" "nonce" := by decide +kernel
  have htag : KeyLt "nonce" "tag" := by decide +kernel
  have hversion : KeyLt "tag" "version" := by decide +kernel
  obtain ⟨pad, tag⟩ := layout
  cases tag <;> simp [entryJson, entryMembers, Maps, MembersMaps, Ascending, hnonce, htag, hversion,
    hnonce.trans htag, htag.trans hversion, hnonce.trans (htag.trans hversion)]

theorem maps_groupTree (layout : String → Layout) (group : GroupEnvelope) :
    Maps (groupTree layout group) := by
  have hversion : KeyLt "recipients" "version" := by decide +kernel
  have hentries : Ascending (group.recipients.map
    fun entry => (entry.1, entryJson (layout entry.1) entry.2)) :=
    List.pairwise_map.mpr group.ascending
  have hmaps : ∀ entries : List (String × Envelope),
      MembersMaps (entries.map fun entry => (entry.1, entryJson (layout entry.1) entry.2)) := by
    intro entries
    induction entries with
    | nil => trivial
    | cons entry entries ih => exact ⟨maps_entryJson (layout entry.1) entry.2, ih⟩
  refine ⟨?_, ⟨hentries, hmaps group.recipients⟩, trivial, trivial⟩
  exact List.pairwise_pair.mpr hversion

def groupJson (layout : String → Layout) (group : GroupEnvelope) : JsonValue :=
  ⟨groupTree layout group, maps_groupTree layout group⟩

variable {entry : Json}

theorem decodeBase64_block {n : ℕ} (pad : Bool) (block : Block (n + 1)) :
    decodeBase64 (encodeBase64 pad block.toList) = .ok block.toList := by
  apply decode_encodeBase64
  intro h
  have hlen := block_length block
  rw [h] at hlen
  cases hlen

theorem orInvalid_some {α : Type} {value : Option α} {a : α} (h : value = some a) :
    orInvalid value = .ok a := by
  rw [h]
  rfl

theorem decodeEntry_eq {version : UInt64} {nonceText ciphertextText : String} {nonce : Block 24}
    {ciphertext tag : Bytes} (hversion : (entry.get "version").bind Json.asU64 = some version)
    (hfour : version = 4) (hnonceText : (entry.get "nonce").bind Json.asStr = some nonceText)
    (hnonce : decodeBase64 nonceText = .ok nonce.toList)
    (hciphertextText : (entry.get "ciphertext").bind Json.asStr = some ciphertextText)
    (hciphertext : decodeBase64 ciphertextText = .ok ciphertext) (htag : entryTag entry = .ok tag) :
    decodeEntry entry = .ok ⟨envelopeVersion, nonce, ciphertext ++ tag⟩ := by
  subst hfour
  have hsupported : ¬ ((4 : UInt64) ≠ 3 ∧ (4 : UInt64) ≠ 4) := by decide
  have hlength : ¬ nonce.toList.length ≠ 24 := not_not.mpr (block_length nonce)
  rw [decodeEntry, bind_of_ok (orInvalid_some hversion), if_neg hsupported,
    bind_of_ok (orInvalid_some hnonceText), bind_of_ok hnonce, if_neg hlength,
    bind_of_ok (orInvalid_some hciphertextText), bind_of_ok hciphertext,
    bind_of_ok htag, blockOf_toList]
  rfl

theorem entryTag_none (h : entry.get "tag" = none) : entryTag entry = .ok [] := by
  rw [entryTag, h]
  rfl

theorem entryTag_empty (h : entry.get "tag" = some (.string "")) : entryTag entry = .ok [] := by
  rw [entryTag, h]
  rfl

theorem entryTag_separate {text : String} {tag : Bytes} (h : entry.get "tag" = some (.string text))
    (htag : decodeBase64 text = .ok tag) (hlen : tag.length = 16) : entryTag entry = .ok tag := by
  have htext : text ≠ "" := by
    rintro rfl
    cases htag
  have hfilter : ((entry.get "tag").bind Json.asStr).filter (fun tag => tag ≠ "") = some text := by
    rw [h]
    exact Option.filter_some_pos (decide_eq_true htext)
  rw [entryTag, hfilter]
  change (decodeBase64 text >>= _) = _
  rw [bind_of_ok htag, if_neg (not_not.mpr hlen)]

theorem decodeEntry_entryJson (layout : Layout) {envelope : Envelope}
    (hversion : envelope.version = envelopeVersion) (hlong : 16 < envelope.ciphertext.length) :
    decodeEntry (entryJson layout envelope) = .ok envelope := by
  obtain ⟨version, nonce, ciphertext⟩ := envelope
  obtain ⟨pad, tag⟩ := layout
  subst hversion
  have hnonce := decodeBase64_block pad nonce
  have hciphertext : decodeBase64 (encodeBase64 pad ciphertext) = .ok ciphertext :=
    decode_encodeBase64 pad (List.length_pos_iff.mp (Nat.lt_trans (by decide) hlong))
  cases tag with
  | attached =>
    have htag : entryTag (entryJson ⟨pad, .attached⟩ ⟨envelopeVersion, nonce, ciphertext⟩) =
      .ok [] := entryTag_none rfl
    rw [decodeEntry_eq rfl rfl rfl hnonce rfl hciphertext htag, List.append_nil]
  | attachedEmpty =>
    have htag : entryTag (entryJson ⟨pad, .attachedEmpty⟩ ⟨envelopeVersion, nonce, ciphertext⟩) =
      .ok [] :=
      entryTag_empty rfl
    rw [decodeEntry_eq rfl rfl rfl hnonce rfl hciphertext htag, List.append_nil]
  | separate =>
    have hdrop : (ciphertext.drop (ciphertext.length - 16)).length = 16 := by
      rw [List.length_drop]
      exact Nat.sub_sub_self hlong.le
    have htake : (ciphertext.take (ciphertext.length - 16)).length = ciphertext.length - 16 :=
      List.length_take_of_le (Nat.sub_le _ _)
    have hbody : ciphertext.take (ciphertext.length - 16) ≠ [] := by
      apply List.length_pos_iff.mp
      rw [htake]
      exact Nat.sub_pos_of_lt hlong
    have hlast : ciphertext.drop (ciphertext.length - 16) ≠ [] := by
      apply List.length_pos_iff.mp
      rw [hdrop]
      decide
    have htag := entryTag_separate
      (show (entryJson ⟨pad, .separate⟩ ⟨envelopeVersion, nonce, ciphertext⟩).get "tag" = _ from rfl)
      (decode_encodeBase64 pad hlast) hdrop
    rw [decodeEntry_eq rfl rfl rfl hnonce rfl (decode_encodeBase64 pad hbody) htag,
      List.take_append_drop]

variable {C : E2eCrypto} {bits : ℕ} {sender recipient : Identity C} {plaintext compressed : Bytes}

/-- An envelope of a group message that its recipient opens. -/
structure Readable (bits : ℕ) (sender recipient : Identity C) (fromId id : String)
    (plaintext : Bytes) (envelope : Envelope) : Prop where
  opens : recipient.openEnvelope bits sender.publicKey fromId id envelope = .ok plaintext
  version : envelope.version = envelopeVersion
  long : 16 < envelope.ciphertext.length

theorem seal_readable (hA : Correct C.aead) (hC : Lossless C) (hbits : 32 ≤ bits)
    (hlen : plaintext.length ≤ maxMessageBytes)
    (hcompressed : C.compress plaintext = .ok compressed) (hagree : Agree sender recipient)
    (fromId id : String) (nonce : Block 24) :
    ∃ envelope, sender.seal bits (.ok nonce) recipient.publicKey fromId id plaintext = .ok envelope ∧
      Readable bits sender recipient fromId id plaintext envelope := by
  obtain ⟨key, hsender, hrecipient⟩ := sessionKey_agree hagree fromId id (utf8 "message-v4-key")
  obtain ⟨encoded, ciphertext, hencoded, hc, hseal⟩ := seal_ok hA hbits hlen hcompressed hsender nonce
  have hheader : 9 ≤ encoded.length := encode_length hencoded
  have htag : ciphertext.length = encoded.length + 16 := hA.length _ _ _ _ _ hc
  exact ⟨_, hseal, open_sealed hA hC hrecipient hencoded hc, rfl, show 16 < ciphertext.length by omega⟩

structure Added (bits : ℕ) (sender : Identity C) (fromId : String) (plaintext : Bytes)
    (members : List (String × Identity C)) (group out : GroupEnvelope) : Prop where
  version : out.version = group.version
  keys : (out.recipients.map Prod.fst).Perm (members.map Prod.fst ++ group.recipients.map Prod.fst)
  readable : ∀ m ∈ members, ∃ envelope, out.recipients.lookup m.1 = some envelope ∧
    Readable bits sender m.2 fromId m.1 plaintext envelope
  kept : ∀ id ∉ members.map Prod.fst, out.recipients.lookup id = group.recipients.lookup id

theorem sealEach_added (hA : Correct C.aead) (hC : Lossless C) (hbits : 32 ≤ bits)
    (hlen : plaintext.length ≤ maxMessageBytes)
    (hcompressed : C.compress plaintext = .ok compressed) (fromId : String)
    {members : List (String × Identity C)} (hids : ∀ m ∈ members, m.1 ≠ "" ∧ m.1.utf8ByteSize ≤ 64)
    (hagree : ∀ m ∈ members, Agree sender m.2) (hdistinct : (members.map Prod.fst).Nodup)
    (nonces : ℕ → Block 24) {group : GroupEnvelope}
    (hnew : ∀ m ∈ members, m.1 ∉ group.recipients.map Prod.fst) :
    ∃ out, sealEach sender bits fromId plaintext (members.map fun m => (m.1, m.2.publicKey))
        (fun n => .ok (nonces n)) group = .ok out ∧
          Added bits sender fromId plaintext members group out := by
  induction members generalizing nonces group with
  | nil => exact ⟨group, rfl, rfl, .refl _, fun m hm => absurd hm List.not_mem_nil, fun _ _ => rfl⟩
  | cons m members ih =>
    obtain ⟨hm, hids⟩ := List.forall_mem_cons.mp hids
    obtain ⟨hfirst, hagree⟩ := List.forall_mem_cons.mp hagree
    obtain ⟨hother, hdistinct⟩ := List.nodup_cons.mp hdistinct
    obtain ⟨hfresh, hnew⟩ := List.forall_mem_cons.mp hnew
    obtain ⟨envelope, hseal, hreadable⟩ :=
      seal_readable hA hC hbits hlen hcompressed hfirst fromId m.1 (nonces 0)
    have hkeys := keys_insertMember envelope hfresh
    have hnew' : ∀ n ∈ members, n.1 ∉ (group.insert m.1 envelope).recipients.map Prod.fst := by
      intro n hn hmem
      obtain heq | hmem := List.mem_cons.mp (hkeys.mem_iff.mp hmem)
      · exact hother (heq ▸ List.mem_map_of_mem hn)
      · exact hnew n hn hmem
    obtain ⟨out, hrun, hadded⟩ := ih hids hagree hdistinct (fun n => nonces (n + 1)) hnew'
    have hvalid : ¬ (m.1 = "" ∨ 64 < m.1.utf8ByteSize) := by
      rw [not_or]
      exact ⟨hm.1, hm.2.not_gt⟩
    refine ⟨out, ?_, hadded.version, ?_, ?_, ?_⟩
    · rw [List.map_cons, sealEach, if_neg hvalid, bind_of_ok hseal]
      exact hrun
    · exact (hadded.keys.trans (hkeys.append_left _)).trans List.perm_middle
    · refine List.forall_mem_cons.mpr ⟨⟨envelope, ?_, hreadable⟩, hadded.readable⟩
      rw [hadded.kept m.1 hother]
      exact (lookup_insertMember m.1 envelope group.recipients m.1).trans (if_pos rfl)
    · intro id hid
      rw [List.map_cons, List.mem_cons, not_or] at hid
      rw [hadded.kept id hid.2]
      exact (lookup_insertMember m.1 envelope group.recipients id).trans (if_neg hid.1)

variable {group : GroupEnvelope} {id : String}

theorem lookup_entries (layout : String → Layout) (entries : List (String × Envelope)) (id : String) :
    (entries.map fun entry => (entry.1, entryJson (layout entry.1) entry.2)).lookup id =
      (entries.lookup id).map (entryJson (layout id)) := by
  induction entries with
  | nil => rfl
  | cons entry entries ih =>
    rw [List.map_cons, lookup_cons_ite, lookup_cons_ite]
    by_cases hid : id = entry.1
    · rw [if_pos hid, if_pos hid, hid]
      rfl
    · rw [if_neg hid, if_neg hid]
      exact ih

theorem openGroup_absent (reader : Identity C) (senderKey : Block 32) (senderId : String)
    (h : group.recipients.lookup id = none) :
    ∃ e, openGroup reader bits senderKey senderId id group = .error e := by
  rw [openGroup, h]
  split_ifs
  · exact ⟨_, rfl⟩
  · exact ⟨_, rfl⟩

theorem openGroup_readable {sender recipient : Identity C} {fromId : String} {plaintext : Bytes}
    {envelope : Envelope} (hversion : group.version = 5)
    (h : group.recipients.lookup id = some envelope)
    (hreadable : Readable bits sender recipient fromId id plaintext envelope) :
    openGroup recipient bits sender.publicKey fromId id group = .ok plaintext := by
  rw [openGroup, if_neg (not_not.mpr hversion), h]
  exact hreadable.opens

section
variable {fromStr : String → Option JsonValue} {raw : String} {layout : String → Layout}

theorem groupJson_recipients (layout : String → Layout) (group : GroupEnvelope) :
    ((groupJson layout group).tree.get "recipients").bind Json.asObject =
      some (group.recipients.map fun entry => (entry.1, entryJson (layout entry.1) entry.2)) := rfl

theorem groupJson_version (layout : String → Layout) (h : group.version = 5) :
    ((groupJson layout group).tree.get "version").bind Json.asU64 = some 5 := by
  change some group.version.toUInt64 = some 5
  rw [h]
  rfl

theorem openGroupMessage_absent (reader : Identity C) (senderKey : Block 32) (senderId : String)
    (hraw : fromStr raw = some (groupJson layout group)) (h : group.recipients.lookup id = none) :
    ∃ e, openGroupMessage reader bits fromStr senderKey senderId id raw = .error e := by
  rw [openGroupMessage, bind_of_ok (orInvalid_some hraw),
    bind_of_ok (orInvalid_some (groupJson_recipients layout group)), lookup_entries, h]
  split_ifs
  all_goals exact ⟨_, rfl⟩

theorem openGroupMessage_readable {sender recipient : Identity C} {fromId : String}
    {plaintext : Bytes} {envelope : Envelope} (hraw : fromStr raw = some (groupJson layout group))
    (hsize : raw.utf8ByteSize ≤ maxGroupText) (hversion : group.version = 5)
    (hcount : 1 ≤ group.recipients.length ∧ group.recipients.length ≤ 256)
    (hid : id ≠ "" ∧ id.utf8ByteSize ≤ 64) (h : group.recipients.lookup id = some envelope)
    (hreadable : Readable bits sender recipient fromId id plaintext envelope) :
    openGroupMessage recipient bits fromStr sender.publicKey fromId id raw = .ok plaintext := by
  have hvalid : ¬ (maxGroupText < raw.utf8ByteSize ∨ id = "" ∨ 64 < id.utf8ByteSize) := by
    rw [not_or, not_or]
    exact ⟨hsize.not_gt, hid.1, hid.2.not_gt⟩
  let entries := group.recipients.map fun entry => (entry.1, entryJson (layout entry.1) entry.2)
  have hlength : entries.length = group.recipients.length := List.length_map _
  have hentries : ¬ (entries = [] ∨ 256 < entries.length) := by
    rw [not_or, hlength]
    refine ⟨?_, hcount.2.not_gt⟩
    apply List.length_pos_iff.mp
    rw [hlength]
    exact hcount.1
  have hentry := decodeEntry_entryJson (layout id) hreadable.version hreadable.long
  rw [openGroupMessage, if_neg hvalid, bind_of_ok (orInvalid_some hraw),
    if_neg (not_not.mpr (groupJson_version layout hversion)),
    bind_of_ok (orInvalid_some (groupJson_recipients layout group)), if_neg hentries,
    lookup_entries, h]
  change (decodeEntry (entryJson (layout id) envelope) >>= _) = _
  rw [bind_of_ok hentry]
  exact openGroup_readable rfl ((lookup_cons_ite (id, envelope) [] id).trans (if_pos rfl)) hreadable

end

/-- A group message has one envelope for each listed recipient. Each recipient reads the plaintext
from the message and from every JSON text of it, whichever layout its entry has; every other name is
refused. -/
theorem group_messages_open (hA : Correct C.aead) (hC : Lossless C) (hbits : 32 ≤ bits)
    (sender : Identity C) {members : List (String × Identity C)}
    (hcount : 1 ≤ members.length ∧ members.length ≤ 256) (hdistinct : (members.map Prod.fst).Nodup)
    (hids : ∀ m ∈ members, 1 ≤ m.1.utf8ByteSize ∧ m.1.utf8ByteSize ≤ 64)
    (hagree : ∀ m ∈ members, Agree sender m.2) (fromId : String) {plaintext compressed : Bytes}
    (hlen : plaintext.length ≤ 4 * 1024 * 1024)
    (hcompressed : C.compress plaintext = .ok compressed) (nonces : ℕ → Block 24) :
    ∃ group, sealGroup sender bits (fun n => .ok (nonces n))
        (members.map fun m => (m.1, m.2.publicKey)) fromId plaintext = .ok group ∧
      (group.recipients.map Prod.fst).Perm (members.map Prod.fst) ∧
      (∀ m ∈ members, openGroup m.2 bits sender.publicKey fromId m.1 group = .ok plaintext ∧
        ∀ (fromStr : String → Option JsonValue) raw layout,
          fromStr raw = some (groupJson layout group) → raw.utf8ByteSize ≤ 16 * 1024 * 1024 →
          openGroupMessage m.2 bits fromStr sender.publicKey fromId m.1 raw = .ok plaintext) ∧
      ∀ id, id ∉ members.map Prod.fst → ∀ (reader : Identity C) senderKey senderId,
        (∃ e, openGroup reader bits senderKey senderId id group = .error e) ∧
        ∀ (fromStr : String → Option JsonValue) raw layout,
          fromStr raw = some (groupJson layout group) →
          ∃ e, openGroupMessage reader bits fromStr senderKey senderId id raw = .error e := by
  have hnames : ∀ m ∈ members, m.1 ≠ "" ∧ m.1.utf8ByteSize ≤ 64 := by
    intro m hm
    refine ⟨?_, (hids m hm).2⟩
    intro hempty
    have hsize := (hids m hm).1
    rw [hempty] at hsize
    exact absurd hsize (by decide)
  obtain ⟨group, hrun, hadded⟩ :=
    sealEach_added hA hC hbits hlen hcompressed fromId hnames hagree hdistinct nonces
    (show ∀ m ∈ members, m.1 ∉ (⟨5, [], .nil⟩ : GroupEnvelope).recipients.map Prod.fst from
      fun _ _ => List.not_mem_nil)
  have hkeys : (group.recipients.map Prod.fst).Perm (members.map Prod.fst) := by
    rw [← List.append_nil (members.map Prod.fst)]
    exact hadded.keys
  have hlength : group.recipients.length = members.length := by
    rw [← List.length_map Prod.fst, hkeys.length_eq, List.length_map]
  have hvalid : ¬ ((members.map fun m => (m.1, m.2.publicKey)) = [] ∨
      256 < (members.map fun m => (m.1, m.2.publicKey)).length) := by
    rw [not_or, List.length_map, List.map_eq_nil_iff]
    exact ⟨List.length_pos_iff.mp hcount.1, hcount.2.not_gt⟩
  refine ⟨group, ?_, hkeys, ?_, ?_⟩
  · rw [sealGroup, if_neg hvalid]
    exact hrun
  · intro m hm
    obtain ⟨envelope, hlookup, hreadable⟩ := hadded.readable m hm
    refine ⟨openGroup_readable hadded.version hlookup hreadable, ?_⟩
    intro fromStr raw layout hraw hsize
    exact openGroupMessage_readable hraw hsize hadded.version (hlength.symm ▸ hcount) (hnames m hm)
      hlookup hreadable
  · intro id hid reader senderKey senderId
    have hlookup : group.recipients.lookup id = none := hadded.kept id hid
    exact ⟨openGroup_absent reader senderKey senderId hlookup,
      fun _ _ _ hraw => openGroupMessage_absent reader senderKey senderId hraw hlookup⟩

theorem group_messages_open_sample : ∃ group,
    sealGroup (sampleIdentity 1) 64 (fun _ => .ok (blockOf 24 []))
      [("bob", (sampleIdentity 2).publicKey),
      ("carol", (sampleIdentity 3).publicKey)] "alice" [104, 105] = .ok group ∧
    openGroup (sampleIdentity 3) 64 (sampleIdentity 1).publicKey "alice" "carol" group =
      .ok [104, 105] ∧
    openGroupMessage (sampleIdentity 2) 64
      (fun _ => some (groupJson (fun _ => ⟨false, .separate⟩) group))
      (sampleIdentity 1).publicKey "alice" "bob" "" = .ok [104, 105] := by
  have h := group_messages_open (checksumAead_correct _) sampleCrypto_lossless
    (show 32 ≤ 64 by decide) (sampleIdentity 1) (show _ ∧ _ from ⟨by decide, by decide⟩)
    (show ([("bob", sampleIdentity 2), ("carol", sampleIdentity 3)].map Prod.fst).Nodup by decide)
      (by decide)
    (by
      intro m hm
      rcases List.mem_pair.mp hm with rfl | rfl
      · exact ⟨by decide, by decide⟩
      · exact ⟨by decide, by decide⟩)
    "alice" (show [104, 105].length ≤ 4 * 1024 * 1024 by decide) rfl fun _ => blockOf 24 []
  obtain ⟨group, hseal, -, hopen, -⟩ := h
  refine ⟨group, hseal, (hopen _ (List.mem_cons_of_mem _ List.mem_cons_self)).1, ?_⟩
  exact (hopen _ List.mem_cons_self).2 _ "" (fun _ => ⟨false, .separate⟩) rfl (by decide)

end Mst5Client.GroupMessages
