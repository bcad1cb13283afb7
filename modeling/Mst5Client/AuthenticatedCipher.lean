import Mst5Client.ByteOrder

set_option autoImplicit false

/-!
# Authenticated encryption as a parameter

Its interface is a pair of partial functions of key, nonce, associated data and message.
-/
namespace Mst5Client.AuthenticatedCipher
open ByteOrder

structure Aead (K : Type) where
  encrypt : K → Bytes → Bytes → Bytes → Option Bytes
  decrypt : K → Bytes → Bytes → Bytes → Option Bytes

def tagLen : ℕ := 16

/-- The block counter has 32 bits, so a message is shorter than this. -/
def messageLimit : ℕ := 64 * (2 ^ 32 - 1)

/-- Every message that is short enough is encrypted, and decryption gives it back. -/
structure Correct {K : Type} (A : Aead K) : Prop where
  encrypts : ∀ k n a m, m.length < messageLimit → ∃ c, A.encrypt k n a m = some c
  length : ∀ k n a m c, A.encrypt k n a m = some c → c.length = m.length + tagLen
  decrypts : ∀ k n a m c, A.encrypt k n a m = some c → A.decrypt k n a c = some m

structure Entry (K : Type) where
  key : K
  nonce : Bytes
  aad : Bytes
  message : Bytes
  ciphertext : Bytes
deriving DecidableEq

/-- Decryption accepts nothing but the ciphertexts in the log. -/
def Ideal {K : Type} (log : List (Entry K)) (decrypt : K → Bytes → Bytes → Bytes → Option Bytes) :
    Prop :=
  ∀ k n a m c, decrypt k n a c = some m → (⟨k, n, a, m, c⟩ : Entry K) ∈ log

/-- Under this key decryption accepts nothing but the ciphertexts in the log. -/
def IdealAt {K : Type} (key : K) (log : List (Entry K))
    (decrypt : K → Bytes → Bytes → Bytes → Option Bytes) : Prop :=
  ∀ n a m c, decrypt key n a c = some m → (⟨key, n, a, m, c⟩ : Entry K) ∈ log

def lookup {K : Type} [DecidableEq K] (log : List (Entry K)) (k : K) (n a c : Bytes) :
    Option Bytes :=
  (log.find? fun e => e.key = k ∧ e.nonce = n ∧ e.aad = a ∧ e.ciphertext = c).map Entry.message

theorem lookup_ideal {K : Type} [DecidableEq K] (log : List (Entry K)) :
    Ideal log (lookup log) := by
  intro k n a m c h
  obtain ⟨e, hfind, rfl⟩ := Option.map_eq_some_iff.mp h
  have hmem := List.mem_of_find?_eq_some hfind
  have heq := List.find?_some hfind
  simp only [decide_eq_true_eq] at heq
  obtain ⟨rfl, rfl, rfl, rfl⟩ := heq
  exact hmem

structure Query (K : Type) where
  key : K
  nonce : Bytes
  aad : Bytes
  message : Bytes
deriving DecidableEq

/-- The cipher with other answers to encryptions. -/
def Aead.answering {K : Type} (A : Aead K) (E : Query K → Option Bytes) : Aead K :=
  { A with encrypt := fun k n a m => E ⟨k, n, a, m⟩ }

variable {K R β : Type} {f : (Query K → R) → β} {q q' : Query K}

/-- `f` calls its cipher on `q`: two ciphers that answer every other query alike make a difference. -/
def Asks (f : (Query K → R) → β) (q : Query K) : Prop :=
  ∃ E E' : Query K → R, (∀ p, p ≠ q → E p = E' p) ∧ f E ≠ f E'

theorem not_asks {b : β} (hf : ∀ E, f E = b) : ¬ Asks f q := by
  rintro ⟨E, E', -, hne⟩
  exact hne ((hf E).trans (hf E').symm)

theorem asks_iff {g : R → β} (hf : ∀ E, f E = g (E q)) {r t : R} (hg : g r ≠ g t) :
    Asks f q' ↔ q' = q := by
  constructor
  · rintro ⟨E, E', hsame, hne⟩
    by_contra hq
    exact hne (by rw [hf, hf, hsame q (Ne.symm hq)])
  · rintro rfl
    classical
    refine ⟨fun _ => r, Function.update (fun _ => r) q' t, ?_, ?_⟩
    · intro p hp
      rw [Function.update_of_ne hp]
    · rw [hf, hf, Function.update_self]
      exact hg

variable (keyBytes : K → Bytes)

def checksum (k : K) (n a m : Bytes) : Bytes :=
  beBytes tagLen ((keyBytes k ++ n ++ a ++ m).foldl (fun h b => h * 257 + b.toNat + 1) 7)

/-- A cipher without secrecy whose tag covers key, nonce, associated data and message.
It instantiates the hypotheses on concrete inputs. -/
def checksumAead : Aead K where
  encrypt k n a m := if m.length < messageLimit then some (m ++ checksum keyBytes k n a m) else none
  decrypt k n a c :=
    let m := c.take (c.length - tagLen)
    if c = m ++ checksum keyBytes k n a m then some m else none

theorem checksum_length (k : K) (n a m : Bytes) : (checksum keyBytes k n a m).length = tagLen :=
  beBytes_length _ _

theorem checksumAead_encrypt {k : K} {n a m c : Bytes}
    (h : (checksumAead keyBytes).encrypt k n a m = some c) :
    c = m ++ checksum keyBytes k n a m := by
  simp only [checksumAead, Option.ite_none_right_eq_some, Option.some.injEq] at h
  exact h.2.symm

theorem checksumAead_correct : Correct (checksumAead keyBytes) where
  encrypts := by
    intro k n a m h
    exact ⟨m ++ checksum keyBytes k n a m, by simp [checksumAead, h]⟩
  length := by
    intro k n a m c h
    rw [checksumAead_encrypt keyBytes h, List.length_append, checksum_length]
  decrypts := by
    intro k n a m c h
    rw [checksumAead_encrypt keyBytes h]
    simp [checksumAead, checksum_length]

end Mst5Client.AuthenticatedCipher
