import Mst5Client.ByteOrder

set_option autoImplicit false

/-!
# Reading values off a byte string

`Consumes` says which bytes a reader consumes and what it makes of them, whatever stands before and
after them; it composes along `bind`.
-/
namespace Mst5Client.ByteReader
open ByteOrder

structure Cursor where
  input : Bytes
  pos : ℕ

variable {ε α β : Type}

abbrev Reader (ε α : Type) := StateT Cursor (Except ε) α

def nextByte (short : ε) : Reader ε UInt8 := do
  let c ← get
  match c.input[c.pos]? with
  | none => throw short
  | some value =>
    set { c with pos := c.pos + 1 }
    return value

def nextBytes (bits : ℕ) (overflow short : ε) (n : ℕ) : Reader ε Bytes := do
  let c ← get
  if 2 ^ bits ≤ c.pos + n then throw overflow
  else if c.input.length < c.pos + n then throw short
  else
    set { c with pos := c.pos + n }
    return (c.input.drop c.pos).take n

def times {M : Type → Type} [Monad M] (m : M α) : ℕ → M (List α)
  | 0 => return []
  | n + 1 => do
    let a ← m
    let as ← times m n
    return a :: as

/-- On inputs shorter than `2 ^ bits` the reader consumes exactly `enc` and returns `a`. -/
def Consumes (bits : ℕ) (m : Reader ε α) (enc : Bytes) (a : α) : Prop :=
  ∀ before after : Bytes, (before ++ enc ++ after).length < 2 ^ bits →
    m.run ⟨before ++ enc ++ after, before.length⟩ =
      .ok (a, ⟨before ++ enc ++ after, (before ++ enc).length⟩)

variable {bits : ℕ} {m : Reader ε α} {enc : Bytes} {a : α}

theorem consumes_pure (a : α) : Consumes bits (pure a : Reader ε α) [] a := by
  intro before after _
  simp only [List.append_nil]
  rfl

theorem Consumes.bind (h : Consumes bits m enc a) {f : α → Reader ε β} {enc' : Bytes} {b : β}
    (hf : Consumes bits (f a) enc' b) : Consumes bits (m >>= f) (enc ++ enc') b := by
  intro before after hlen
  have hfirst := h before (enc' ++ after) (by simpa only [List.append_assoc] using hlen)
  have hsecond := hf (before ++ enc) after (by simpa only [List.append_assoc] using hlen)
  simp only [← List.append_assoc] at hfirst hsecond hlen ⊢
  rw [StateT.run_bind, hfirst]
  exact hsecond

theorem Consumes.finish (h : Consumes bits m enc a) {f : α → Reader ε β} {b : β} (hf : f a = pure b) :
    Consumes bits (m >>= f) enc b := by
  rw [← List.append_nil enc]
  refine h.bind ?_
  rw [hf]
  exact consumes_pure b

theorem Consumes.map (h : Consumes bits m enc a) (f : α → β) :
    Consumes bits (m >>= fun a => pure (f a)) enc (f a) := h.finish rfl

theorem consumes_nextByte (short : ε) (b : UInt8) : Consumes bits (nextByte short) [b] b := by
  intro before after _
  have hget : (before ++ [b] ++ after)[before.length]? = some b := by simp
  simp only [nextByte, StateT.run_bind, StateT.run_get, pure_bind, hget]
  rw [List.length_append]
  rfl

theorem consumes_nextBytes (overflow short : ε) (enc : Bytes) :
    Consumes bits (nextBytes bits overflow short enc.length) enc enc := by
  intro before after hlen
  have hfits : ¬ 2 ^ bits ≤ before.length + enc.length := by
    simp only [List.length_append] at hlen
    omega
  have hshort : ¬ (before ++ enc ++ after).length < before.length + enc.length := by
    simp only [List.length_append]
    omega
  have hpart : ((before ++ enc ++ after).drop before.length).take enc.length = enc := by simp
  simp only [nextBytes, StateT.run_bind, StateT.run_get, pure_bind, if_neg hfits, if_neg hshort, hpart]
  rw [List.length_append]
  rfl

theorem Consumes.times (h : Consumes bits m enc a) {n : ℕ} {enc' : Bytes} {as : List α}
    (hrest : Consumes bits (times m n) enc' as) :
    Consumes bits (times m (n + 1)) (enc ++ enc') (a :: as) :=
  h.bind (hrest.map fun as => a :: as)

theorem consumes_of_lt (h : enc.length < 2 ^ bits → Consumes bits m enc a) :
    Consumes bits m enc a := by
  intro before after hlen
  refine h ?_ before after hlen
  simp only [List.length_append] at hlen
  omega

theorem Consumes.whole (h : Consumes bits m enc a) (hlen : enc.length < 2 ^ bits) :
    m.run ⟨enc, 0⟩ = .ok (a, ⟨enc, enc.length⟩) := by
  have hrun := h [] [] (by simpa using hlen)
  simpa using hrun

variable {P : Bytes → α → Prop}

/-- A success has consumed bytes that decide it, whatever stands around them, and that are
related to the value by `P`. -/
def Reads (bits : ℕ) (m : Reader ε α) (P : Bytes → α → Prop) : Prop :=
  ∀ (before rest : Bytes) (a : α) (c : Cursor), (before ++ rest).length < 2 ^ bits →
    m.run ⟨before ++ rest, before.length⟩ = .ok (a, c) →
    ∃ enc after, rest = enc ++ after ∧ c = ⟨before ++ enc ++ after, (before ++ enc).length⟩ ∧
      Consumes bits m enc a ∧ P enc a

theorem reads_pure {a : α} (h : P [] a) : Reads bits (pure a : Reader ε α) P := by
  intro before rest b c _ hrun
  cases hrun
  exact ⟨[], rest, rfl, by simp, consumes_pure a, h⟩

theorem reads_throw (e : ε) : Reads bits (throw e : Reader ε α) P := by
  intro before rest a c _ hrun
  cases hrun

theorem Reads.bind {f : α → Reader ε β} {Q : Bytes → β → Prop} (h : Reads bits m P)
    (hf : ∀ enc a, P enc a → Reads bits (f a) fun enc' b => Q (enc ++ enc') b) :
    Reads bits (m >>= f) Q := by
  intro before rest b c hlen hrun
  rw [StateT.run_bind] at hrun
  cases hfirst : m.run ⟨before ++ rest, before.length⟩ with
  | error e =>
    rw [hfirst] at hrun
    cases hrun
  | ok first =>
    rw [hfirst] at hrun
    obtain ⟨enc, after, rfl, hc, hconsumes, hP⟩ := h before rest first.1 first.2 hlen hfirst
    rw [← List.append_assoc] at hlen
    have hsecond : (f first.1).run ⟨before ++ enc ++ after, (before ++ enc).length⟩ = .ok (b, c) := by
      rw [← hc]
      exact hrun
    obtain ⟨enc', after', rfl, rfl, hconsumes', hQ⟩ :=
      hf enc first.1 hP (before ++ enc) after b c hlen hsecond
    refine ⟨enc ++ enc', after', ?_, ?_, hconsumes.bind hconsumes', hQ⟩
    · rw [List.append_assoc]
    · simp only [List.append_assoc]

theorem reads_nextByte {P : Bytes → UInt8 → Prop} {short : ε} (h : ∀ b, P [b] b) :
    Reads bits (nextByte short) P := by
  intro before rest b c hlen hrun
  cases rest with
  | nil =>
    have hget : (before ++ [])[before.length]? = none := by simp
    simp only [nextByte, StateT.run_bind, StateT.run_get, pure_bind, hget] at hrun
    cases hrun
  | cons first rest =>
    have hconsumes : Consumes bits (nextByte short) [first] first := consumes_nextByte short first
    have hwhole := hconsumes before rest (by simpa using hlen)
    rw [List.append_assoc, List.singleton_append, hrun] at hwhole
    cases hwhole
    exact ⟨[b], rest, rfl, by simp, hconsumes, h b⟩

theorem reads_nextBytes {P : Bytes → Bytes → Prop} {overflow short : ε} {n : ℕ}
    (h : ∀ enc : Bytes, enc.length = n → P enc enc) :
    Reads bits (nextBytes bits overflow short n) P := by
  intro before rest a c hlen hrun
  by_cases hn : n ≤ rest.length
  · have hsplit : rest = rest.take n ++ rest.drop n := (List.take_append_drop n rest).symm
    have htake : (rest.take n).length = n := List.length_take_of_le hn
    have hconsumes : Consumes bits (nextBytes bits overflow short n) (rest.take n) (rest.take n) := by
      have hbytes : Consumes bits (nextBytes bits overflow short (rest.take n).length) _ _ :=
        consumes_nextBytes overflow short (rest.take n)
      rwa [htake] at hbytes
    have hwhole := hconsumes before (rest.drop n) (by rwa [List.append_assoc, ← hsplit])
    rw [List.append_assoc, ← hsplit, hrun] at hwhole
    cases hwhole
    refine ⟨rest.take n, rest.drop n, hsplit, ?_, hconsumes, h _ htake⟩
    rw [List.append_assoc, ← hsplit]
  · have hshort : (before ++ rest).length < before.length + n := by
      rw [List.length_append]
      omega
    simp only [nextBytes, StateT.run_bind, StateT.run_get, pure_bind, if_pos hshort] at hrun
    split_ifs at hrun <;> cases hrun

theorem Reads.times {Q : Bytes → List α → Prop} (h : Reads bits m P) (hnil : Q [] [])
    (hcons : ∀ enc a enc' as, P enc a → Q enc' as → Q (enc ++ enc') (a :: as)) (n : ℕ) :
    Reads bits (times m n) fun enc as => as.length = n ∧ Q enc as := by
  induction n with
  | zero => exact reads_pure ⟨rfl, hnil⟩
  | succ n ih =>
    refine h.bind fun enc a hP => ih.bind fun enc' as hQ => reads_pure ?_
    rw [List.append_nil]
    exact ⟨congrArg (· + 1) hQ.1, hcons enc a enc' as hP hQ.2⟩

theorem Reads.whole {enc : Bytes} {a : α} {c : Cursor} (h : Reads bits m P)
    (hlen : enc.length < 2 ^ bits) (hrun : m.run ⟨enc, 0⟩ = .ok (a, c))
    (hpos : c.pos = enc.length) : Consumes bits m enc a ∧ P enc a := by
  obtain ⟨enc', after, rfl, rfl, hconsumes, hP⟩ := h [] enc a c hlen hrun
  have hafter : after = [] := by simpa using hpos
  rw [hafter, List.append_nil]
  exact ⟨hconsumes, hP⟩

end Mst5Client.ByteReader
