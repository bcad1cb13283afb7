import Mst5Client.CborValues
import Mst5Client.ProgramEnvironments

set_option autoImplicit false

/-!
# The accesses of the CBOR decoder

`CborDecoder` in a monad in which everything it does to `input` and `pos` is an operation of its
own.
-/
namespace Mst5Client.CborAccesses
open ByteOrder IoResult ByteReader CborValues TaskPrograms TaskTraces ProgramEnvironments

inductive Access where
  /-- `self.input.get(pos)`. -/
  | get (pos : ℕ)
  /-- `self.input.len()`. -/
  | len
  /-- `&self.input[start..stop]`, which panics out of range. -/
  | slice (start stop : ℕ)
  /-- `self.pos = pos`. -/
  | assign (pos : ℕ)

def Answer : Access → Type
  | .get _ => Option UInt8
  | .len => ℕ
  | .slice _ _ => Bytes
  | .assign _ => Unit

def reading (input : Bytes) : Environment Access Answer
  | _, .get pos => input[pos]?
  | _, .len => input.length
  | _, .slice start stop => (input.drop start).take (stop - start)
  | _, .assign _ => ()

/-- The access does not panic on this input. -/
def InRange (input : Bytes) : Access → Prop
  | .get pos => pos ≤ input.length
  | .len => True
  | .slice start stop => start ≤ stop ∧ stop ≤ input.length
  | .assign pos => pos ≤ input.length

section Scanning
variable (bits : ℕ)

abbrev Scanner (α : Type) := Method Access Answer IoError ℕ α

def Scanner.act (op : Access) : Scanner (Answer op) :=
  Method.ofProgram (ExceptT.lift (Prog.perform op))

def Scanner.inputGet (pos : ℕ) : Scanner (Option UInt8) := Scanner.act (.get pos)

def Scanner.inputLen : Scanner ℕ := Scanner.act .len

def Scanner.inputSlice (start stop : ℕ) : Scanner Bytes := Scanner.act (.slice start stop)

def Scanner.setPos (pos : ℕ) : Scanner Unit := do
  Scanner.act (.assign pos)
  set pos

def Scanner.byte : Scanner UInt8 := do
  let pos ← get
  match ← Scanner.inputGet pos with
  | none => throw shortInput
  | some value =>
    Scanner.setPos (pos + 1)
    return value

def Scanner.take (len : ℕ) : Scanner Bytes := do
  let pos ← get
  if 2 ^ bits ≤ pos + len then throw (invalidData "CBOR length overflow")
  else
    let size ← Scanner.inputLen
    if size < pos + len then throw shortInput
    else
      let value ← Scanner.inputSlice pos (pos + len)
      Scanner.setPos (pos + len)
      return value

instance : Input (Method Access Answer IoError ℕ) where
  byte := Scanner.byte
  take := Scanner.take

def Scanner.decodeCbor : Scanner Value := do
  let value : Value ← value bits 65
  let pos ← get
  let size ← Scanner.inputLen
  if pos ≠ size then throw (invalidData "trailing CBOR data")
  else return value

end Scanning

variable {bits : ℕ} {α β : Type}
variable {m : Scanner α} {reader : Decoder α}

/-- From a position in the input the scanner stays in range and does what the reader does. -/
def Follows (bits : ℕ) (m : Scanner α) (reader : Decoder α) : Prop :=
  ∀ (input : Bytes) (pos : ℕ) (log : List (Event Access Answer)), input.length < 2 ^ bits →
    pos ≤ input.length →
    ∃ new outcome pos', call (reading input) m pos log = (log ++ new, outcome, pos') ∧
      (∀ e ∈ new, InRange input e.op) ∧ pos' ≤ input.length ∧
      reader.run ⟨input, pos⟩ = outcome.map fun a => (a, ⟨input, pos'⟩)

theorem follows_pure (a : α) : Follows bits (pure a) (pure a) := by
  intro input pos log _ hpos
  exact ⟨[], .ok a, pos, by rw [List.append_nil]; rfl, by simp, hpos, rfl⟩

theorem follows_throw (e : IoError) : Follows bits (throw e : Scanner α) (throw e) := by
  intro input pos log _ hpos
  exact ⟨[], .error e, pos, by rw [List.append_nil]; rfl, by simp, hpos, rfl⟩

theorem call_stop {input : Bytes} {pos pos' : ℕ} {log log' : List (Event Access Answer)} {e : IoError}
    (h : call (reading input) m pos log = (log', .error e, pos')) (f : α → Scanner β) :
    call (reading input) (m >>= f) pos log = (log', .error e, pos') := by
  refine (interact_bind (p := m.run pos) _ log).trans ?_
  change interact (reading input) (m.run pos) log = _ at h
  rw [h]
  rfl

theorem Follows.bind {f : α → Scanner β} {g : α → Decoder β} (h : Follows bits m reader)
    (hf : ∀ a, Follows bits (f a) (g a)) : Follows bits (m >>= f) (reader >>= g) := by
  intro input pos log hlen hpos
  obtain ⟨new, outcome, mid, hcall, hrange, hmid, hrun⟩ := h input pos log hlen hpos
  cases outcome with
  | error e =>
    refine ⟨new, .error e, mid, call_stop hcall f, hrange, hmid, ?_⟩
    rw [StateT.run_bind, hrun]
    rfl
  | ok a =>
    obtain ⟨new', outcome, pos', hcall', hrange', hpos', hrun'⟩ := hf a input mid (log ++ new) hlen hmid
    refine ⟨new ++ new', outcome, pos', ?_, ?_, hpos', ?_⟩
    · rw [call_then hcall, hcall', List.append_assoc]
    · intro e he
      rcases List.mem_append.mp he with he | he
      · exact hrange e he
      · exact hrange' e he
    · rw [StateT.run_bind, hrun]
      exact hrun'

theorem Follows.ite {p : Prop} [Decidable p] {m' : Scanner α} {reader' : Decoder α}
    (h : Follows bits m reader) (h' : Follows bits m' reader') :
    Follows bits (if p then m else m') (if p then reader else reader') := by
  split_ifs
  · exact h
  · exact h'

theorem Follows.map (h : Follows bits m reader) (f : α → β) :
    Follows bits (m >>= fun a => pure (f a)) (reader >>= fun a => pure (f a)) :=
  h.bind fun a => follows_pure (f a)

section Primitives
variable {input : Bytes} {pos : ℕ} {log : List (Event Access Answer)}

theorem call_get (f : ℕ → Scanner α) :
    call (reading input) (get >>= f) pos log = call (reading input) (f pos) pos log :=
  rfl

theorem call_inputGet (i : ℕ) (f : Option UInt8 → Scanner α) :
    call (reading input) (Scanner.inputGet i >>= f) pos log =
      call (reading input) (f input[i]?) pos (log ++ [⟨.get i, input[i]?⟩]) := rfl

theorem call_inputLen (f : ℕ → Scanner α) :
    call (reading input) (Scanner.inputLen >>= f) pos log =
      call (reading input) (f input.length) pos (log ++ [⟨.len, input.length⟩]) := rfl

theorem call_inputSlice (i j : ℕ) (f : Bytes → Scanner α) :
    call (reading input) (Scanner.inputSlice i j >>= f) pos log =
      call (reading input) (f ((input.drop i).take (j - i))) pos
        (log ++ [⟨.slice i j, (input.drop i).take (j - i)⟩]) := rfl

theorem call_setPos (i : ℕ) (a : α) :
    call (reading input) (Scanner.setPos i >>= fun _ => pure a) pos log =
      (log ++ [⟨.assign i, ()⟩], .ok a, i) := rfl

end Primitives

theorem follows_byte : Follows bits byte byte := by
  intro input pos log _ hpos
  change ∃ new outcome pos', call (reading input) Scanner.byte pos log = _ ∧ _
  rw [Scanner.byte, call_get, call_inputGet]
  cases hget : input[pos]? with
  | none =>
    refine ⟨[⟨.get pos, none⟩], .error shortInput, pos, ?_, ?_, hpos, ?_⟩
    · rfl
    · simpa [InRange] using hpos
    · simp only [byte, nextByte, StateT.run_bind, StateT.run_get, pure_bind, hget]
      rfl
  | some value =>
    have hlt : pos < input.length := (List.getElem?_eq_some_iff.mp hget).1
    refine ⟨[⟨.get pos, some value⟩, ⟨.assign (pos + 1), ()⟩], .ok value, pos + 1, ?_, ?_, hlt, ?_⟩
    · simp only [call_setPos, List.append_assoc, List.singleton_append]
    · simp [InRange]
      omega
    · simp only [byte, nextByte, StateT.run_bind, StateT.run_get, pure_bind, hget]
      rfl

theorem follows_take (len : ℕ) : Follows bits (take bits len) (take bits len) := by
  intro input pos log hlen hpos
  change ∃ new outcome pos', call (reading input) (Scanner.take bits len) pos log = _ ∧ _
  rw [Scanner.take, call_get]
  by_cases hfits : 2 ^ bits ≤ pos + len
  · refine ⟨[], .error (invalidData "CBOR length overflow"), pos, ?_, by simp, hpos, ?_⟩
    · rw [if_pos hfits, List.append_nil]
      rfl
    · simp only [take, nextBytes, StateT.run_bind, StateT.run_get, pure_bind, if_pos hfits]
      rfl
  rw [if_neg hfits, call_inputLen]
  by_cases hshort : input.length < pos + len
  · refine ⟨[⟨.len, input.length⟩], .error shortInput, pos, ?_, by simp [InRange], hpos, ?_⟩
    · rw [if_pos hshort]
      rfl
    · simp only [take, nextBytes, StateT.run_bind, StateT.run_get, pure_bind, if_neg hfits,
        if_pos hshort]
      rfl
  · refine ⟨[⟨.len, input.length⟩, ⟨.slice pos (pos + len), (input.drop pos).take (pos + len - pos)⟩,
      ⟨.assign (pos + len), ()⟩], .ok ((input.drop pos).take (pos + len - pos)), pos + len, ?_,
        ?_, by omega, ?_⟩
    · rw [if_neg hshort, call_inputSlice, call_setPos, List.append_assoc, List.append_assoc]
      rfl
    · simp [InRange]
      omega
    · simp only [take, nextBytes, StateT.run_bind, StateT.run_get, pure_bind, if_neg hfits,
        if_neg hshort, Nat.add_sub_cancel_left]
      rfl

theorem follows_argument (additional : ℕ) :
    Follows bits (argument bits additional) (argument bits additional) := by
  have hbigEndian : ∀ width, Follows bits (bigEndian bits width) (bigEndian bits width) :=
    fun width => (follows_take width).map fun bytes => UInt64.ofNat (ofBe bytes)
  unfold argument
  refine (follows_pure _).ite ?_
  refine (follows_byte.map fun value => UInt64.ofNat value.toNat).ite ?_
  refine (hbigEndian 2).ite ((hbigEndian 4).ite ((hbigEndian 8).ite ?_))
  exact (follows_throw _).ite (follows_throw _)

theorem follows_length (additional : ℕ) :
    Follows bits (length bits additional) (length bits additional) :=
  (follows_argument additional).bind fun _ => (follows_pure _).ite (follows_throw _)

theorem follows_integer (additional : ℕ) :
    Follows bits (integer bits additional) (integer bits additional) :=
  (follows_argument additional).bind fun _ => (follows_throw _).ite (follows_pure _)

theorem follows_text (additional : ℕ) :
    Follows bits (text bits additional) (text bits additional) := by
  refine (follows_length additional).bind fun len => (follows_take len).bind fun bytes => ?_
  cases String.fromUTF8? ⟨bytes.toArray⟩ with
  | none => exact follows_throw _
  | some value => exact follows_pure _

theorem Follows.times (h : Follows bits m reader) (n : ℕ) :
    Follows bits (times m n) (times reader n) := by
  induction n with
  | zero => exact follows_pure []
  | succ n ih => exact h.bind fun a => ih.map fun as => a :: as

variable {item : Scanner Value} {itemReader : Decoder Value}

theorem Follows.array (h : Follows bits item itemReader) (additional : ℕ) :
    Follows bits (array bits additional item) (array bits additional itemReader) :=
  (follows_length additional).bind fun len => (follows_throw _).ite ((h.times len).map Value.array)

theorem Follows.entry (h : Follows bits item itemReader) :
    Follows bits (entry item) (entry itemReader) := by
  refine h.bind fun key => ?_
  cases key with
  | text key => exact h.map fun value => (key, value)
  | _ => exact follows_throw _

theorem Follows.entries (h : Follows bits item itemReader) (additional : ℕ) :
    Follows bits (CborValues.map bits additional item) (CborValues.map bits additional itemReader) :=
  (follows_length additional).bind fun len => (follows_throw _).ite ((h.entry.times len).map Value.map)

theorem follows_simple (additional : ℕ) :
    Follows bits (simple bits additional) (simple bits additional) := by
  unfold simple
  refine (follows_pure _).ite ((follows_pure _).ite ((follows_pure _).ite ?_))
  refine ((follows_take 4).map fun bytes => Value.float (UInt64.ofNat (widen (ofBe bytes)))).ite ?_
  exact ((follows_take 8).map fun bytes => Value.float (UInt64.ofNat (ofBe bytes))).ite
    (follows_throw _)

theorem Follows.valueOf (h : Follows bits item itemReader) (major additional : ℕ) :
    Follows bits (valueOf bits major additional item) (valueOf bits major additional itemReader) := by
  unfold CborValues.valueOf
  refine ((follows_argument additional).map Value.unsigned).ite ((follows_integer additional).ite ?_)
  refine ((follows_length additional).bind fun len => (follows_take len).map Value.bytes).ite ?_
  refine ((follows_text additional).ite ((h.array additional).ite ((h.entries additional).ite ?_)))
  exact (follows_simple additional).ite (follows_throw _)

theorem follows_value (levels : ℕ) : Follows bits (value bits levels) (value bits levels) := by
  induction levels with
  | zero => exact follows_throw _
  | succ levels ih => exact follows_byte.bind fun initial => ih.valueOf _ _

theorem decodeCbor_follows {input : Bytes} (hlen : input.length < 2 ^ bits) :
    ∃ log pos, call (reading input) (Scanner.decodeCbor bits) 0 [] = (log, decodeCbor bits input, pos) ∧
      (∀ e ∈ log, InRange input e.op) ∧ pos ≤ input.length ∧
      ∀ v, decodeCbor bits input = .ok v → pos = input.length := by
  obtain ⟨new, outcome, pos, hcall, hrange, hpos, hrun⟩ :=
    follows_value 65 input 0 [] hlen (Nat.zero_le _)
  cases outcome with
  | error e =>
    have hdecode : decodeCbor bits input = .error e := by
      rw [decodeCbor, hrun]
      rfl
    refine ⟨new, pos, ?_, hrange, hpos, ?_⟩
    · rw [hdecode]
      exact call_stop hcall _
    · intro v hv
      rw [hdecode] at hv
      cases hv
  | ok value =>
    have hdecode : decodeCbor bits input =
        if pos ≠ input.length then .error (invalidData "trailing CBOR data") else .ok value := by
      rw [decodeCbor, hrun]
      rfl
    have hlog : ∀ e ∈ new ++ [⟨.len, input.length⟩], InRange input e.op := by
      intro e he
      rcases List.mem_append.mp he with he | he
      · exact hrange e he
      · rw [List.mem_singleton.mp he]
        trivial
    refine ⟨new ++ [⟨.len, input.length⟩], pos, ?_, hlog, hpos, ?_⟩
    · rw [Scanner.decodeCbor, call_then hcall, call_get, call_inputLen, hdecode, List.nil_append]
      split_ifs <;> rfl
    · intro v hv
      rw [hdecode] at hv
      by_contra hne
      rw [if_pos hne] at hv
      cases hv

end Mst5Client.CborAccesses
