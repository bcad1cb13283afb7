import Mst5Client.ConnectionEffects
import Mst5Client.TaskTraces

set_option autoImplicit false

/-!
# Histories of the connection

What the answers in a history say about the connection at its end: a handle keeps the id it was made
with.
-/
namespace Mst5Client.ConnectionHistory
open MachineRuns TaskPrograms TaskTraces ConnectionState ConnectionCalls ConnectionEffects

abbrev Log := History Op Ans Name

abbrev Run := Traced Op Ans Name Connection Locals

/-- A run of the connection from its start. -/
def Reaches (now : ℕ) (labels : Schedule) (t : Run) : Prop :=
  runFrom (traced system) (Traced.begin (initial now)) labels = some t

def HasId (ids : List ℕ) (handle id : ℕ) : Prop := ids[handle]? = some id

/-- What an answer says about the handles. -/
def Says (ids : List ℕ) : (op : Op) → Ans op → Prop
  | .handleId handle, id => HasId ids handle id
  | .newHandle _ id _, handle => HasId ids handle id
  | _, _ => True

def Truthful (c : Connection) (log : Log) : Prop :=
  ∀ i op answer, .performed i op answer ∈ log → Says (handleIds c) op answer

variable {c c' : Connection} {log : Log}
variable {op : Op} {e : Performed (Ans op)}

theorem HasId.mono {ids more : List ℕ} {handle id : ℕ} (h : HasId ids handle id) :
    HasId (ids ++ more) handle id := by
  rw [HasId, List.getElem?_append_left (List.getElem?_eq_some_iff.mp h).1]
  exact h

theorem Says.mono {ids more : List ℕ} {answer : Ans op} (h : Says ids op answer) :
    Says (ids ++ more) op answer := by
  cases op with
  | handleId handle => exact HasId.mono h
  | newHandle stream id channel => exact HasId.mono h
  | _ => trivial

theorem handleIds_grow {l : Locals} {choice : Choice} (he : perform c l op choice = some e) :
    ∃ more, handleIds e.shared = handleIds c ++ more := by
  have hframe := (perform_frames choice e he).same
  cases op with
  | newHandle stream id channel => exact ⟨[id], (newHandle_effect he).2.1⟩
  | _ => exact ⟨[], (hframe .handleIds rfl).trans (List.append_nil _).symm⟩

theorem says_perform {l : Locals} {choice : Choice} (he : perform c l op choice = some e) :
    Says (handleIds e.shared) op e.answer := by
  cases op with
  | handleId handle =>
    obtain ⟨hid, hsame⟩ := handleId_effect he
    rw [hsame]
    exact hid
  | newHandle stream id channel =>
    obtain ⟨hlength, hids, -⟩ := newHandle_effect he
    change HasId (handleIds e.shared) e.answer id
    rw [hids, show e.answer = (handleIds c).length from hlength]
    exact List.getElem?_concat_length
  | _ => trivial

theorem Truthful.note (h : Truthful c log) {entry : Entry Op Ans Name}
    (hentry : ∀ i op answer, entry ≠ .performed i op answer) : Truthful c (log ++ [entry]) := by
  intro i op answer hmem
  obtain hold | hnew := List.mem_append.mp hmem
  · exact h i op answer hold
  · exact absurd (List.mem_singleton.mp hnew).symm (hentry i op answer)

theorem truthful_run {now : ℕ} {labels : Schedule} {t : Run} (hrun : Reaches now labels t) :
    Truthful t.pool.shared t.history := by
  refine history_invariant (S := system) (I := Truthful) ?_ ?_ ?_ ?_ (fun _ _ _ h => by cases h) hrun
  · intro c log i l op choice e h he j op' answer hmem
    obtain hold | hnew := List.mem_append.mp hmem
    · obtain ⟨more, hmore⟩ := handleIds_grow he
      rw [hmore]
      exact (h j op' answer hold).mono
    · cases List.mem_singleton.mp hnew
      exact says_perform he
  · intro c log l h i op answer hmem
    rw [show handleIds (system.discard c l).1 = handleIds c from
      discard_same c l .handleIds]
    exact h i op answer hmem
  · exact fun c log i n h => h.note fun _ _ _ => nofun
  · exact fun c log i h => h.note fun _ _ _ => nofun

def writeOne : Schedule :=
  [.step 1 .proceed, .step 1 (.written (.ok ())), .step 1 .proceed, .step 1 .proceed, .step 1 .proceed]

def beginOne (i : ℕ) : Schedule :=
  .step i (.clock 0) :: List.replicate 3 (.step i .proceed) ++ .step i (.clock 0) ::
    List.replicate 5 (.step i .proceed) ++ .step i (.clock 0) :: List.replicate 2 (.step i .proceed)

end Mst5Client.ConnectionHistory
