import Mst5Client.AccountTasks

set_option autoImplicit false

/-!
# Closing an account client

`AccountClient::close` beside any number of other calls.
-/
namespace Mst5Client.AccountClosing
open IoResult AccountClient AccountTasks

inductive CloserPc where
  | taking
  | closing
  | returned (result : Except IoError Unit)
  | dropped
deriving DecidableEq

structure Closable where
  account : Account
  closers : List CloserPc

inductive Move where
  | close
  | takeLast (k : ℕ)
  | closeReturned (k : ℕ) (result : Except IoError Unit)
  | dropCloser (k : ℕ)
  | other (action : Action)

def Closable.world (s : Closable) : World := s.account.world

def Closable.withWorld (s : Closable) (w : World) : Closable :=
  { s with account := { s.account with world := w } }

def Closable.setPc (s : Closable) (k : ℕ) (pc : CloserPc) : Closable :=
  { s with closers := s.closers.set k pc }

def Closable.takeLast (s : Closable) (k : ℕ) : Closable :=
  match s.world.takeCurrent none with
  | (w, some conn) => (s.withWorld ((w.emit .closed).closeConn conn)).setPc k .closing
  | (w, none) => (s.withWorld (w.emit .closed)).setPc k (.returned (.ok ()))

def move (s : Closable) : Move → Option Closable
  | .close => some { s.withWorld { s.world with closed := true } with closers := s.closers ++
    [.taking] }
  | .takeLast k => (s.closers[k]?).bind fun
    | .taking => some (s.takeLast k)
    | _ => none
  | .closeReturned k result => (s.closers[k]?).bind fun
    | .closing => some (s.setPc k (.returned result))
    | _ => none
  | .dropCloser k => (s.closers[k]?).bind fun
    | .closing => some (s.setPc k .dropped)
    | _ => none
  -- there the flag and the connection go in one step
  | .other (.other .close) => none
  | .other action => (act s.account action).map fun account => { s with account }

def opened (w : World) : Closable := ⟨⟨w, []⟩, []⟩

end Mst5Client.AccountClosing
