import Mst5Client.AccountClient

set_option autoImplicit false

/-!
# Concurrent uses of one account client

`AccountClient` of `src/account.rs` without the messenger in front of it: any number of
`request_cbor` and `set_credentials` calls.
-/
namespace Mst5Client.AccountTasks
open IoResult AccountClient

inductive SetterPc where
  | taking
  | closing
  | returned (result : Except IoError Unit)
  | dropped

structure Setter where
  token : String
  clientName : String
  pc : SetterPc

structure Account where
  world : World
  setters : List Setter

inductive Action where
  | request (request : Request) (a : Ambient)
  | setCredentials (token clientName : String)
  | takeCurrent (k : ℕ)
  | closeFinished (k : ℕ)
  | dropSetter (k : ℕ)
  | other (l : Label)

def credentialsDiffer (w : World) (token clientName : String) : Bool :=
  w.credentials.token ≠ token ∨ w.credentials.clientName ≠ trim clientName

def Account.request (s : Account) (request : Request) (a : Ambient) : Account :=
  let call : Call := ⟨request, a.instant, 0, .closing⟩
  { s with world := (s.world.spawn call).enterRequest s.world.calls.length call a }

def Account.setCredentials (s : Account) (token clientName : String) : Account :=
  let setter (pc : SetterPc) : Setter := ⟨token, clientName, pc⟩
  if 64 < clientName.length then
    { s with setters := s.setters ++
        [setter (.returned (.error (invalidInput "client_name must contain at most 64 characters")))] }
  else if credentialsDiffer s.world token clientName then
    { world := { s.world with credentials := { s.world.credentials with
        token := token, clientName := trim clientName } }
      setters := s.setters ++ [setter .taking] }
  else { s with setters := s.setters ++ [setter (.returned (.ok ()))] }

def Account.setPc (s : Account) (k : ℕ) (pc : SetterPc) : Account :=
  { s with setters := s.setters.modify k fun x => { x with pc } }

def Account.invalidate (s : Account) (k : ℕ) : Account :=
  match s.world.takeCurrent none with
  | (w, some conn) => { s with world := w.closeConn conn }.setPc k .closing
  | (w, none) => { s with world := w }.setPc k (.returned (.ok ()))

def act (s : Account) : Action → Option Account
  | .request request a => some (s.request request a)
  | .setCredentials token clientName => some (s.setCredentials token clientName)
  | .takeCurrent k => (s.setters[k]?).bind fun x =>
    match x.pc with
    | .taking => some (s.invalidate k)
    | _ => none
  | .closeFinished k => (s.setters[k]?).bind fun x =>
    match x.pc with
    | .closing => some (s.setPc k (.returned (.ok ())))
    | _ => none
  | .dropSetter k => (s.setters[k]?).bind fun x =>
    match x.pc with
    | .closing => some (s.setPc k .dropped)
    | _ => none
  | .other (.call _ _) => none
  | .other l => (AccountClient.step s.world l).map fun w => { s with world := w }

end Mst5Client.AccountTasks
