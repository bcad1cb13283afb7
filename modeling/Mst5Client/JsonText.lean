import Mathlib.Data.Int.Notation
import Mathlib.Data.List.Basic

set_option autoImplicit false

/-!
# JSON texts

Values with integer numbers, their compact text and a reader for JSON texts. Escapes for surrogates
are refused.
-/
namespace Mst5Client.JsonText

inductive Json where
  | null
  | bool (value : Bool)
  | number (value : ℤ)
  | string (value : String)
  | array (values : List Json)
  | object (members : List (String × Json))

def quote : Char := Char.ofNat 0x22
def backslash : Char := Char.ofNat 0x5c
def openBrace : Char := Char.ofNat 0x7b
def closeBrace : Char := Char.ofNat 0x7d

def isSpace (c : Char) : Bool := c ∈ [' ', '\n', '\t', '\r']

def hexDigit (n : ℕ) : Char := if n < 10 then Char.ofNat (48 + n) else Char.ofNat (87 + n)

def hexValue (c : Char) : Option ℕ :=
  if 48 ≤ c.toNat ∧ c.toNat ≤ 57 then some (c.toNat - 48)
  else if 97 ≤ c.toNat ∧ c.toNat ≤ 102 then some (c.toNat - 87)
  else if 65 ≤ c.toNat ∧ c.toNat ≤ 70 then some (c.toNat - 55)
  else none

def escapes : List (Char × Char) :=
  [(quote, quote), (backslash, backslash), (Char.ofNat 8, 'b'), (Char.ofNat 9, 't'),
    (Char.ofNat 10, 'n'), (Char.ofNat 12, 'f'), (Char.ofNat 13, 'r')]

def shortEscape (c : Char) : Option Char := escapes.lookup c

def ofEscape (e : Char) : Option Char :=
  if e = '/' then some '/' else (escapes.find? fun entry => entry.2 = e).map Prod.fst

def printChar (c : Char) : List Char :=
  match shortEscape c with
  | some e => [backslash, e]
  | none =>
    if c.toNat < 0x20 then [backslash, 'u', '0', '0', hexDigit (c.toNat / 16), hexDigit (c.toNat % 16)]
    else [c]

def printString (s : String) : List Char := quote :: (s.toList.flatMap printChar ++ [quote])

def printNumber (n : ℤ) : List Char :=
  if n < 0 then '-' :: Nat.toDigits 10 n.natAbs else Nat.toDigits 10 n.natAbs

mutual
def print : Json → List Char
  | .null => ['n', 'u', 'l', 'l']
  | .bool true => ['t', 'r', 'u', 'e']
  | .bool false => ['f', 'a', 'l', 's', 'e']
  | .number n => printNumber n
  | .string s => printString s
  | .array values => '[' :: printItems values
  | .object members => openBrace :: printMembers members

def printItems : List Json → List Char
  | [] => [']']
  | value :: values =>
    print value ++ (if values.isEmpty then [']'] else ',' :: printItems values)

def printMembers : List (String × Json) → List Char
  | [] => [closeBrace]
  | (key, value) :: members =>
    printString key ++ ':' :: print value ++ (if members.isEmpty then [closeBrace]
      else ',' :: printMembers members)
end

abbrev Scanner (α : Type) := StateT (List Char) Option α

def skipSpace : Scanner Unit := fun cs => some ((), cs.dropWhile isSpace)

def token : Scanner Char := fun cs =>
  match cs with
  | [] => none
  | c :: rest => some (c, rest)

def literal : List Char → Scanner Unit
  | [] => pure ()
  | c :: cs => do
    let x ← token
    if x = c then literal cs else failure

def hex4 (a b c d : Char) : Option ℕ := do
  return (← hexValue a) * 4096 + (← hexValue b) * 256 + (← hexValue c) * 16 + (← hexValue d)

def stringBody : List Char → Option (List Char × List Char)
  | [] => none
  | c :: rest =>
    if c = quote then some ([], rest)
    else if c = backslash then
      match rest with
      | [] => none
      | e :: rest =>
        if e = 'u' then
          match rest with
          | h₁ :: h₂ :: h₃ :: h₄ :: rest =>
            (hex4 h₁ h₂ h₃ h₄).bind fun n =>
              if 0xd800 ≤ n ∧ n ≤ 0xdfff then none
              else (stringBody rest).map fun r => (Char.ofNat n :: r.1, r.2)
          | _ => none
        else (ofEscape e).bind fun x => (stringBody rest).map fun r => (x :: r.1, r.2)
    else if c.toNat < 0x20 then none
    else (stringBody rest).map fun r => (c :: r.1, r.2)

def string : Scanner String := fun cs => (stringBody cs).map fun r => (String.ofList r.1, r.2)

def natural : Scanner ℕ := fun cs =>
  let digits := cs.takeWhile Char.isDigit
  let rest := cs.dropWhile Char.isDigit
  if digits = [] ∨ (digits.head? = some '0' ∧ 1 < digits.length) then none
  else if rest.head?.any fun c => c ∈ ['.', 'e', 'E'] then none
  else some (Nat.ofDigitChars 10 digits 0, rest)

def itemsLoop {α : Type} (item : Scanner α) (close : Char) : ℕ → Scanner (List α)
  | 0 => failure
  | n + 1 => do
    let a ← item
    skipSpace
    let c ← token
    if c = close then return [a]
    else if c = ',' then
      let as ← itemsLoop item close n
      return a :: as
    else failure

def items {α : Type} (item : Scanner α) (close : Char) : Scanner (List α) := do
  skipSpace
  let cs ← get
  if cs.head? = some close then
    let _ ← token
    return []
  else itemsLoop item close cs.length

def member (item : Scanner Json) : Scanner (String × Json) := do
  skipSpace
  literal [quote]
  let key ← string
  skipSpace
  literal [':']
  let value ← item
  return (key, value)

def valueFrom (item : Scanner Json) (c : Char) : Scanner Json :=
  if c = 'n' then do
    literal ['n', 'u', 'l', 'l']
    return .null
  else if c = 't' then do
    literal ['t', 'r', 'u', 'e']
    return .bool true
  else if c = 'f' then do
    literal ['f', 'a', 'l', 's', 'e']
    return .bool false
  else if c = quote then do
    let _ ← token
    let s ← string
    return .string s
  else if c = '[' then do
    let _ ← token
    let values ← items item ']'
    return .array values
  else if c = openBrace then do
    let _ ← token
    let members ← items (member item) closeBrace
    return .object members
  else if c = '-' then do
    let _ ← token
    let n ← natural
    return .number (-n)
  else do
    let n ← natural
    return .number n

def valueOf (item : Scanner Json) : Scanner Json := do
  skipSpace
  let cs ← get
  match cs with
  | [] => failure
  | c :: _ => valueFrom item c

def value : ℕ → Scanner Json
  | 0 => failure
  | levels + 1 => valueOf (value levels)

def parse (text : String) : Option Json := do
  let (v, rest) ← (value 128).run text.toList
  if rest.dropWhile isSpace = [] then return v else none

end Mst5Client.JsonText
