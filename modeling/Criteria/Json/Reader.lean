/-
Reads JSON text back to the value it denotes. White space is allowed wherever JSON allows it, and
a string may use every escape of JSON; only numbers, truth values and surrogate escapes are not
read, since no value here holds any.

The recursion is bounded by a number that goes down at every item, at every member and at every
step into a value. Each of these takes a character of the text, so the length of the text is
bound enough.
-/
import Criteria.Json.Printer

set_option autoImplicit false

namespace Criteria.Json

/-! ## White space and strings -/

/-- Whether a character is white space of JSON. -/
def isSpace (c : Char) : Bool := c == ' ' || c == '\n' || c == '\r' || c == '\t'

/-- Removes white space from the start of a text. -/
def skipSpace (s : Text) : Text := s.dropWhile isSpace

/-- The number that a hexadecimal digit denotes. -/
def hexValue? (c : Char) : Option Nat :=
  if '0' ≤ c ∧ c ≤ '9' then some (c.toNat - 48)
  else if 'a' ≤ c ∧ c ≤ 'f' then some (c.toNat - 87)
  else if 'A' ≤ c ∧ c ≤ 'F' then some (c.toNat - 55)
  else none

/-- The character that four hexadecimal digits denote; a surrogate denotes none. -/
def unicode? (a b c d : Char) : Option Char := do
  let high := (← hexValue? a) * 16 + (← hexValue? b)
  let low := (← hexValue? c) * 16 + (← hexValue? d)
  let n := high * 256 + low
  if n.isValidChar then some (Char.ofNat n) else none

/-- The character that a letter denotes after a backslash. -/
def unescape? : Char → Option Char
  | '"' => some '"'
  | '\\' => some '\\'
  | '/' => some '/'
  | 'b' => some '\x08'
  | 'f' => some '\x0c'
  | 'n' => some '\n'
  | 'r' => some '\r'
  | 't' => some '\t'
  | _ => none

/-- Reads the rest of a string after its opening quotation mark: the text it denotes, and the
text after its closing quotation mark. -/
def readString? : Text → Option (Text × Text)
  | [] => none
  | '"' :: s => some ([], s)
  | '\\' :: 'u' :: a :: b :: c :: d :: s => do
    let ch ← unicode? a b c d
    let (t, r) ← readString? s
    some (ch :: t, r)
  | '\\' :: e :: s => do
    let ch ← unescape? e
    let (t, r) ← readString? s
    some (ch :: t, r)
  | c :: s =>
    if c == '\\' || c.toNat < 0x20 then none
    else do
      let (t, r) ← readString? s
      some (c :: t, r)

/-! ## Values -/

mutual

/-- Reads a value: the value, and the text after it. -/
def readValue? : (bound : Nat) → Text → Option (Json × Text)
  | 0, _ => none
  | bound + 1, s =>
    match skipSpace s with
    | 'n' :: 'u' :: 'l' :: 'l' :: r => some (.null, r)
    | '"' :: r => (readString? r).map fun (t, r) => (.str t, r)
    | '[' :: r =>
      match skipSpace r with
      | ']' :: r => some (.arr [], r)
      | _ => (readItems? bound r).map fun (items, r) => (.arr items, r)
    | '\x7b' :: r =>
      match skipSpace r with
      | '\x7d' :: r => some (.obj [], r)
      | _ => (readMembers? bound r).map fun (members, r) => (.obj members, r)
    | _ => none

/-- Reads the items of an array, of which there is at least one, through its closing bracket. -/
def readItems? : (bound : Nat) → Text → Option (List Json × Text)
  | 0, _ => none
  | bound + 1, s => do
    let (item, r) ← readValue? bound s
    match skipSpace r with
    | ']' :: r => some ([item], r)
    | ',' :: r =>
      let (items, r) ← readItems? bound r
      some (item :: items, r)
    | _ => none

/-- Reads the members of an object, of which there is at least one, through its closing brace. -/
def readMembers? : (bound : Nat) → Text → Option (List (Text × Json) × Text)
  | 0, _ => none
  | bound + 1, s => do
    match skipSpace s with
    | '"' :: r =>
      let (key, r) ← readString? r
      match skipSpace r with
      | ':' :: r =>
        let (value, r) ← readValue? bound r
        match skipSpace r with
        | '\x7d' :: r => some ([(key, value)], r)
        | ',' :: r =>
          let (members, r) ← readMembers? bound r
          some ((key, value) :: members, r)
        | _ => none
      | _ => none
    | _ => none

end

/-- The value that a whole text denotes. -/
def read? (s : Text) : Option Json :=
  match readValue? (s.length + 1) s with
  | some (v, r) => if skipSpace r = [] then some v else none
  | none => none

end Criteria.Json
