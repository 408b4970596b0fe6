/-
JSON text in its two layouts. The compact layout has no white space outside strings; the indented
one puts every item and every member on a line of its own, two blanks further in than the value
that holds it, and a blank after each colon. An empty array is `[]` in both.

The two layouts differ in `Layout.lineBreak` and `Layout.colon` alone, so one printer serves both.
It writes a value in front of a text that is already there: the cost is linear in what is
written, and a reader of the result can be compared with it for every text that may follow.
-/
import Criteria.Json.Basic

set_option autoImplicit false

namespace Criteria

/-! ## Strings -/

namespace Json

/-- The lower-case hexadecimal digit of a number below 16. -/
def hexDigit (n : Nat) : Char := if n < 10 then Char.ofNat (48 + n) else Char.ofNat (87 + n)

/-- A character inside a string literal: the quotation mark, the backslash and the characters
below U+0020 are escaped, with a short form where JSON has one, and all others stand for
themselves. -/
def escaped (c : Char) : Text :=
  match c with
  | '"' => ['\\', '"']
  | '\\' => ['\\', '\\']
  | '\x08' => ['\\', 'b']
  | '\x0c' => ['\\', 'f']
  | '\n' => ['\\', 'n']
  | '\r' => ['\\', 'r']
  | '\t' => ['\\', 't']
  | c =>
    if c.toNat < 0x20 then
      ['\\', 'u', '0', '0', hexDigit (c.toNat / 16), hexDigit (c.toNat % 16)]
    else [c]

/-- The string literal that denotes a text. -/
def quoted (s : Text) : Text := '"' :: (s.flatMap escaped ++ ['"'])

end Json

/-! ## Layouts -/

/-- The layout of JSON text. -/
inductive Layout where
  | compact
  | indented
  deriving DecidableEq, Repr

namespace Layout

/-- What separates two lines, the second of which stands `depth` levels in. -/
def lineBreak : Layout → (depth : Nat) → Text
  | .compact, _ => []
  | .indented, depth => '\n' :: List.replicate (2 * depth) ' '

/-- What separates a key from its value. -/
def colon : Layout → Text
  | .compact => [':']
  | .indented => [':', ' ']

end Layout

/-! ## Values -/

namespace Json

mutual

/-- Writes a value that stands `depth` levels in, in front of `rest`. -/
def write (layout : Layout) (depth : Nat) : Json → (rest : Text) → Text
  | .null, rest => 'n' :: 'u' :: 'l' :: 'l' :: rest
  | .str s, rest => quoted s ++ rest
  | .arr [], rest => '[' :: ']' :: rest
  | .arr (item :: items), rest =>
    '[' :: (layout.lineBreak (depth + 1) ++ item.write layout (depth + 1)
      (writeItems layout (depth + 1) items (layout.lineBreak depth ++ ']' :: rest)))
  | .obj [], rest => '\x7b' :: '\x7d' :: rest
  | .obj ((key, value) :: members), rest =>
    '\x7b' :: (layout.lineBreak (depth + 1) ++ quoted key ++ layout.colon ++
      value.write layout (depth + 1)
        (writeMembers layout (depth + 1) members (layout.lineBreak depth ++ '\x7d' :: rest)))

/-- Writes the items of an array after the first, each behind a comma. -/
def writeItems (layout : Layout) (depth : Nat) : List Json → (rest : Text) → Text
  | [], rest => rest
  | item :: items, rest =>
    ',' :: (layout.lineBreak depth ++ item.write layout depth (writeItems layout depth items rest))

/-- Writes the members of an object after the first, each behind a comma. -/
def writeMembers (layout : Layout) (depth : Nat) : List (Text × Json) → (rest : Text) → Text
  | [], rest => rest
  | (key, value) :: members, rest =>
    ',' :: (layout.lineBreak depth ++ quoted key ++ layout.colon ++
      value.write layout depth (writeMembers layout depth members rest))

end

/-- The text of a value. -/
def render (layout : Layout) (v : Json) : Text := v.write layout 0 []

end Json

end Criteria
