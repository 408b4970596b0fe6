/-
White space is the White_Space property of Unicode: the 25 characters of the table below. The
zero-width characters U+200B, U+2060 and U+FEFF and the separators U+001C to U+001F are not in it.
-/
import Criteria.Text.Basic
import Criteria.Text.Ranges

set_option autoImplicit false

namespace Criteria.Text

/-- The code points with the property White_Space. -/
def blankRanges : Ranges :=
  [(0x9, 0xD), (0x20, 0x20), (0x85, 0x85), (0xA0, 0xA0), (0x1680, 0x1680), (0x2000, 0x200A),
   (0x2028, 0x2029), (0x202F, 0x202F), (0x205F, 0x205F), (0x3000, 0x3000)]

/-- Whether a character is white space. -/
def isBlank (c : Char) : Bool := blankRanges.has c.toNat

/-- Whether a text holds nothing but white space. -/
def isBlankText (s : Text) : Bool := s.all isBlank

example : blankRanges.ascendsFrom 0 ∧ blankRanges.count = 25 := by decide

end Criteria.Text
