/-
The JSON values that rules and token listings are made of. Neither of them holds a number or a
truth value, so a value is null, a string, an array or an object. The members of an object keep
the order in which they are written.
-/
import Criteria.Text.Basic

set_option autoImplicit false

namespace Criteria

/-- A JSON value without numbers and truth values. -/
inductive Json where
  | null
  | str (s : Text)
  | arr (items : List Json)
  | obj (members : List (Text × Json))

namespace Json

instance : Inhabited Json := ⟨.null⟩

/-- The object with one member. -/
def single (key : Text) (value : Json) : Json := .obj [(key, value)]

end Json

end Criteria
