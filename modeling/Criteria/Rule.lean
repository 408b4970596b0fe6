/-
A rule is a JsonLogic expression: a literal, a variable, or an operator applied to arguments. Its
JSON form is fixed by three shapes. A variable is an object with the key `var` and the name as a
string; a negation is an object with the key `!` and the negated rule itself, outside any array;
every other operator is an object with the operator as key and the array of its arguments.

The shapes never meet: what a negation holds is never an array, and what a variable holds is a
string. So a rule can be read back from its JSON form.
-/
import Criteria.Json.Printer

set_option autoImplicit false

namespace Criteria

/-- A JsonLogic expression. -/
inductive Rule where
  | null
  | text (s : Text)
  | var (field : Text)
  | negate (r : Rule)
  | apply (operator : Text) (args : List Rule)

namespace Rule

instance : Inhabited Rule := ⟨.null⟩

/-! ## JSON form -/

mutual

/-- The JSON form of a rule. -/
def toJson : Rule → Json
  | .null => .null
  | .text s => .str s
  | .var field => .single "var".toList (.str field)
  | .negate r => .single "!".toList r.toJson
  | .apply operator args => .single operator (.arr (toJsons args))

/-- The JSON forms of several rules. -/
def toJsons : List Rule → List Json
  | [] => []
  | r :: rs => r.toJson :: toJsons rs

end

@[simp] theorem toJsons_eq_map (rs : List Rule) : toJsons rs = rs.map toJson := by
  induction rs with
  | nil => rfl
  | cons r rs ih => simp [toJsons, ih]

/-- The JSON text of a rule. -/
def render (layout : Layout) (r : Rule) : String := String.ofList (r.toJson.render layout)

/-! ## The comparisons a criterion asks for -/

/-- The rule that compares a field with a rule. -/
def compare (operator : Text) (field : Text) (r : Rule) : Rule := .apply operator [.var field, r]

end Rule

end Criteria
