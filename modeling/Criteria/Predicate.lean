/-
The six predicates that a criterion can apply to a field, and the rules they stand for. A test
for null is a comparison with null; a field is null or empty when one of two comparisons holds;
`contains` asks whether the value is in the field, so there the value comes first.
-/
import Criteria.Rule

set_option autoImplicit false

namespace Criteria

/-- A predicate on a field; three of them also take a value. -/
inductive Predicate where
  | isNullOrEmpty
  | contains
  | startsWith
  | endsWith
  | isNull
  | isNotNull
  deriving DecidableEq, Repr

namespace Predicate

/-- Every predicate. -/
def all : List Predicate := [.isNullOrEmpty, .contains, .startsWith, .endsWith, .isNull, .isNotNull]

theorem mem_all (p : Predicate) : p ∈ all := by cases p <;> decide

/-- The name of a predicate, in lower case. -/
def name : Predicate → Text
  | .isNullOrEmpty => "isnullorempty".toList
  | .contains => "contains".toList
  | .startsWith => "startswith".toList
  | .endsWith => "endswith".toList
  | .isNull => "isnull".toList
  | .isNotNull => "isnotnull".toList

/-- Whether a predicate compares its field with a value. -/
def takesValue : Predicate → Bool
  | .contains | .startsWith | .endsWith => true
  | .isNullOrEmpty | .isNull | .isNotNull => false

/-- The rule that applies a predicate to a field and, if it takes one, a value. -/
def rule (p : Predicate) (field value : Text) : Rule :=
  match p with
  | .contains => .apply "in".toList [.text value, .var field]
  | .startsWith => .compare "startsWith".toList field (.text value)
  | .endsWith => .compare "endsWith".toList field (.text value)
  | .isNull => .compare "==".toList field .null
  | .isNotNull => .compare "!=".toList field .null
  | .isNullOrEmpty =>
    .apply "or".toList [.compare "==".toList field .null, .compare "==".toList field (.text [])]

end Predicate

end Criteria
