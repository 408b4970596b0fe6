/-
What a criterion says: conditions joined by `and`, `or` and `not`. A condition is an atom, which
the connectives do not look inside; an atom may be a predicate whose rule is itself an `or`, and
keeping atoms apart from the tree above them keeps the two `or`s apart.
-/
import Criteria.Segment

set_option autoImplicit false

namespace Criteria

/-! ## Atoms -/

/-- A condition without connectives. -/
inductive Atom where
  | comparison (field : Text) (op : Comparison) (value : Text)
  | call (c : Call)
  | date (s : Text)
  | field (name : Text)
  deriving DecidableEq

namespace Atom

/-- Whether a character delimits a literal. -/
def isDelimiter (c : Char) : Bool := c == '#' || c == '\'' || c == '"'

/-- The name of a compared field: one bracket is removed at each end that has one, and a name
without brackets is left as it is. -/
def fieldName (s : Text) : Text := (s.dropFirst '[').dropFinal ']'

/-- The value of a comparison: the delimiters at both ends are removed, however many there are
and whether they match or not. -/
def literal (s : Text) : Text := s.trim isDelimiter

/-- The comparison that three tokens spell. -/
def compare (field : Token) (op : Comparison) (value : Token) : Atom :=
  .comparison (fieldName field.text) op (literal value.text)

/-- The condition that one token spells: a date, a predicate call or a field. -/
def ofToken? (t : Token) : Option Atom :=
  match t.date? with
  | some s => some (.date s)
  | none =>
    match Call.whole? t.text with
    | some c => some (.call c)
    | none => t.field?.map .field

/-- The rule of a condition. -/
def toRule : Atom → Rule
  | .comparison name op value => .compare op.operator name (.text value)
  | .call c => c.rule
  | .date s => .text s
  | .field name => .var name

end Atom

/-! ## Expressions -/

/-- Conditions joined by connectives. -/
inductive Expr where
  | atom (a : Atom)
  | not (e : Expr)
  | and (left right : Expr)
  | or (left right : Expr)
  deriving DecidableEq

namespace Expr

/-- The rule of an expression. -/
def toRule : Expr → Rule
  | .atom a => a.toRule
  | .not e => .negate e.toRule
  | .and l r => .apply Connective.and.keyword [l.toRule, r.toRule]
  | .or l r => .apply Connective.or.keyword [l.toRule, r.toRule]

end Expr

end Criteria
