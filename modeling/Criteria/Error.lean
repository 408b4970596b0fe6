/-
Why a list of tokens is not an expression. Each cause carries what its message shows, and the
wording is given in one place.
-/
import Criteria.Expr.Basic

set_option autoImplicit false

namespace Criteria

/-- The cause of a failed conversion. -/
inductive Error where
  /-- A parenthesis without its partner. -/
  | unbalanced (p : Paren)
  /-- A token in the place of an operand that is none. -/
  | unrecognized (t : Token)
  /-- There is no operand at all. -/
  | noOperand
  /-- A connective finds fewer operands than it takes. -/
  | missingOperand (c : Connective)
  /-- Two or more expressions, in the order in which they were written, that no connective
  joins. -/
  | unjoined (es : List Expr)
  deriving DecidableEq

namespace Error

/-- The message of an error. -/
def message : Error → String
  | .unbalanced p => "unbalanced parentheses near `" ++ String.singleton p.char ++ "`"
  | .unrecognized t => "unrecognized token: " ++ String.ofList t.text
  | .noOperand => "malformed expression: no operand found"
  | .missingOperand c =>
    "malformed expression: `" ++ String.ofList c.keyword ++ "` is missing an operand"
  | .unjoined es =>
    "malformed expression: " ++ toString es.length ++ " operands left without a connective: " ++
      ", ".intercalate (es.map fun e => e.toRule.render .compact)

end Error

end Criteria
