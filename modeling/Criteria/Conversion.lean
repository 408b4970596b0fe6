/-
The conversion of a criterion, given as a string, to a rule and to the JSON text of that rule,
under options. One pair of quotation marks around the whole criterion is dropped first, unless
the options say to keep it: a criterion copied from a quoted place still converts.
-/
import Criteria.Expr.Parser
import Criteria.Piece

set_option autoImplicit false

namespace Criteria

/-- How a criterion is prepared and how its rule is written. -/
structure Options where
  /-- Whether JSON text is indented. -/
  pretty : Bool := true
  /-- Whether a pair of quotation marks around the criterion is dropped. -/
  stripQuotes : Bool := true
  deriving DecidableEq, Repr

namespace Options

/-- The options with JSON text on one line. -/
def compact (o : Options) : Options := { o with pretty := false }

/-- The options with the quotation marks around a criterion kept. -/
def keepQuotes (o : Options) : Options := { o with stripQuotes := false }

/-- The layout of JSON text. -/
def layout (o : Options) : Layout := if o.pretty then .indented else .compact

/-- The criterion that is divided into tokens. -/
def prepare (o : Options) (s : Text) : Text :=
  if o.stripQuotes then (s.between? '"' '"').getD s else s

/-- The tokens of a criterion. -/
def tokens (o : Options) (criterion : String) : List Token :=
  Token.ofText (o.prepare criterion.toList)

/-- The rule of a criterion. -/
def toRule (o : Options) (criterion : String) : Except Error Rule :=
  (Expr.ofTokens (o.tokens criterion)).map Expr.toRule

/-- The JSON text of the rule of a criterion. -/
def convert (o : Options) (criterion : String) : Except Error String :=
  (o.toRule criterion).map (Rule.render o.layout)

end Options

/-- The rule of a criterion, under the default options. -/
def toRule (criterion : String) : Except Error Rule := ({} : Options).toRule criterion

/-- The JSON text of the rule of a criterion, under the default options. -/
def convert (criterion : String) : Except Error String := ({} : Options).convert criterion

end Criteria
