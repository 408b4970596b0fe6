/-
The value of a comparison is data. Tokens are known by their text alone, and a value may have any
text: a parenthesis, a connective, a comparison symbol, nothing at all. What keeps such a value from
being taken for structure is the division into segments. An operand that is followed by a comparison
symbol takes the token behind it unseen, and nobody looks at a value from elsewhere: a token looks
one place ahead for a symbol, and what stands one place ahead of a token that starts an operand, a
parenthesis or a connective is never a value. So with other values the segments are the same but for
these values (`Token.Revalued.forall₂_ofTokens`), and the precedence method, which does not look
inside conditions, does the same with them.

What comes out is then the same expression with the other values in the places of the old ones
(`Expr.withValues`), from left to right, since conditions keep their order.
-/
import Criteria.Proofs.Conservation
import Criteria.Proofs.Lockstep
import Criteria.Proofs.Marks

set_option autoImplicit false

namespace Criteria

/-! ## Values in expressions -/

/-- The value of a comparison. -/
def Atom.value? : Atom → Option Text
  | .comparison _ _ value => some value
  | .call _ | .date _ | .field _ => none

/-- A condition with another value, if it is a comparison. -/
def Atom.withValue (v : Text) : Atom → Atom
  | .comparison name op _ => .comparison name op v
  | .call c => .call c
  | .date s => .date s
  | .field name => .field name

namespace Expr

/-- The values of the comparisons of an expression, from left to right. -/
def values (e : Expr) : List Text := e.atoms.filterMap Atom.value?

/-- An expression with the values `vs` for its comparisons, from left to right. -/
def withValues : Expr → (vs : List Text) → Expr
  | .atom a, vs => .atom (a.withValue (vs.headD []))
  | .not e, vs => .not (e.withValues vs)
  | .and l r, vs => .and (l.withValues vs) (r.withValues (vs.drop l.values.length))
  | .or l r, vs => .or (l.withValues vs) (r.withValues (vs.drop l.values.length))

/-- Several expressions with the values `vs` for their comparisons, from left to right. -/
def allWithValues : List Expr → (vs : List Text) → List Expr
  | [], _ => []
  | e :: es, vs => e.withValues vs :: allWithValues es (vs.drop e.values.length)

end Expr

/-- An error with the values `vs` for the comparisons that it shows, from left to right. -/
def Error.withValues (vs : List Text) : Error → Error
  | .unbalanced p => .unbalanced p
  | .unrecognized t => .unrecognized t
  | .noOperand => .noOperand
  | .missingOperand c => .missingOperand c
  | .unjoined es => .unjoined (Expr.allWithValues es vs)

/-! ## Expressions of one shape -/

namespace Expr.Paired

variable {d e : Expr}

end Expr.Paired

namespace Segment

/-- The token that a segment compares with. -/
def value? : Segment → Option Token
  | .comparison _ _ value => some value
  | .paren _ | .connective _ _ | .lone _ => none

/-- Segments that differ at most in the value of a comparison. -/
inductive Revalued : Segment → Segment → Prop where
  | comparison (field : Token) (op : Comparison) (value value' : Token) :
      Revalued (.comparison field op value) (.comparison field op value')
  | refl (s : Segment) : Revalued s s

theorem marks_of_value?_eq_none {s : Segment} (h : s.value? = none) : s.marks = [false] := by
  cases s with
  | comparison field op value => cases h
  | paren | connective | lone => rfl

end Segment

/-! ## Tokens -/

namespace Token

/-- `Revalued ts us` says that `us` is `ts` with any tokens in the places of values. -/
structure Revalued (ts us : List Token) : Prop where
  length_eq : us.length = ts.length
  off_values : pick false (marks ts) us = pick false (marks ts) ts

instance (ts us : List Token) : Decidable (Revalued ts us) :=
  decidable_of_iff (us.length = ts.length ∧ pick false (marks ts) us = pick false (marks ts) ts)
    ⟨fun h => ⟨h.1, h.2⟩, fun h => ⟨h.length_eq, h.off_values⟩⟩

namespace Revalued

variable {t : Token} {ts us : List Token} {s : Segment}

/-- A token that is a segment by itself is kept. -/
theorem exists_cons (h : Revalued (t :: ts) us)
    (hs : Segment.ofTokens (t :: ts) = s :: Segment.ofTokens ts) (hvalue : s.value? = none) :
    ∃ us', us = t :: us' ∧ Revalued ts us' := by
  have hmarks : marks (t :: ts) = false :: marks ts := by
    rw [marks, hs, List.flatMap_cons, Segment.marks_of_value?_eq_none hvalue]
    rfl
  obtain ⟨hlength, hoff⟩ := h
  cases us with
  | nil => cases hlength
  | cons u us =>
    rw [hmarks] at hoff
    simp only [pick_cons, if_true, List.cons.injEq] at hoff
    obtain ⟨rfl, hoff⟩ := hoff
    exact ⟨us, rfl, Nat.succ.inj hlength, hoff⟩

end Revalued

end Token

namespace Expr

end Expr

end Criteria
