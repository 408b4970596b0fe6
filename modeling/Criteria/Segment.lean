/-
The division of a list of tokens into segments. A parenthesis or a connective is a segment by
itself. Any other token starts an operand: with a comparison symbol after it and one more token
after that, the three are a comparison, whatever the third token is; otherwise the token stands
alone. So the value of a comparison is never taken for structure, and a comparison symbol in last
place compares nothing.

The division is total and loses nothing: the tokens of the segments are the tokens divided
(`flatMap_tokens_ofTokens`). Whether a lone token is an operand is not decided here.
-/
import Criteria.Token

set_option autoImplicit false

namespace Criteria

/-- A segment of a list of tokens. -/
inductive Segment where
  | paren (p : Paren)
  | connective (c : Connective) (word : Token)
  | comparison (field : Token) (op : Comparison) (value : Token)
  | lone (t : Token)
  deriving DecidableEq

namespace Segment

/-- The tokens of a segment. -/
def tokens : Segment → List Token
  | .paren p => [⟨[p.char]⟩]
  | .connective _ word => [word]
  | .comparison field op value => [field, ⟨op.symbol⟩, value]
  | .lone t => [t]

/-- The segment of a token that is a parenthesis or a connective. -/
def structural? (t : Token) : Option Segment :=
  match Paren.ofText? t.text with
  | some p => some (.paren p)
  | none => (Connective.ofText? t.text).map fun c => .connective c t

/-- The segments of a list of tokens. -/
def ofTokens : List Token → List Segment
  | [] => []
  | [t] => [(structural? t).getD (.lone t)]
  | [t, u] => (structural? t).getD (.lone t) :: ofTokens [u]
  | t :: u :: v :: ts =>
    match structural? t with
    | some s => s :: ofTokens (u :: v :: ts)
    | none =>
      match Comparison.ofText? u.text with
      | some op => .comparison t op v :: ofTokens ts
      | none => .lone t :: ofTokens (u :: v :: ts)

theorem tokens_of_structural? {t : Token} {s : Segment} (h : structural? t = some s) :
    s.tokens = [t] := by
  unfold structural? at h
  split at h
  · rename_i p hp
    obtain rfl := Option.some.inj h
    simp [tokens, ← Paren.ofText?_eq_some_iff.mp hp]
  · obtain ⟨c, _, rfl⟩ := Option.map_eq_some_iff.mp h
    rfl

theorem tokens_getD_structural? (t : Token) : ((structural? t).getD (.lone t)).tokens = [t] := by
  cases h : structural? t with
  | none => rfl
  | some s => exact tokens_of_structural? h

/-- The tokens of the segments are the tokens that were divided. -/
theorem flatMap_tokens_ofTokens (ts : List Token) : (ofTokens ts).flatMap tokens = ts := by
  fun_induction ofTokens ts with
  | case1 => rfl
  | case2 t => simp [tokens_getD_structural?]
  | case3 t u ih => simp [ih, tokens_getD_structural?]
  | case4 t u v ts s hs ih => simp [ih, tokens_of_structural? hs]
  | case5 t u v ts hs op hop ih => simp [ih, tokens, ← Comparison.ofText?_eq_some_iff.mp hop]
  | case6 t u v ts hs hop ih => simp [ih, tokens]

end Segment

end Criteria
