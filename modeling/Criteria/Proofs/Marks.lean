/-
The values of comparisons, marked in a list of tokens. A value may be any token, so a token does not
show by its text whether it is one: in `[A] = )` the parenthesis is a value, and in `( [A] )` it
closes a group. What a token is follows from the segments alone, and here they are told to the
tokens: each token of a list is marked or not, and what is picked out by the marks can be read off
the segments (`Token.pick_marks`).
-/
import Criteria.Proofs.Lookahead
import Mathlib.Data.List.Basic

set_option autoImplicit false

namespace Criteria

/-! ## Marks -/

/-- For each token of a segment, whether it is the value of a comparison. -/
def Segment.marks : Segment → List Bool
  | .comparison _ _ _ => [false, false, true]
  | .paren _ | .connective _ _ | .lone _ => [false]

theorem Segment.length_marks (s : Segment) : s.tokens.length = s.marks.length := by
  cases s <;> rfl

namespace Token

/-- For each token of a list, whether it is the value of a comparison. -/
def marks (ts : List Token) : List Bool := (Segment.ofTokens ts).flatMap Segment.marks

/-- The tokens that stand where the mark is `b`. -/
def pick (b : Bool) (ms : List Bool) (ts : List Token) : List Token :=
  ((ts.zip ms).filter fun p => p.2 = b).map Prod.fst

@[simp] theorem pick_cons (b m : Bool) (ms : List Bool) (t : Token) (ts : List Token) :
    pick b (m :: ms) (t :: ts) = if m = b then t :: pick b ms ts else pick b ms ts := by
  unfold pick
  by_cases hm : m = b
  · simp [hm]
  · simp [hm]

@[simp] theorem pick_nil (b : Bool) : pick b [] [] = [] := rfl

theorem pick_append (b : Bool) {ms : List Bool} {ts : List Token} (h : ts.length = ms.length)
    (ms' : List Bool) (ts' : List Token) :
    pick b (ms ++ ms') (ts ++ ts') = pick b ms ts ++ pick b ms' ts' := by
  unfold pick
  rw [List.zip_append h, List.filter_append, List.map_append]

/-- What the marks of some segments pick out of their tokens is picked out segment by segment. -/
theorem pick_flatMap (b : Bool) (ss : List Segment) :
    pick b (ss.flatMap Segment.marks) (ss.flatMap Segment.tokens) =
      ss.flatMap fun s => pick b s.marks s.tokens := by
  induction ss with
  | nil => rfl
  | cons s ss ih =>
    rw [List.flatMap_cons, List.flatMap_cons, List.flatMap_cons, pick_append b s.length_marks, ih]

/-- **Marks are read off the segments.** -/
theorem pick_marks (b : Bool) (ts : List Token) :
    pick b (marks ts) ts = (Segment.ofTokens ts).flatMap fun s => pick b s.marks s.tokens := by
  have hpick := pick_flatMap b (Segment.ofTokens ts)
  rwa [Segment.flatMap_tokens_ofTokens] at hpick

end Token

end Criteria
