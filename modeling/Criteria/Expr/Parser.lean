/-
Expressions from tokens, by operator precedence with two stacks. One stack holds the operands
that are complete, the other what is still pending: open groups, and connectives whose right
operand has not been read in full. Segments are taken from left to right and the first error
ends the work.

The one loop of the method is `unwind`: it applies pending connectives, from the top, as long as
they satisfy a condition, and stops at an open group. At `and` and `or` the condition is to bind
at least as tightly, which makes both associate to the left; at `)` and at the end there is no
condition, and what the loop stops at decides whether parentheses balance.
-/
import Criteria.Error

set_option autoImplicit false

namespace Criteria

/-- What waits for more tokens: a group for its closing parenthesis, a connective for its right
operand. -/
inductive Pending where
  | group
  | connective (c : Connective)
  deriving DecidableEq

/-- The state between two segments; both stacks have their top first. -/
structure Stacks where
  /-- The expressions read so far that nothing has used yet. -/
  operands : List Expr
  /-- What waits for more tokens. -/
  pending : List Pending
  deriving DecidableEq

namespace Stacks

/-- The state before the first segment. -/
def empty : Stacks := ⟨[], []⟩

/-- Puts an operand on top. -/
def pushOperand (e : Expr) (st : Stacks) : Stacks := ⟨e :: st.operands, st.pending⟩

/-- Makes a group or a connective wait. -/
def pushPending (p : Pending) (st : Stacks) : Stacks := ⟨st.operands, p :: st.pending⟩

/-- Applies a connective to the operands on top, the right one first. -/
def combine : Connective → List Expr → Except Error (List Expr)
  | .not, e :: es => .ok (.not e :: es)
  | .and, r :: l :: es => .ok (.and l r :: es)
  | .or, r :: l :: es => .ok (.or l r :: es)
  | c, _ => .error (.missingOperand c)

/-- Applies the pending connectives from the top for as long as they satisfy `p`. -/
def unwind (p : Connective → Bool) (operands : List Expr) : List Pending → Except Error Stacks
  | .connective c :: pending =>
    if p c then
      match combine c operands with
      | .ok operands => unwind p operands pending
      | .error e => .error e
    else .ok ⟨operands, .connective c :: pending⟩
  | pending => .ok ⟨operands, pending⟩

/-- Applies every connective that is pending in the innermost open group. -/
def unwindGroup (st : Stacks) : Except Error Stacks := unwind (fun _ => true) st.operands st.pending

/-- Closes the innermost open group. -/
def close (st : Stacks) : Except Error Stacks := do
  match ← st.unwindGroup with
  | ⟨_, []⟩ => .error (.unbalanced .closing)
  | ⟨operands, _ :: pending⟩ => .ok ⟨operands, pending⟩

/-- Makes a connective wait for its right operand. `and` and `or` first apply the pending
connectives that bind at least as tightly. -/
def connect (c : Connective) (st : Stacks) : Except Error Stacks :=
  match c with
  | .not => .ok (st.pushPending (.connective .not))
  | c => do
    let st ← unwind (fun top => c.precedence ≤ top.precedence) st.operands st.pending
    .ok (st.pushPending (.connective c))

/-- Takes one segment. -/
def step (st : Stacks) : Segment → Except Error Stacks
  | .paren .opening => .ok (st.pushPending .group)
  | .paren .closing => st.close
  | .connective c _ => st.connect c
  | .comparison field op value => .ok (st.pushOperand (.atom (.compare field op value)))
  | .lone t =>
    match Atom.ofToken? t with
    | some a => .ok (st.pushOperand (.atom a))
    | none => .error (.unrecognized t)

/-- Takes segments in order, up to the first error. -/
def run (st : Stacks) : List Segment → Except Error Stacks
  | [] => .ok st
  | s :: ss => do (← st.step s).run ss

/-- The expression that is left when everything pending has been applied. -/
def result (st : Stacks) : Except Error Expr := do
  match ← st.unwindGroup with
  | ⟨_, _ :: _⟩ => .error (.unbalanced .opening)
  | ⟨[], []⟩ => .error .noOperand
  | ⟨[e], []⟩ => .ok e
  | ⟨operands, []⟩ => .error (.unjoined operands.reverse)

end Stacks

/-- The expression that a list of tokens spells. -/
def Expr.ofTokens (ts : List Token) : Except Error Expr := do
  (← Stacks.empty.run (Segment.ofTokens ts)).result

end Criteria
