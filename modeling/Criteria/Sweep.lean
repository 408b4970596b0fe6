/-
The tokens of a criterion by one sweep over its bytes. A cursor moves from left to right; where a
keyword, a parenthesis, white space or a predicate call starts, the text since the last cut is cut off,
and the cursor jumps behind what starts there. Readers look ahead with cursors of their own and hand
back nothing but a number of bytes, so the sweep itself only adds offsets and takes slices between them.

Every slice and every move may be at fault, and a turn that does not move the cursor forward is one as
well (`Text.Fault.stuck`). That a sweep finds the tokens of the criterion (`Token.ofText`) and is never
at fault is for proofs to show.
-/
import Criteria.Piece
import Criteria.Text.Cursor

set_option autoImplicit false

namespace Criteria

open Text (Fault Cursor)

/-! ## Calls -/

/-- What is found of a predicate call. -/
structure Found where
  /-- The predicate that is called. -/
  predicate : Predicate
  /-- The field, without its brackets. -/
  field : Text
  /-- The value, without quotation marks; empty for a predicate that takes none. -/
  value : Text
  /-- The number of bytes of the whole call. -/
  length : Nat
  deriving DecidableEq, Repr

namespace Found

/-- Looks behind the opening bracket for the rest of a call without a value that starts at `start`. -/
def bare (p : Predicate) (start : Nat) (k : Cursor) : Except Fault (Option Found) := do
  let some (field, fieldEnd) ← k.captureUntil "])".toList | return none
  let stop ← fieldEnd.orStay (fieldEnd.consume "])".toList)
  return some ⟨p, field, [], stop.pos - start⟩

/-- Looks behind the opening bracket for the rest of a call with a value that starts at `start`. -/
def valued (p : Predicate) (start : Nat) (k : Cursor) : Except Fault (Option Found) := do
  let some (field, fieldEnd) ← k.captureUntil "],".toList | return none
  let comma ← fieldEnd.orStay (fieldEnd.consume "],".toList)
  let some (raw, rawEnd) ← (← comma.skipBlank).captureUntil ")".toList | return none
  let stop ← rawEnd.orStay (rawEnd.consumeChar ')')
  return some ⟨p, field, (raw.trim Text.isBlank).trim Call.isQuote, stop.pos - start⟩

/-- Looks for a call of the predicate `p` behind a cursor. -/
def form (k : Cursor) (p : Predicate) : Except Fault (Option Found) := do
  let some named ← k.consume p.name | return none
  let some opened ← named.consume "([".toList | return none
  if p.takesValue then valued p k.pos opened else bare p k.pos opened

/-- Looks for a call of any predicate behind a cursor. -/
def call (k : Cursor) : Except Fault (Option Found) := Predicate.all.findSomeM? (form k)

end Found

/-! ## Cuts -/

/-- A cut at a cursor, with the number of bytes that are cut off there. -/
inductive Cut where
  | separator (length : Nat)
  | token (length : Nat)
  deriving DecidableEq, Repr

namespace Cut

/-- The number of bytes that are cut off. -/
def length : Cut → Nat
  | .separator n => n
  | .token n => n

/-- The text of the token that is cut off at a cursor; empty if none is. -/
def piece (k : Cursor) : Cut → Except Fault Text
  | .separator _ => .ok []
  | .token n => k.text.slice k.pos (k.pos + n)

/-- Looks for the keyword of a connective behind a cursor, with no character of a word behind it. -/
def keywordOf (k : Cursor) (c : Connective) : Except Fault (Option Nat) := do
  if ← k.peek c.keyword then
    let rest ← k.rest
    let behind ← rest.slice c.keyword.byteSize rest.byteSize
    return if behind.head?.any Text.isWord then none else some c.keyword.byteSize
  else return none

/-- Looks for a keyword behind a cursor that has no character of a word before it. -/
def keyword (k : Cursor) : Except Fault (Option Nat) := do
  if (← k.previous).any Text.isWord then return none
  else Connective.all.findSomeM? (keywordOf k)

/-- Looks for a cut at a cursor. -/
def next (k : Cursor) : Except Fault (Option Cut) := do
  match ← keyword k with
  | some n => return some (.token n)
  | none =>
    match ← k.next with
    | none => return none
    | some c =>
      if (Paren.ofChar? c).isSome then return some (.token 1)
      else if Text.isBlank c then return some (.separator ((← k.skipBlank).pos - k.pos))
      else return (← Found.call k).map fun found => .token found.length

end Cut

/-! ## The sweep -/

/-- The state of a sweep. -/
structure Sweep where
  /-- Where the sweep is. -/
  cursor : Cursor
  /-- The offset behind the last cut. -/
  pending : Nat
  /-- The tokens found so far, the first one first. -/
  tokens : List Token
  deriving DecidableEq

namespace Sweep

/-- The state before the first turn. -/
def start (s : Text) : Sweep := ⟨⟨s, 0⟩, 0, []⟩

/-- Adds the token that a slice is without white space at its edges, if anything is left of it. -/
def push (ts : List Token) (s : Text) : List Token :=
  if s.trim Text.isBlank = [] then ts else ts ++ [⟨s.trim Text.isBlank⟩]

/-- One turn: a cut at the cursor, or else a move by one character. -/
def turn (st : Sweep) : Except Fault Sweep := do
  match ← Cut.next st.cursor with
  | none => return { st with cursor := ← st.cursor.orStay st.cursor.bump }
  | some cut =>
    let passed ← st.cursor.text.slice st.pending st.cursor.pos
    let piece ← cut.piece st.cursor
    let cursor ← st.cursor.advance cut.length
    return ⟨cursor, cursor.pos, push (push st.tokens passed) piece⟩

/-- What is pending when the cursor is at the end is the last token. -/
def finish (st : Sweep) : Except Fault (List Token) :=
  return push st.tokens (← st.cursor.text.slice st.pending st.cursor.text.byteSize)

/-- Takes turns until the cursor is at the end. -/
def run (st : Sweep) : Except Fault (List Token) :=
  if st.cursor.atEnd then st.finish
  else
    match st.turn with
    | .error f => .error f
    | .ok next =>
      if next.cursor.left < st.cursor.left then next.run else .error (.stuck st.cursor.pos)
termination_by st.cursor.left

/-- The states before each turn of a sweep and before its end. -/
inductive Reached (s : Text) : Sweep → Prop where
  | start : Reached s (start s)
  | turn {st next : Sweep} : Reached s st → st.cursor.atEnd = false → st.turn = .ok next →
    Reached s next

end Sweep

/-- The tokens of a criterion, found by a sweep. -/
def Token.sweep (s : Text) : Except Fault (List Token) := (Sweep.start s).run

end Criteria
