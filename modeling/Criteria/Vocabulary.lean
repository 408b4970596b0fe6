/-
The fixed words of criteria: parentheses, connectives and comparison symbols. A connective may be
spelled in any letter case; parentheses and comparison symbols have no letters and are read as
they stand.

Each kind of word is a finite type with its spelling as a function out of it, and a reader that
takes a whole text back to the word it spells.
-/
import Criteria.Text.Basic

set_option autoImplicit false

namespace Criteria

/-! ## Parentheses -/

/-- One of the two parentheses. -/
inductive Paren where
  | opening
  | closing
  deriving DecidableEq, Repr

namespace Paren

/-- The character of a parenthesis. -/
def char : Paren → Char
  | .opening => '('
  | .closing => ')'

/-- The parenthesis that a character is. -/
def ofChar? (c : Char) : Option Paren :=
  if c = '(' then some .opening else if c = ')' then some .closing else none

/-- The parenthesis that a whole text is. -/
def ofText? : Text → Option Paren
  | [c] => ofChar? c
  | _ => none

theorem ofChar?_eq_some_iff {c : Char} {p : Paren} : ofChar? c = some p ↔ c = p.char := by
  cases p <;> grind [ofChar?, char]

theorem ofText?_eq_some_iff {s : Text} {p : Paren} : ofText? s = some p ↔ s = [p.char] := by
  match s with
  | [] => simp [ofText?]
  | [c] => simp [ofText?, ofChar?_eq_some_iff]
  | _ :: _ :: _ => simp [ofText?]

end Paren

/-! ## Connectives -/

/-- A connective: `and` and `or` join two operands, `not` takes one. -/
inductive Connective where
  | and
  | or
  | not
  deriving DecidableEq, Repr

namespace Connective

/-- Every connective. -/
def all : List Connective := [.and, .or, .not]

theorem mem_all (c : Connective) : c ∈ all := by cases c <;> decide

/-- The keyword of a connective. -/
def keyword : Connective → Text
  | .and => "and".toList
  | .or => "or".toList
  | .not => "not".toList

/-- How tightly a connective binds. -/
def precedence : Connective → Nat
  | .or => 1
  | .and => 2
  | .not => 3

/-- The connective that a whole text spells, in any letter case. -/
def ofText? (s : Text) : Option Connective := all.find? fun c => s.lower == c.keyword

theorem ofText?_eq_some_iff {s : Text} {c : Connective} :
    ofText? s = some c ↔ s.lower = c.keyword := by
  constructor
  · intro h
    simpa using List.find?_some h
  · intro h
    cases c <;> simp [ofText?, all, h, keyword]

end Connective

/-! ## Comparisons -/

/-- A comparison of a field with a value. -/
inductive Comparison where
  | eq
  | ne
  | gt
  | lt
  | ge
  | le
  deriving DecidableEq, Repr

namespace Comparison

/-- Every comparison. -/
def all : List Comparison := [.eq, .ne, .gt, .lt, .ge, .le]

/-- The symbol of a comparison in criteria. -/
def symbol : Comparison → Text
  | .eq => "=".toList
  | .ne => "<>".toList
  | .gt => ">".toList
  | .lt => "<".toList
  | .ge => ">=".toList
  | .le => "<=".toList

/-- The operator of a comparison in rules. -/
def operator : Comparison → Text
  | .eq => "==".toList
  | .ne => "!=".toList
  | .gt => ">".toList
  | .lt => "<".toList
  | .ge => ">=".toList
  | .le => "<=".toList

/-- The comparison that a whole text is the symbol of. -/
def ofText? (s : Text) : Option Comparison := all.find? fun c => s == c.symbol

theorem ofText?_eq_some_iff {s : Text} {c : Comparison} : ofText? s = some c ↔ s = c.symbol := by
  constructor
  · intro h
    simpa using List.find?_some h
  · rintro rfl
    cases c <;> decide

end Comparison

end Criteria
