/-
Places inside a JSON value. A path leads down from a value, at each step to the member of an object
that has some key or to an item of an array. What is said of a value "at every depth" is said of all
its paths, and what is said of the places of a value can be read off the paths that lead there.

The values that rules are written as are built from objects with one member and arrays of two items;
where their paths lead is said below, shape by shape.
-/
import Criteria.Json.Basic

set_option autoImplicit false

namespace Criteria

namespace Json

/-- One step down: to the member with a key, or to the item with a number. -/
inductive Step where
  | key (k : Text)
  | item (i : Nat)
  deriving DecidableEq

/-- What is one step below a value. -/
def child? : Json → Step → Option Json
  | .obj members, .key k => (members.find? fun m => m.1 == k).map Prod.snd
  | .arr items, .item i => items[i]?
  | _, _ => none

/-- What a path leads to. -/
def at? (v : Json) : List Step → Option Json
  | [] => some v
  | step :: path => (v.child? step).bind fun w => at? w path

variable {v w a b : Json} {k s : Text} {path : List Step}

theorem at?_str_iff : (Json.str s).at? path = some w ↔ path = [] ∧ .str s = w := by
  cases path with
  | nil => simp [at?]
  | cons step path => cases step <;> simp [at?, child?]

theorem at?_null_iff : Json.null.at? path = some w ↔ path = [] ∧ .null = w := by
  cases path with
  | nil => simp [at?]
  | cons step path => cases step <;> simp [at?, child?]

/-- An object with one member has that member below it. -/
theorem at?_single_iff : (single k v).at? path = some w ↔
    (path = [] ∧ single k v = w) ∨ ∃ rest, path = .key k :: rest ∧ v.at? rest = some w := by
  cases path with
  | nil => simp [at?]
  | cons step rest =>
    cases step with
    | item i => simp [at?, child?, single]
    | key l =>
      by_cases hl : k = l
      · simp [at?, child?, single, hl]
      · have hl' : l ≠ k := fun h => hl h.symm
        simp [at?, child?, single, hl, hl']

/-- An array of two items has the first and the second one below it. -/
theorem at?_pair_iff : (Json.arr [a, b]).at? path = some w ↔
    (path = [] ∧ .arr [a, b] = w) ∨ (∃ rest, path = .item 0 :: rest ∧ a.at? rest = some w) ∨
      ∃ rest, path = .item 1 :: rest ∧ b.at? rest = some w := by
  cases path with
  | nil => simp [at?]
  | cons step rest =>
    cases step with
    | key l => simp [at?, child?]
    | item i =>
      match i with
      | 0 => simp [at?, child?]
      | 1 => simp [at?, child?]
      | i + 2 => simp [at?, child?]

end Json

end Criteria
