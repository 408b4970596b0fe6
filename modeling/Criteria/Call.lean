/-
A call applies a predicate to a field: `isnull([A])`, `contains([Full Name], 'a b')`. The field
is what stands between `([` and the end of the field, which is `])` for a predicate without a
value and `],` for one with a value; the argument then goes up to the next `)`. Both may hold
blanks, quotes and line ends, and both end at the first occurrence of what ends them.

A call keeps its parts as they were written, so its text is a function of it (`Call.text`) and
reading is the inverse of writing: what is read from the start of a text and what is left give
the text back (`Call.text_append_of_read?`).
-/
import Criteria.Predicate
import Criteria.Text.Blank

set_option autoImplicit false

namespace Criteria

/-- A predicate call as it was written. -/
structure Call where
  /-- The predicate that is called. -/
  predicate : Predicate
  /-- The name of the predicate, in the letter case it was written in. -/
  name : Text
  /-- The field, without its brackets. -/
  field : Text
  /-- What stands between the field and the closing parenthesis, if the predicate takes a value;
  otherwise empty. -/
  argument : Text
  deriving DecidableEq

namespace Call

/-- Whether a character is a quotation mark. -/
def isQuote (c : Char) : Bool := c == '\'' || c == '"'

/-- The value of a call is its argument without white space and then without quotation marks at
its edges. -/
def value (c : Call) : Text := (c.argument.trim Text.isBlank).trim isQuote

/-- The rule that a call stands for. -/
def rule (c : Call) : Rule := c.predicate.rule c.field c.value

/-- The text of a call. -/
def text (c : Call) : Text :=
  if c.predicate.takesValue then
    c.name ++ "([".toList ++ c.field ++ "],".toList ++ c.argument ++ ")".toList
  else c.name ++ "([".toList ++ c.field ++ "])".toList

/-! ## Reading -/

/-- Reads a call of the predicate `p` at the start of a text: the call, and the text after it. -/
def readOf? (p : Predicate) (s : Text) : Option (Call × Text) := do
  let (name, s) ← Text.spelled? p.name s
  let s ← Text.after? "([".toList s
  if p.takesValue then
    let (field, s) ← Text.before? "],".toList s
    let (argument, s) ← Text.before? ")".toList s
    some (⟨p, name, field, argument⟩, s)
  else
    let (field, s) ← Text.before? "])".toList s
    some (⟨p, name, field, []⟩, s)

/-- Reads a call at the start of a text: the call, and the text after it. No name with a
parenthesis after it starts another one, so the order in which predicates are tried is of no
importance. -/
def read? (s : Text) : Option (Call × Text) := Predicate.all.findSome? fun p => readOf? p s

/-- The call that a whole text is. -/
def whole? (s : Text) : Option Call :=
  match read? s with
  | some (c, []) => some c
  | _ => none

/-! ## Nothing is lost -/

theorem text_append_of_readOf? {p : Predicate} {s r : Text} {c : Call}
    (h : readOf? p s = some (c, r)) :
    s = c.text ++ r ∧ c.predicate = p ∧ c.name.lower = p.name := by
  simp only [readOf?, Option.bind_eq_bind, Option.bind_eq_some_iff, Prod.exists] at h
  obtain ⟨name, s₁, hname, s₂, hopen, h⟩ := h
  obtain ⟨rfl, hlower⟩ := Text.spelled?_eq_some_iff.mp hname
  obtain rfl := Text.after?_eq_some_iff.mp hopen
  split at h
  · rename_i hvalue
    simp only [Option.bind_eq_some_iff, Prod.exists, Option.some.injEq, Prod.mk.injEq] at h
    obtain ⟨field, s₃, hfield, argument, s₄, hargument, rfl, rfl⟩ := h
    rw [Text.eq_of_before? hfield, Text.eq_of_before? hargument]
    exact ⟨by simp [text, hvalue], rfl, hlower⟩
  · rename_i hvalue
    simp only [Option.bind_eq_some_iff, Prod.exists, Option.some.injEq, Prod.mk.injEq] at h
    obtain ⟨field, s₃, hfield, rfl, rfl⟩ := h
    rw [Text.eq_of_before? hfield]
    exact ⟨by simp [text, hvalue], rfl, hlower⟩

/-- A call and the text after it give back the text they were read from. -/
theorem text_append_of_read? {s r : Text} {c : Call} (h : read? s = some (c, r)) :
    s = c.text ++ r := by
  obtain ⟨p, _, hp⟩ := List.exists_of_findSome?_eq_some h
  exact (text_append_of_readOf? hp).1

theorem text_ne_nil (c : Call) : c.text ≠ [] := by
  unfold text
  split <;> simp

/-- A text that is a call is the text of that call. -/
theorem text_of_whole? {s : Text} {c : Call} (h : whole? s = some c) : s = c.text := by
  unfold whole? at h
  split at h
  · rename_i c' hread
    simpa [Option.some.inj h] using text_append_of_read? hread
  · simp at h

end Call

end Criteria
