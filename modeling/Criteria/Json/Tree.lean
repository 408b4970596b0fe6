/-
The JSON values that stand for rules, by a grammar (`Json.IsTree`): a string, a variable, a test of a
variable, a negated value, or two values joined. It is said without rules and without the way from
criteria to rules, and it is what a reader of the values may rely on.

The grammar says what a value is made of. What it says about every place inside a value is stated in
the words of paths: an object has one member, with one of thirteen keys and with what belongs to that
key, and null is the second argument of a test for null and stands nowhere else
(`IsTree.shaped`).
-/
import Criteria.Json.Path

set_option autoImplicit false

namespace Criteria

namespace Json

/-! ## The grammar -/

/-- The object of a variable. -/
def var (name : Text) : Json := single "var".toList (.str name)

/-- The object of an operator with two arguments. -/
def binary (operator : Text) (a b : Json) : Json := single operator (.arr [a, b])

/-- The operators that compare a variable with null. -/
def equalities : List Text := ["==", "!="].map String.toList

/-- The operators that compare a variable with a string. -/
def comparisons : List Text := equalities ++ [">", "<", ">=", "<="].map String.toList

/-- The operators with two arguments. -/
def operators : List Text :=
  comparisons ++ ["and", "or", "in", "startsWith", "endsWith"].map String.toList

/-- The values that stand for rules. -/
inductive IsTree : Json → Prop where
  | text (s : Text) : IsTree (.str s)
  | var (name : Text) : IsTree (.var name)
  | comparison {operator : Text} (name s : Text) :
      operator ∈ comparisons → IsTree (.binary operator (.var name) (.str s))
  | isNull {operator : Text} (name : Text) :
      operator ∈ equalities → IsTree (.binary operator (.var name) .null)
  | isNullOrEmpty (name : Text) :
      IsTree (.binary "or".toList (.binary "==".toList (.var name) .null)
        (.binary "==".toList (.var name) (.str [])))
  | contains (name s : Text) : IsTree (.binary "in".toList (.str s) (.var name))
  | startsWith (name s : Text) : IsTree (.binary "startsWith".toList (.var name) (.str s))
  | endsWith (name s : Text) : IsTree (.binary "endsWith".toList (.var name) (.str s))
  | negation {v : Json} : IsTree v → IsTree (single "!".toList v)
  | and {v w : Json} : IsTree v → IsTree w → IsTree (.binary "and".toList v w)
  | or {v w : Json} : IsTree v → IsTree w → IsTree (.binary "or".toList v w)

/-! ## Every depth -/

/-- `Takes k v`: the value `v` is what belongs to the key `k`. A variable has a string, a negation
has a value that stands for a rule, with no array around it, and every other operator has two
arguments. -/
inductive Takes : Text → Json → Prop where
  | var (name : Text) : Takes "var".toList (.str name)
  | negation {v : Json} : IsTree v → Takes "!".toList v
  | binary {operator : Text} (a b : Json) : operator ∈ operators → Takes operator (.arr [a, b])

/-- What holds at every depth of a value. -/
structure Shaped (v : Json) : Prop where
  /-- Every object has one member, with a known key and what belongs to it. -/
  single_member : ∀ path members, v.at? path = some (.obj members) →
    ∃ k w, members = [(k, w)] ∧ Takes k w
  /-- Null is the second argument of an equality. -/
  null_second : ∀ path, v.at? path = some .null →
    ∃ front k, path = front ++ [.key k, .item 1] ∧ k ∈ equalities

theorem shaped_str (s : Text) : (Json.str s).Shaped where
  single_member := by
    intro path members h
    cases (at?_str_iff.mp h).2
  null_second := by
    intro path h
    cases (at?_str_iff.mp h).2

theorem shaped_var (name : Text) : (Json.var name).Shaped where
  single_member := by
    intro path members h
    rcases at?_single_iff.mp h with ⟨-, hv⟩ | ⟨rest, -, hrest⟩
    · cases hv
      exact ⟨_, _, rfl, .var name⟩
    · cases (at?_str_iff.mp hrest).2
  null_second := by
    intro path h
    rcases at?_single_iff.mp h with ⟨-, hv⟩ | ⟨rest, -, hrest⟩
    · cases hv
    · cases (at?_str_iff.mp hrest).2

theorem Shaped.negation {v : Json} (h : v.Shaped) (hv : v.IsTree) :
    (single "!".toList v).Shaped where
  single_member := by
    intro path members hpath
    rcases at?_single_iff.mp hpath with ⟨-, heq⟩ | ⟨rest, -, hrest⟩
    · cases heq
      exact ⟨_, _, rfl, .negation hv⟩
    · exact h.single_member rest members hrest
  null_second := by
    intro path hpath
    rcases at?_single_iff.mp hpath with ⟨-, heq⟩ | ⟨rest, rfl, hrest⟩
    · cases heq
    · obtain ⟨front, k, rfl, hk⟩ := h.null_second rest hrest
      exact ⟨.key "!".toList :: front, k, rfl, hk⟩

/-- An operator keeps the shape of its arguments; as the second argument of an equality it also takes
null. -/
theorem Shaped.binary {operator : Text} {a b : Json} (ho : operator ∈ operators) (ha : a.Shaped)
    (hb : b.Shaped ∨ b = .null ∧ operator ∈ equalities) : (Json.binary operator a b).Shaped where
  single_member := by
    intro path members hpath
    rcases at?_single_iff.mp hpath with ⟨-, heq⟩ | ⟨rest, -, hrest⟩
    · cases heq
      exact ⟨_, _, rfl, .binary a b ho⟩
    · rcases at?_pair_iff.mp hrest with ⟨-, heq⟩ | ⟨rest, -, hrest⟩ | ⟨rest, -, hrest⟩
      · cases heq
      · exact ha.single_member rest members hrest
      · rcases hb with hb | ⟨rfl, -⟩
        · exact hb.single_member rest members hrest
        · cases (at?_null_iff.mp hrest).2
  null_second := by
    intro path hpath
    rcases at?_single_iff.mp hpath with ⟨-, heq⟩ | ⟨rest, rfl, hrest⟩
    · cases heq
    · rcases at?_pair_iff.mp hrest with ⟨-, heq⟩ | ⟨rest, rfl, hrest⟩ | ⟨rest, rfl, hrest⟩
      · cases heq
      · obtain ⟨front, k, rfl, hk⟩ := ha.null_second rest hrest
        exact ⟨.key operator :: .item 0 :: front, k, rfl, hk⟩
      · rcases hb with hb | ⟨rfl, ho⟩
        · obtain ⟨front, k, rfl, hk⟩ := hb.null_second rest hrest
          exact ⟨.key operator :: .item 1 :: front, k, rfl, hk⟩
        · -- The one place of null.
          obtain ⟨rfl, -⟩ := at?_null_iff.mp hrest
          exact ⟨[], operator, rfl, ho⟩

theorem mem_operators_of_mem_comparisons {operator : Text} (h : operator ∈ comparisons) :
    operator ∈ operators := List.mem_append_left _ h

theorem mem_comparisons_of_mem_equalities {operator : Text} (h : operator ∈ equalities) :
    operator ∈ comparisons := List.mem_append_left _ h

/-- **What the grammar says of every depth.** -/
theorem IsTree.shaped {v : Json} (h : v.IsTree) : v.Shaped := by
  have hisNull : ∀ {operator : Text} (name : Text), operator ∈ equalities →
      (Json.binary operator (.var name) .null).Shaped := by
    intro operator name ho
    have hop := mem_operators_of_mem_comparisons (mem_comparisons_of_mem_equalities ho)
    exact .binary hop (shaped_var name) (.inr ⟨rfl, ho⟩)
  induction h with
  | text s => exact shaped_str s
  | var name => exact shaped_var name
  | comparison name s ho =>
    exact .binary (mem_operators_of_mem_comparisons ho) (shaped_var name) (.inl (shaped_str s))
  | isNull name ho => exact hisNull name ho
  | isNullOrEmpty name =>
    have hempty : (Json.binary "==".toList (.var name) (.str [])).Shaped :=
      .binary (by decide) (shaped_var name) (.inl (shaped_str []))
    exact .binary (by decide) (hisNull name (by decide)) (.inl hempty)
  | contains name s =>
    exact .binary (by decide) (shaped_str s) (.inl (shaped_var name))
  | startsWith name s =>
    exact .binary (by decide) (shaped_var name) (.inl (shaped_str s))
  | endsWith name s =>
    exact .binary (by decide) (shaped_var name) (.inl (shaped_str s))
  | negation hv ih => exact ih.negation hv
  | and _ _ ihv ihw => exact .binary (by decide) ihv (.inl ihw)
  | or _ _ ihv ihw => exact .binary (by decide) ihv (.inl ihw)

end Json

end Criteria
