/-
The six forms of a call, written out. `n([f])` tests whether the field `f` is null or empty, and
`n([f],r)` compares it with the value in `r`; the name `n` may be in any letter case. The field does
not hold what ends it, `])` in the one case and `],` in the other, and `r` holds no `)`. Nothing
else is asked of the two: they may be empty, hold brackets, quotation marks and line ends, and `]`
may stand before the end of the field, as in `contains([A]],x)`.

A text that is a call as a whole is in one of these forms, and in one way only, since the name ends
at the first `(`, the field at the first of its ends, and `r` at the end of the text. The value is
what is left of `r` when it loses white space at its edges, and then quotation marks.
-/
import Criteria.Proofs.Calls
import Criteria.Proofs.Literals

set_option autoImplicit false

namespace Criteria

/-! ## Trimming -/

namespace Text

/-- `Strips p s t` says that `t` is `s` without the characters at its edges that satisfy `p`. -/
structure Strips (p : Char → Bool) (s t : Text) : Prop where
  edges : ∃ a b, s = a ++ t ++ b ∧ a.all p = true ∧ b.all p = true
  edge_free : t.EdgeFree p

theorem strips_trim (p : Char → Bool) (s : Text) : Strips p s (s.trim p) := by
  have hstart : s.takeWhile p ++ s.dropWhile p = s := List.takeWhile_append_dropWhile
  have hend : s.trim p ++ (s.dropWhile p).rtakeWhile p = s.dropWhile p :=
    List.rdropWhile_append_rtakeWhile
  refine ⟨⟨s.takeWhile p, (s.dropWhile p).rtakeWhile p, ?_, List.all_takeWhile, ?_⟩,
    edgeFree_trim p s⟩
  · rw [List.append_assoc, hend, hstart]
  · rw [List.rtakeWhile, List.all_reverse]
    exact List.all_takeWhile

end Text

/-! ## Forms -/

namespace Predicate

/-- The predicates that are applied to a field alone. -/
def unary : List Predicate := [.isNullOrEmpty, .isNull, .isNotNull]

/-- The predicates that compare a field with a value. -/
def binary : List Predicate := [.contains, .startsWith, .endsWith]

theorem mem_unary_iff {p : Predicate} : p ∈ unary ↔ p.takesValue = false := by
  cases p <;> decide

theorem mem_binary_iff {p : Predicate} : p ∈ binary ↔ p.takesValue = true := by
  cases p <;> decide

end Predicate

namespace Call

/-- `Form s c` says that the text `s` is in one of the six forms, with the parts that `c` has. -/
inductive Form : Text → Call → Prop where
  /-- The form `n([f])`. -/
  | unary {p : Predicate} {n f : Text} :
      p ∈ Predicate.unary → n.lower = p.name → ¬ "])".toList <:+: f →
      Form (n ++ "([".toList ++ f ++ "])".toList) ⟨p, n, f, []⟩
  /-- The form `n([f],r)`. -/
  | binary {p : Predicate} {n f r : Text} :
      p ∈ Predicate.binary → n.lower = p.name → ¬ "],".toList <:+: f → ')' ∉ r →
      Form (n ++ "([".toList ++ f ++ "],".toList ++ r ++ ")".toList) ⟨p, n, f, r⟩

/-- The texts in the six forms are the texts of well-formed calls. -/
theorem form_iff {s : Text} {c : Call} : Form s c ↔ c.WellFormed ∧ s = c.text := by
  constructor
  · intro h
    cases h with
    | @unary p n f hp hn hf =>
      have hvalue := Predicate.mem_unary_iff.mp hp
      refine ⟨⟨hn, ?_, ?_⟩, ?_⟩
      · simpa [Predicate.fieldEnd, hvalue] using hf
      · simp [hvalue]
      · simp [text, hvalue]
    | @binary p n f r hp hn hf hr =>
      have hvalue := Predicate.mem_binary_iff.mp hp
      refine ⟨⟨hn, ?_, ?_⟩, ?_⟩
      · simpa [Predicate.fieldEnd, hvalue] using hf
      · simpa [hvalue] using hr
      · simp [text, hvalue]
  · rintro ⟨⟨hn, hf, hr⟩, rfl⟩
    obtain ⟨p, n, f, r⟩ := c
    rw [Predicate.fieldEnd] at hf
    by_cases hvalue : p.takesValue = true
    · rw [if_pos hvalue] at hf hr
      rw [text, if_pos hvalue]
      exact .binary (Predicate.mem_binary_iff.mpr hvalue) hn hf hr
    · rw [if_neg hvalue] at hf hr
      obtain rfl : r = [] := hr
      rw [text, if_neg hvalue]
      exact .unary (Predicate.mem_unary_iff.mpr (Bool.eq_false_iff.mpr hvalue)) hn hf

theorem whole?_eq_some_iff_form {s : Text} {c : Call} : whole? s = some c ↔ Form s c := by
  rw [whole?_eq_some_iff, read?_eq_some_iff, List.append_nil, form_iff]

theorem value_eq_nil {c : Call} (h : c.argument = []) : c.value = [] := by
  rw [value, h]
  rfl

/-- **A text is a call exactly if it is in one of the six forms.** The call then has the parts of
the form, which the text determines, and the length of the text. Without an argument it has no
value; otherwise its value is the argument without white space at its edges and then without
quotation marks. -/
theorem whole?_iff_form (s : Text) :
    (∀ c, whole? s = some c ↔ Form s c) ∧
    (∀ c, Form s c → c.text.byteSize = s.byteSize ∧
      (c.predicate ∈ Predicate.unary → c.value = []) ∧
      ∃ inner, Text.Strips Text.isBlank c.argument inner ∧ Text.Strips isQuote inner c.value) ∧
    (∀ c d, Form s c → Form s d → c = d) := by
  refine ⟨fun c => whole?_eq_some_iff_form, fun c hform => ⟨?_, fun hp => ?_, ?_⟩,
    fun c d hc hd => ?_⟩
  · rw [← (form_iff.mp hform).2]
  · have hargument := (form_iff.mp hform).1.argument
    rw [Predicate.mem_unary_iff.mp hp] at hargument
    exact value_eq_nil hargument
  · exact ⟨_, Text.strips_trim _ _, Text.strips_trim _ _⟩
  · -- The reader finds one call only.
    have hsame := (whole?_eq_some_iff_form.mpr hc).symm.trans (whole?_eq_some_iff_form.mpr hd)
    exact Option.some.inj hsame

/-- In `Contains([A]]),], ' "x'' )` the field goes on behind `])`, which ends fields of the other
form only, and the value loses the quotation marks next to the letter, but not the one that white
space keeps from the edge. -/
theorem whole?_iff_form_brackets : ∃ c : Call,
    c.predicate = .contains ∧ c.field = "A]]),".toList ∧ c.value = " \"x".toList ∧
    Form "Contains([A]]),], ' \"x'' )".toList c ∧
    whole? "Contains([A]]),], ' \"x'' )".toList = some c ∧
    c.text.byteSize = 26 ∧ ∀ d, Form "Contains([A]]),], ' \"x'' )".toList d → d = c := by
  have hform : Form "Contains([A]]),], ' \"x'' )".toList
      ⟨.contains, "Contains".toList, "A]]),".toList, " ' \"x'' ".toList⟩ :=
    .binary (p := .contains) (n := "Contains".toList) (f := "A]]),".toList)
      (r := " ' \"x'' ".toList) (by decide) (by decide) (by decide) (by decide)
  obtain ⟨hwhole, hparts, hunique⟩ := whole?_iff_form "Contains([A]]),], ' \"x'' )".toList
  exact ⟨_, rfl, rfl, by decide, hform, (hwhole _).mpr hform, (hparts _ hform).1,
    fun d hd => hunique d _ hd hform⟩

end Call

end Criteria
