/-
Printed criteria. An expression is printed as a list of lexemes, which are tokens of restricted
shape, and the lexemes are set with white space around them. Three things are free: the letter
case of keywords, groups around what needs none, and the white space, of which there must be some
between two lexemes unless one of them is a parenthesis.

Two kinds of lexeme have a text that is chosen freely. A predicate call may hold anything that
keeps it a whole call. Every other condition is printed with plain words only: texts that white
space, a parenthesis or a keyword would not break up.
-/
import Criteria.Expr.Grammar
import Criteria.Text.Word

set_option autoImplicit false

namespace Criteria

/-! ## Plain words -/

/-- A text that is not broken up: it has no white space, no parenthesis, and no keyword that
stands as a whole word in it. -/
structure Text.Plain (s : Text) : Prop where
  ne_nil : s ≠ []
  not_blank : ∀ c ∈ s, isBlank c = false
  not_paren : ∀ c ∈ s, Paren.ofChar? c = none
  not_keyword : ∀ a w b, s = a ++ w ++ b → (Connective.ofText? w).isSome →
    a.getLast?.any isWord ∨ b.head?.any isWord

/-- Decides whether a text is plain. A keyword in it stands at some place and has some length, so
there are finitely many places to look at. -/
def Text.isPlain (s : Text) : Bool :=
  !s.isEmpty && s.all (fun c => !isBlank c && (Paren.ofChar? c).isNone) &&
    (List.range (s.length + 1)).all fun i => (List.range (s.length + 1)).all fun n =>
      (Connective.ofText? ((s.drop i).take n)).isNone ||
        ((s.take i).getLast?.any isWord || (s.drop (i + n)).head?.any isWord)

theorem Text.isPlain_iff {s : Text} : s.isPlain = true ↔ s.Plain := by
  simp only [isPlain, Bool.and_eq_true, Bool.or_eq_true, Bool.not_eq_true', List.all_eq_true,
    List.mem_range, Nat.lt_succ_iff, Option.isNone_iff_eq_none]
  constructor
  · rintro ⟨⟨hne, hchars⟩, hplaces⟩
    refine ⟨List.isEmpty_eq_false_iff.mp hne, fun c hc => (hchars c hc).1,
      fun c hc => (hchars c hc).2, ?_⟩
    rintro a w b rfl hw
    have hlength : (a ++ w ++ b).length = a.length + w.length + b.length := by
      rw [List.length_append, List.length_append]
    have hplace := hplaces a.length (by omega) w.length (by omega)
    rw [← List.drop_drop, List.append_assoc, List.take_left, List.drop_left, List.take_left,
      List.drop_left] at hplace
    rcases hplace with hnone | hbeside
    · rw [hnone] at hw
      cases hw
    · exact hbeside
  · intro h
    refine ⟨⟨List.isEmpty_eq_false_iff.mpr h.ne_nil, fun c hc => ⟨h.not_blank c hc,
      h.not_paren c hc⟩⟩, fun i _ n _ => ?_⟩
    cases hw : Connective.ofText? ((s.drop i).take n) with
    | none => exact .inl rfl
    | some c =>
      refine .inr (h.not_keyword _ _ _ ?_ (by rw [hw]; rfl))
      rw [List.append_assoc, ← List.drop_drop, List.take_append_drop, List.take_append_drop]

instance (s : Text) : Decidable s.Plain := decidable_of_iff _ Text.isPlain_iff

/-! ## Lexemes -/

namespace Token

/-- The lexeme `[name]`. -/
def ofField (name : Text) : Token := ⟨'[' :: (name ++ [']'])⟩

/-- The lexeme `#s#`. -/
def ofDate (s : Text) : Token := ⟨'#' :: (s ++ ['#'])⟩

end Token

/-- `Atom.Printed ts a` says that the lexemes `ts` are a print of the condition `a`. -/
inductive Atom.Printed : List Token → Atom → Prop where
  /-- A comparison `[name] op value`. -/
  | comparison {name value : Text} {op : Comparison} :
      (Token.ofField name).text.Plain → value.Plain →
      Printed [.ofField name, ⟨op.symbol⟩, ⟨value⟩] (.comparison name op (literal value))
  /-- A predicate call. -/
  | call {s : Text} {c : Call} : Call.whole? s = some c → Printed [⟨s⟩] (.call c)
  /-- A date `#s#`. -/
  | date {s : Text} : (Token.ofDate s).text.Plain → Printed [.ofDate s] (.date (s.trim (· == '#')))
  /-- A field `[name]`. -/
  | field {name : Text} : (Token.ofField name).text.Plain → Printed [.ofField name] (.field name)

namespace Token

/-- Lexemes as the grammar takes them: parentheses and connectives as for tokens, and the printed
conditions. -/
def lexemes : Terminals Token := { terminals with atom := Atom.Printed }

/-- Whether a token is a parenthesis. -/
def isParen (t : Token) : Bool := (Paren.ofText? t.text).isSome

/-! ## Setting -/

/-- `Spaced prev ts s` says that the text `s`, which stands after the token `prev`, is the tokens
`ts` with white space around them. There is white space between two tokens unless one of them is a
parenthesis. -/
inductive Spaced : Option Token → List Token → Text → Prop where
  | nil {prev : Option Token} {gap : Text} : gap.isBlankText → Spaced prev [] gap
  | cons {prev : Option Token} {t : Token} {ts : List Token} {gap s : Text} :
      gap.isBlankText → (gap = [] → t.isParen ∨ ∀ p ∈ prev, p.isParen) →
      Spaced (some t) ts s → Spaced prev (t :: ts) (gap ++ (t.text ++ s))

/-- The white space before the first token has some length, and behind the token the rest is set
in the same way. -/
theorem spaced_cons_iff {prev : Option Token} {t : Token} {ts : List Token} {s : Text} :
    Spaced prev (t :: ts) s ↔ ∃ n < s.length + 1, Text.isBlankText (s.take n) ∧
      (s.take n = [] → t.isParen ∨ ∀ p ∈ prev, p.isParen) ∧
      ∃ r ∈ Text.after? t.text (s.drop n), Spaced (some t) ts r := by
  constructor
  · intro h
    cases h with
    | @cons _ _ _ gap s hgap hjoin hs =>
      refine ⟨gap.length, ?_, ?_⟩
      · rw [List.length_append]
        omega
      · rw [List.take_left, List.drop_left]
        exact ⟨hgap, hjoin, s, Text.after?_eq_some_iff.mpr rfl, hs⟩
  · rintro ⟨n, -, hgap, hjoin, r, hr, hs⟩
    rw [← List.take_append_drop n s, Text.after?_eq_some_iff.mp hr]
    exact .cons hgap hjoin hs

instance Spaced.decide : (prev : Option Token) → (ts : List Token) → (s : Text) →
    Decidable (Spaced prev ts s)
  | _, [], s => decidable_of_iff (Text.isBlankText s) ⟨.nil, fun | .nil h => h⟩
  | _, t :: ts, _ =>
    have := Spaced.decide (some t) ts
    decidable_of_iff _ spaced_cons_iff.symm

example : ¬ Spaced none [⟨"not".toList⟩, ⟨"[A]".toList⟩] "not[A]".toList := by decide

end Token

end Criteria
