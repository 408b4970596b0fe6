/-
A criterion in another letter case. Two texts are alike if they are the same in lower case. From the
tokens on every stage commutes with lower case, as the division of the text does, so what is made of
two alike texts agrees in lower case: the tokens stand in the same places and are of the same kinds,
and their segments are treated alike by the precedence method. It ends with the same error, or with
expressions of one shape that have alike conditions in the same places
(`Options.alike_of_alike`).
-/
import Criteria.Conversion
import Criteria.Proofs.LetterCase
import Criteria.Proofs.Lockstep

set_option autoImplicit false

namespace Criteria

/-! ## Alike -/

/-- Texts that differ at most in the letter case of `A` to `Z`. -/
def Text.Alike (s t : Text) : Prop := s.lower = t.lower

instance (s t : Text) : Decidable (s.Alike t) := inferInstanceAs (Decidable (_ = _))

/-- Places of alike tokens: they start and end behind the same number of bytes, and the tokens are of
the same kind. -/
structure Place.Alike (q r : Place) : Prop where
  start : q.start = r.start
  stop : q.stop = r.stop
  text : q.token.text.Alike r.token.text
  kind : q.token.kind = r.token.kind

/-- Values of one shape with the same keys, and with alike strings in the same places. -/
def Json.Alike (v w : Json) : Prop := Json.Paired Text.Alike v w

/-- A condition in lower case. -/
def Atom.lower : Atom → Atom
  | .comparison name op value => .comparison name.lower op value.lower
  | .call c => .call c.lower
  | .date s => .date s.lower
  | .field name => .field name.lower

/-- Conditions that differ at most in letter case. -/
def Atom.Alike (a b : Atom) : Prop := a.lower = b.lower

/-- Errors with the same cause. They show alike tokens, or expressions of one shape with alike
conditions in the same places. -/
def Error.Alike (e f : Error) : Prop :=
  Error.Paired Atom.Alike (fun t u => t.text.Alike u.text) e f

/-! ## Agreement under a function -/

/-- If two options agree under a function, so do their values. -/
theorem rel_of_map_eq {α β : Type} {f : α → β} {x y : Option α} (h : x.map f = y.map f) :
    Option.Rel (fun a b => f a = f b) x y := by
  cases x with
  | none =>
    cases y with
    | none => exact .none
    | some b => cases h
  | some a =>
    cases y with
    | none => cases h
    | some b => exact .some (Option.some.inj h)

/-- If two lists agree under a function, so do their elements one by one. -/
theorem forall₂_of_map_eq {α β : Type} {f : α → β} {xs ys : List α} (h : xs.map f = ys.map f) :
    List.Forall₂ (fun x y => f x = f y) xs ys := by
  rw [← List.forall₂_map_left_iff (f := f) (R := fun b y => b = f y),
    ← List.forall₂_map_right_iff (f := f) (R := fun b c => b = c), List.forall₂_eq_eq_eq]
  exact h

/-! ## Segments -/

namespace Segment

/-- A segment in lower case. -/
def lower : Segment → Segment
  | .paren p => .paren p
  | .connective c word => .connective c word.lower
  | .comparison field op value => .comparison field.lower op value.lower
  | .lone t => .lone t.lower

theorem structural?_lower (t : Token) :
    structural? t.lower = (structural? t).map lower := by
  rw [structural?, structural?, Token.text_lower, Paren.ofText?_lower, Connective.ofText?_lower]
  cases Paren.ofText? t.text with
  | some p => rfl
  | none =>
    cases Connective.ofText? t.text with
    | none => rfl
    | some c => rfl

theorem ofTokens_lower (ts : List Token) :
    ofTokens (ts.map Token.lower) = (ofTokens ts).map lower := by
  have hgetD : ∀ t : Token,
      (structural? t.lower).getD (.lone t.lower) = ((structural? t).getD (.lone t)).lower := by
    intro t
    rw [structural?_lower]
    cases structural? t <;> rfl
  fun_induction ofTokens ts with
  | case1 => rfl
  | case2 t => exact congrArg ([·]) (hgetD t)
  | case3 t u ih => exact congrArg₂ List.cons (hgetD t) ih
  | case4 t u v ts s hs ih =>
    rw [List.map_cons, List.map_cons, List.map_cons, ofTokens, structural?_lower, hs]
    exact congrArg (s.lower :: ·) ih
  | case5 t u v ts hs op hop ih =>
    rw [List.map_cons, List.map_cons, List.map_cons, ofTokens, structural?_lower, hs,
      Token.text_lower, Comparison.ofText?_lower, hop]
    exact congrArg (_ :: ·) ih
  | case6 t u v ts hs hop ih =>
    rw [List.map_cons, List.map_cons, List.map_cons, ofTokens, structural?_lower, hs,
      Token.text_lower, Comparison.ofText?_lower, hop]
    exact congrArg (_ :: ·) ih

end Segment

/-! ## Conditions -/

namespace Atom

theorem compare_lower (field : Token) (op : Comparison) (value : Token) :
    compare field.lower op value.lower = (compare field op value).lower := by
  have hname : fieldName field.text.lower = (fieldName field.text).lower := by
    rw [fieldName, fieldName, Text.dropFirst_lower (by decide), Text.dropFinal_lower (by decide)]
  have hliteral : literal value.text.lower = (literal value.text).lower :=
    Text.trim_lower Text.caseFree_isDelimiter value.text
  rw [compare, compare, lower, ← hname, ← hliteral]
  rfl

theorem ofToken?_lower (t : Token) : ofToken? t.lower = (ofToken? t).map lower := by
  rw [ofToken?, ofToken?, Token.date?_lower, Token.field?_lower, Token.text_lower,
    Call.whole?_lower]
  cases t.date? with
  | some s => rfl
  | none =>
    cases Call.whole? t.text with
    | some c => rfl
    | none =>
      cases t.field? with
      | some name => rfl
      | none => rfl

/-- Alike conditions have alike values. -/
theorem Alike.toJson {a b : Atom} (h : a.Alike b) : a.toRule.toJson.Alike b.toRule.toJson := by
  cases a with
  | comparison name op value =>
    cases b with
    | comparison name' op' value' =>
      obtain ⟨hname, rfl, hvalue⟩ := Atom.comparison.inj h
      exact .binary _ (.var hname) (.str hvalue)
    | call | date | field => cases h
  | call c =>
    cases b with
    | call c' =>
      have hcall : c.lower = c'.lower := Atom.call.inj h
      obtain ⟨hpredicate, -, hfield, -⟩ := Call.mk.inj hcall
      have hvalue : c.value.Alike c'.value := by
        rw [Text.Alike, ← c.value_lower, ← c'.value_lower, hcall]
      have hrule := c.predicate.paired_rule (S := Text.Alike) rfl hfield hvalue
      rw [Json.Alike, toRule, toRule, Call.rule, Call.rule, ← hpredicate]
      exact hrule
    | comparison | date | field => cases h
  | date s =>
    cases b with
    | date s' => exact .str (Atom.date.inj h)
    | comparison | call | field => cases h
  | field name =>
    cases b with
    | field name' => exact .var (Atom.field.inj h)
    | comparison | call | date => cases h

end Atom

namespace Segment

/-- Segments that are the same in lower case are treated alike. -/
theorem paired_of_lower_eq {s s' : Segment} (h : s.lower = s'.lower) :
    Segment.Paired Atom.Alike (fun t u => t.text.Alike u.text) s s' := by
  cases s with
  | paren p =>
    cases s' with
    | paren q =>
      obtain rfl := Segment.paren.inj h
      exact .paren p
    | connective | comparison | lone => cases h
  | connective c word =>
    cases s' with
    | connective c' word' =>
      obtain rfl := (Segment.connective.inj h).1
      exact .connective c word word'
    | paren | comparison | lone => cases h
  | comparison field op value =>
    cases s' with
    | comparison field' op' value' =>
      obtain ⟨hfield, rfl, hvalue⟩ := Segment.comparison.inj h
      refine .comparison ?_
      rw [Atom.Alike, ← Atom.compare_lower, ← Atom.compare_lower, hfield, hvalue]
    | paren | connective | lone => cases h
  | lone t =>
    cases s' with
    | lone u =>
      have htokens : t.lower = u.lower := Segment.lone.inj h
      have hatoms : (Atom.ofToken? t).map Atom.lower = (Atom.ofToken? u).map Atom.lower := by
        rw [← Atom.ofToken?_lower, ← Atom.ofToken?_lower, htokens]
      exact .lone (Token.mk.inj htokens) (rel_of_map_eq hatoms)
    | paren | connective | comparison => cases h

end Segment

/-! ## Results -/

theorem Options.prepare_lower (o : Options) (s : Text) : o.prepare s.lower = (o.prepare s).lower := by
  rw [prepare, prepare, Text.between?_lower (by decide) (by decide)]
  split
  · cases s.between? '"' '"' with
    | none => rfl
    | some t => rfl
  · rfl

theorem Place.alike_of_lower_eq {q r : Place} (h : q.lower = r.lower) : q.Alike r := by
  obtain ⟨hstart, htoken⟩ := Place.mk.inj h
  constructor
  · exact hstart
  · rw [← q.stop_lower, h, r.stop_lower]
  · exact Token.mk.inj htoken
  · rw [← q.token.kind_lower, htoken, r.token.kind_lower]

/-- **Letter case never changes structure.** Two criteria that differ at most in the letter case of
`A` to `Z` have, under any options, alike tokens in the same places, and they are both accepted, with
values of one shape that have the same keys and alike strings, or both refused, with the same error. -/
theorem Options.alike_of_alike (o : Options) {a b : String} (h : Text.Alike a.toList b.toList) :
    List.Forall₂ Place.Alike (Token.places (o.prepare a.toList))
      (Token.places (o.prepare b.toList)) ∧
    Outcomes Error.Alike (fun r r' => r.toJson.Alike r'.toJson) (o.toRule a) (o.toRule b) := by
  have hprepare : (o.prepare a.toList).lower = (o.prepare b.toList).lower := by
    rw [← o.prepare_lower, ← o.prepare_lower, h]
  constructor
  · have hplaces : (Token.places (o.prepare a.toList)).map Place.lower =
        (Token.places (o.prepare b.toList)).map Place.lower := by
      rw [← Token.places_lower, ← Token.places_lower, hprepare]
    exact (forall₂_of_map_eq hplaces).imp fun _ _ => Place.alike_of_lower_eq
  · have hsegments : (Segment.ofTokens (o.tokens a)).map Segment.lower =
        (Segment.ofTokens (o.tokens b)).map Segment.lower := by
      rw [← Segment.ofTokens_lower, ← Segment.ofTokens_lower, tokens, tokens,
        ← Token.ofText_lower, ← Token.ofText_lower, hprepare]
    have hpaired := (forall₂_of_map_eq hsegments).imp fun _ _ => Segment.paired_of_lower_eq
    exact (Expr.paired_ofTokens hpaired).map fun d e hde => hde.toJson fun _ _ hab => hab.toJson

/-- In `NOT IsNull([É]) And [x] = 'Ü'` and `not isnull([É]) AND [X] = 'Ü'` the letters with marks are
the same, as they have to be. -/
theorem Options.alike_of_alike_marked :
    Text.Alike "NOT IsNull([É]) And [x] = 'Ü'".toList "not isnull([É]) AND [X] = 'Ü'".toList ∧
    List.Forall₂ Place.Alike (Token.places "NOT IsNull([É]) And [x] = 'Ü'".toList)
      (Token.places "not isnull([É]) AND [X] = 'Ü'".toList) ∧
    ∃ r r', ({} : Options).toRule "NOT IsNull([É]) And [x] = 'Ü'" = .ok r ∧
      ({} : Options).toRule "not isnull([É]) AND [X] = 'Ü'" = .ok r' ∧ r.toJson.Alike r'.toJson := by
  have halike : Text.Alike "NOT IsNull([É]) And [x] = 'Ü'".toList
      "not isnull([É]) AND [X] = 'Ü'".toList := by decide
  obtain ⟨hplaces, houtcomes⟩ := Options.alike_of_alike {} halike
  have htokens : ({} : Options).tokens "NOT IsNull([É]) And [x] = 'Ü'" =
      ["NOT", "IsNull([É])", "And", "[x]", "=", "'Ü'"].map (⟨·.toList⟩) := by decide +kernel
  have hrule : ({} : Options).toRule "NOT IsNull([É]) And [x] = 'Ü'" =
      .ok (Expr.and (.not (.atom (.call ⟨.isNull, "IsNull".toList, ['É'], []⟩)))
        (.atom (.comparison ['x'] .eq ['Ü']))).toRule := by
    rw [Options.toRule, htokens]
    rfl
  rw [hrule] at houtcomes
  obtain ⟨r', hrule', hvalues⟩ := houtcomes.exists_ok
  exact ⟨halike, hplaces, _, r', hrule, hrule', hvalues⟩

end Criteria
