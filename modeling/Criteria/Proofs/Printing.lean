/-
What is printed is read back. A list of lexemes that the grammar derives has three properties that
make its text divide into it again: each lexeme has one of the four shapes, an opening parenthesis
stands right behind structure only, and the first lexeme does not start with a quotation mark, so
that no quotation marks are dropped around the criterion. Each of them is kept by every rule of
the grammar (`Printable`). The lexemes are then tokens that the grammar derives as such, and the
precedence method reads them.
-/
import Criteria.Conversion
import Criteria.Proofs.Division
import Criteria.Proofs.Precedence

set_option autoImplicit false

namespace Criteria

/-! ## Printed conditions are conditions -/

namespace Atom

theorem fieldName_ofField (name : Text) : fieldName (Token.ofField name).text = name := by
  simp [fieldName, Token.ofField, Text.dropFirst, Text.dropFinal]

theorem field?_ofField (name : Text) : (Token.ofField name).field? = some name :=
  Text.between?_eq_some_iff.mpr rfl

theorem date?_ofDate (s : Text) : (Token.ofDate s).date? = some (s.trim (· == '#')) := by
  rw [Token.date?, Text.between?_eq_some_iff.mpr (show (Token.ofDate s).text = _ from rfl)]
  rfl

/-- A printed condition is a condition, and the same one. -/
theorem Printed.spelled {ts : List Token} {a : Atom} (h : Printed ts a) : Spelled ts a := by
  cases h with
  | @comparison name value op hname _ =>
    obtain ⟨hparen, hword⟩ :=
      Segment.structural?_eq_none_iff.mp (Token.structural?_of_plain hname)
    have hcompare : compare (.ofField name) op ⟨value⟩ = .comparison name op (literal value) := by
      rw [compare, fieldName_ofField]
    rw [← hcompare]
    exact .comparison hparen hword (Comparison.ofText?_eq_some_iff.mpr rfl)
  | call hcall => exact .call hcall
  | date _ => exact .date (date?_ofDate _)
  | field _ => exact .field (field?_ofField _)

end Atom

/-- Lexemes that the grammar derives are tokens that it derives. -/
theorem Expr.Derives.of_lexemes {level : Level} {ts : List Token} {e : Expr}
    (h : Derives Token.lexemes level ts e) : Derives Token.terminals level ts e := by
  have hparen : ∀ p, [Token.lexemes.paren p] = [Token.terminals.paren p] := fun _ => rfl
  have hkeyword : ∀ c w, True → Token.lexemes.keyword c w →
      ∃ w', [w] = [w'] ∧ Token.terminals.keyword c w' := fun c w _ hw => ⟨w, rfl, hw⟩
  have hatom : ∀ ts a, (∀ t ∈ ts, True) → Token.lexemes.atom ts a →
      Token.terminals.atom (ts.flatMap fun t => [t]) a := by
    intro ts a _ ha
    rw [List.flatMap_singleton']
    exact ha.spelled
  have hmap := h.flatMap hparen hkeyword hatom fun _ _ => trivial
  rwa [List.flatMap_singleton'] at hmap

/-! ## Derived lexemes are printable -/

namespace Token

/-- What makes the text of a list of lexemes divide into it again. -/
structure Printable (ts : List Token) : Prop where
  shape : ∀ t ∈ ts, Shape t
  opens : ts.IsChain Opens
  start : ∃ x s us, ts = ⟨x :: s⟩ :: us ∧ x ≠ '"'

theorem opens_of_structural? {t : Token} {s : Segment} (h : Segment.structural? t = some s)
    (u : Token) : Opens t u := by
  intro _
  rw [h]
  rfl

theorem opens_of_ne {u : Token} (h : u ≠ ⟨[Paren.opening.char]⟩) (t : Token) : Opens t u :=
  fun hu => absurd (congrArg mk hu) h

theorem ne_opening_of_ofText? {w : Token} {c : Connective}
    (h : Connective.ofText? w.text = some c) : w ≠ ⟨[Paren.opening.char]⟩ := by
  rintro rfl
  cases Paren.ofText?_eq_none_of_connective h

theorem ne_opening_of_plain {s : Text} (h : s.Plain) : Token.mk s ≠ ⟨[Paren.opening.char]⟩ := by
  intro hs
  obtain rfl := Token.mk.inj hs
  exact absurd (h.not_paren '(' (by decide)) (by decide)

/-- A keyword joins what is printable on both sides of it. -/
theorem Printable.join {xs ys : List Token} {w : Token} {c : Connective} (hxs : Printable xs)
    (hw : Connective.ofText? w.text = some c) (hys : Printable ys) :
    Printable (xs ++ w :: ys) where
  shape := by
    rw [List.forall_mem_append, List.forall_mem_cons]
    exact ⟨hxs.shape, .keyword hw, hys.shape⟩
  opens := by
    rw [List.isChain_append, List.isChain_cons]
    refine ⟨hxs.opens, ⟨fun u _ => opens_of_structural? (Segment.structural?_of_ofText? hw) u,
      hys.opens⟩, fun t _ u hu => ?_⟩
    obtain rfl : w = u := by simpa using hu
    exact opens_of_ne (ne_opening_of_ofText? hw) t
  start := by
    obtain ⟨x, s, us, rfl, hx⟩ := hxs.start
    exact ⟨x, s, _, rfl, hx⟩

/-- A keyword in front keeps a list printable. -/
theorem Printable.prefixed {xs : List Token} {w : Token} {c : Connective}
    (hw : Connective.ofText? w.text = some c) (hxs : Printable xs) : Printable (w :: xs) where
  shape := List.forall_mem_cons.mpr ⟨.keyword hw, hxs.shape⟩
  opens := List.isChain_cons.mpr
    ⟨fun u _ => opens_of_structural? (Segment.structural?_of_ofText? hw) u, hxs.opens⟩
  start := by
    obtain ⟨hne, hletters⟩ := Connective.isWord_of_ofText? hw
    obtain ⟨x, s, hs⟩ := List.exists_cons_of_ne_nil hne
    refine ⟨x, s, xs, by rw [← hs], ?_⟩
    rintro rfl
    rw [hs] at hletters
    exact absurd (hletters '"' List.mem_cons_self) (by decide)

/-- Parentheses around a list keep it printable. -/
theorem Printable.group {xs : List Token} (h : Printable xs) :
    Printable (⟨[Paren.opening.char]⟩ :: (xs ++ [⟨[Paren.closing.char]⟩])) where
  shape := by
    rw [List.forall_mem_cons, List.forall_mem_append]
    exact ⟨.paren .opening, h.shape, List.forall_mem_singleton.mpr (.paren .closing)⟩
  opens := by
    rw [List.isChain_cons, List.isChain_append]
    refine ⟨fun u _ => opens_of_structural? (Segment.structural?_paren .opening) u, h.opens,
      List.isChain_singleton _, fun t _ u hu => ?_⟩
    obtain rfl : ⟨[Paren.closing.char]⟩ = u := by simpa using hu
    exact opens_of_ne (by decide) t
  start := ⟨'(', [], _, rfl, by decide⟩

theorem Printable.of_printed {ts : List Token} {a : Atom} (h : Atom.Printed ts a) :
    Printable ts := by
  cases h with
  | @comparison name value op hname hvalue =>
    have hop : Text.Plain op.symbol := by cases op <;> decide
    refine ⟨?_, ?_, '[', name ++ [']'], _, rfl, by decide⟩
    · rw [List.forall_mem_cons, List.forall_mem_cons, List.forall_mem_singleton]
      exact ⟨.plain hname, .plain hop, .plain hvalue⟩
    · rw [List.isChain_cons_cons, List.isChain_pair]
      exact ⟨opens_of_ne (ne_opening_of_plain hop) _, opens_of_ne (ne_opening_of_plain hvalue) _⟩
  | @call s c hs =>
    obtain ⟨x, s, rfl, hx⟩ := Call.exists_eq_cons_of_whole? hs
    refine ⟨List.forall_mem_singleton.mpr (.call hs), List.isChain_singleton _, x, s, [], rfl, ?_⟩
    rintro rfl
    exact absurd hx (by decide)
  | @date s hs =>
    exact ⟨List.forall_mem_singleton.mpr (.plain hs), List.isChain_singleton _,
      '#', s ++ ['#'], [], rfl, by decide⟩
  | @field name hname =>
    exact ⟨List.forall_mem_singleton.mpr (.plain hname), List.isChain_singleton _,
      '[', name ++ [']'], [], rfl, by decide⟩

/-- Every rule of the grammar keeps what makes lexemes printable. -/
theorem Printable.of_derives {level : Expr.Level} {ts : List Token} {e : Expr}
    (h : Expr.Derives lexemes level ts e) : Printable ts := by
  induction h with
  | or _ hw _ ihl ihr => exact ihl.join hw ihr
  | conjunction _ ih => exact ih
  | and _ hw _ ihl ihr => exact ihl.join hw ihr
  | factor _ ih => exact ih
  | not hw _ ih => exact ih.prefixed hw
  | group _ ih => exact ih.group
  | atom h => exact .of_printed h

/-- The tokens of a text that is set from printable lexemes are these lexemes. -/
theorem Printable.ofText {ts : List Token} {s : Text} (h : Printable ts) (hs : Spaced none ts s) :
    Token.ofText s = ts :=
  tokens_of_spaced hs h.shape h.opens fun _ => rfl

end Token

/-- No quotation marks are dropped around such a text, since it does not start with one. -/
theorem Options.prepare_of_spaced (o : Options) {ts : List Token} {s : Text}
    (h : Token.Printable ts) (hs : Token.Spaced none ts s) : o.prepare s = s := by
  have hstart : ∀ t, s ≠ '"' :: t := by
    rintro t rfl
    obtain ⟨x, s', us, rfl, hx⟩ := h.start
    -- The text starts with white space or with the first lexeme.
    generalize hquoted : '"' :: t = quoted at hs
    cases hs with
    | @cons _ _ _ gap s hgap _ _ =>
      cases gap with
      | nil => exact hx (List.cons.inj hquoted).1.symm
      | cons y gap =>
        obtain rfl : '"' = y := (List.cons.inj hquoted).1
        exact absurd (List.all_eq_true.mp hgap '"' List.mem_cons_self) (by decide)
  have hbetween : s.between? '"' '"' = none :=
    Option.eq_none_iff_forall_ne_some.mpr fun t ht => hstart _ (Text.between?_eq_some_iff.mp ht)
  rw [prepare, hbetween]
  split <;> rfl

/-! ## Printed criteria are converted -/

/-- **What is printed is read back.** An expression of any size, printed as lexemes that the
grammar derives, with any grouping and letter case that spell it, and set with any white space, is
converted to the rule of that expression; and the rule has the tree of the expression as its JSON
form. -/
theorem toRule_of_printed {ts : List Token} {e : Expr} {criterion : String}
    (h : Expr.Derives Token.lexemes .disjunction ts e)
    (hs : Token.Spaced none ts criterion.toList) :
    toRule criterion = .ok e.toRule ∧ e.toRule.toJson = e.tree := by
  have hprintable := Token.Printable.of_derives h
  refine ⟨?_, e.toJson_toRule⟩
  rw [toRule, Options.toRule, Options.tokens, Options.prepare_of_spaced _ hprintable hs,
    hprintable.ofText hs, Expr.ofTokens_eq_ok_of_derives h.of_lexemes]
  rfl

/-- A negated group that is grouped twice, with wide white space where some has to be, and none or
more than that elsewhere. The call and the value hold keywords, one of which is no whole word. -/
theorem toRule_of_printed_negation : ∃ (ts : List Token) (e : Expr),
    ts.map (String.ofList ∘ Token.text) =
      ["NOT", "(", "(", "isnull([A and B])", "Or", "[C]", "<>", "#x-or_#", ")", ")"] ∧
    e = .not (.or (.atom (.call ⟨.isNull, "isnull".toList, "A and B".toList, []⟩))
      (.atom (.comparison ['C'] .ne "x-or_".toList))) ∧
    Expr.Derives Token.lexemes .disjunction ts e ∧
    Token.Spaced none ts "\u3000NOT((isnull([A and B])\u2003Or [C] <> #x-or_#) )".toList ∧
    toRule "\u3000NOT((isnull([A and B])\u2003Or [C] <> #x-or_#) )" = .ok e.toRule ∧
    e.toRule.toJson = e.tree := by
  have hcall : Expr.Derives Token.lexemes .factor [⟨"isnull([A and B])".toList⟩]
      (.atom (.call ⟨.isNull, "isnull".toList, "A and B".toList, []⟩)) :=
    .atom (.call (by decide))
  have hcomparison : Expr.Derives Token.lexemes .factor
      [.ofField ['C'], ⟨Comparison.ne.symbol⟩, ⟨"#x-or_#".toList⟩]
      (.atom (.comparison ['C'] .ne (Atom.literal "#x-or_#".toList))) :=
    .atom (.comparison (by decide) (by decide))
  have hor : Token.lexemes.keyword .or ⟨"Or".toList⟩ :=
    Connective.ofText?_eq_some_iff.mpr (by decide)
  have hnot : Token.lexemes.keyword .not ⟨"NOT".toList⟩ :=
    Connective.ofText?_eq_some_iff.mpr (by decide)
  have hgroup := (Expr.Derives.or (.conjunction (.factor hcall)) hor (.factor hcomparison)).group
  have h := Expr.Derives.conjunction
    (.factor (.not hnot (Expr.Derives.group (.conjunction (.factor hgroup)))))
  refine ⟨_, _, rfl, by decide, h, ?spaced, toRule_of_printed h ?spaced⟩
  decide +kernel

end Criteria
