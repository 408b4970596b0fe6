/-
A group in parentheses is one operand. Whatever is read inside a group is read as if the group stood
alone: what waits outside lies below the open parenthesis, where no connective from inside reaches,
and the operands outside lie below those of the group, which are enough for its connectives, since
they were enough when it stood alone (`Stacks.run_inGroup`). At the closing parenthesis then happens
what happens at the end of the input.

Nothing of this asks whether the grammar derives what stands in the parentheses. In `( [A] not )`
the group holds the negation of `[A]`, as `[A] not` does alone.

The one thing that parentheses could change is where operands end, since the closing parenthesis
stands where nothing was. But a parenthesis is no comparison symbol; and after a comparison symbol
nothing can have been missing, since then the symbol would have stood alone, which is no condition.
-/
import Criteria.Proofs.Conservation

set_option autoImplicit false

namespace Criteria

/-! ## The stacks inside a group -/

namespace Stacks

/-- The stacks `st` inside a group that was opened on the stacks `low`. -/
def inGroup (st low : Stacks) : Stacks :=
  ⟨st.operands ++ low.operands, st.pending ++ .group :: low.pending⟩

/-- A connective that finds its operands does not look at what lies below them. -/
theorem combine_append {c : Connective} {es es' : List Expr} (h : combine c es = .ok es')
    (low : List Expr) : combine c (es ++ low) = .ok (es' ++ low) := by
  rcases combine_eq_ok_iff.mp h with
    ⟨e, rest, rfl, rfl, rfl⟩ | ⟨l, r, rest, rfl, rfl, rfl⟩ | ⟨l, r, rest, rfl, rfl, rfl⟩
  · rfl
  · rfl
  · rfl

/-- Unwinding ends in the group, at the latest at its parenthesis. -/
theorem unwind_inGroup {p : Connective → Bool} {es : List Expr} {pending : List Pending}
    {st : Stacks} (h : unwind p es pending = .ok st) (low : Stacks) :
    unwind p (es ++ low.operands) (pending ++ .group :: low.pending) = .ok (st.inGroup low) := by
  -- The induction is on what is pending in the group, as in the unwinding itself.
  induction pending generalizing es with
  | nil =>
    rw [← Except.ok.inj h]
    rfl
  | cons top ps ih =>
    cases top with
    | group =>
      rw [← Except.ok.inj h]
      rfl
    | connective c =>
      by_cases hc : p c = true
      · cases hcombine : combine c es with
        | ok es' =>
          rw [unwind_of_combine hc hcombine] at h
          rw [List.cons_append, unwind_of_combine hc (combine_append hcombine low.operands)]
          exact ih h
        | error err =>
          rw [unwind, if_pos hc, hcombine] at h
          cases h
      · rw [unwind, if_neg hc] at h
        rw [List.cons_append, unwind, if_neg hc, ← Except.ok.inj h]
        rfl

/-- A segment moves the stacks inside a group as it moves them alone. -/
theorem Move.inGroup {st st' : Stacks} {s : Segment} (h : Move st s st') (low : Stacks) :
    Move (st.inGroup low) s (st'.inGroup low) := by
  cases h with
  | opening => exact .opening
  | closing hunwind => exact .closing (unwind_inGroup hunwind low)
  | not => exact .not
  | @binary c w st₁ hc hunwind =>
    have hinside : unwind (fun top => c.precedence ≤ top.precedence) (st.inGroup low).operands
        (st.inGroup low).pending = .ok (st₁.inGroup low) := unwind_inGroup hunwind low
    exact .binary hc hinside
  | operand ha => exact .operand ha

/-- **What is read inside a group is read as if it stood alone.** -/
theorem run_inGroup {st st' : Stacks} {ss : List Segment} (h : st.run ss = .ok st')
    (low : Stacks) : (st.inGroup low).run ss = .ok (st'.inGroup low) := by
  induction ss generalizing st with
  | nil =>
    rw [← Except.ok.inj h]
    rfl
  | cons s ss ih =>
    obtain ⟨st₁, hstep, hrun⟩ := run_cons_eq_ok_iff.mp h
    have hmove := (step_eq_ok_iff.mp hstep).inGroup low
    rw [run_cons (step_eq_ok_iff.mpr hmove), ih hrun]

/-- Segments that are read as an expression when they stand alone are, in parentheses, one operand
on top of any stacks. -/
theorem run_group {st : Stacks} {ss : List Segment} {e : Expr} (hrun : empty.run ss = .ok st)
    (hresult : st.result = .ok e) (low : Stacks) (rest : List Segment) :
    low.run (.paren .opening :: (ss ++ .paren .closing :: rest)) =
      (low.pushOperand e).run rest := by
  have hopen : low.step (.paren .opening) = .ok (empty.inGroup low) := rfl
  have hunwind : (st.inGroup low).unwindGroup = .ok ⟨e :: low.operands, .group :: low.pending⟩ :=
    unwind_inGroup (result_eq_ok_iff.mp hresult) low
  have hclose : (st.inGroup low).step (.paren .closing) = .ok (low.pushOperand e) :=
    step_eq_ok_iff.mpr (.closing hunwind)
  rw [run_cons hopen, run_append (run_inGroup hrun low), run_cons hclose]

end Stacks

/-! ## The tokens of a group -/

namespace Segment

/-- Where no comparison symbol stands alone, what follows does not change the segments, if it starts
with structure. -/
theorem ofTokens_append {ts rest : List Token}
    (hlone : ∀ t, .lone t ∈ ofTokens ts → Comparison.ofText? t.text = none)
    (hrest : Apart rest) : ofTokens (ts ++ rest) = ofTokens ts ++ ofTokens rest := by
  generalize hss : ofTokens ts = ss at hlone ⊢
  induction ss generalizing ts with
  | nil =>
    have hts := flatMap_tokens_ofTokens ts
    rw [hss] at hts
    rw [← hts]
    rfl
  | cons s ss ih =>
    obtain ⟨us, hleads, hus⟩ := exists_leads_of_ofTokens hss
    have htail := ih hus fun t ht => hlone t (List.mem_cons_of_mem s ht)
    rw [hleads.ofTokens_append ?_, htail, List.cons_append]
    rintro t rfl u hu
    cases us with
    | nil =>
      obtain ⟨s, hs⟩ := hrest u hu
      exact ofText?_eq_none_of_structural? hs
    | cons v us =>
      obtain rfl : v = u := by simpa using hu
      -- A comparison symbol at the end would find no value in `ts` and stand alone.
      refine hleads.ofText?_eq_none fun hlast => hlone v ?_
      rw [← hus, hlast]
      exact List.mem_cons_of_mem _ List.mem_cons_self

end Segment

/-- Tokens in parentheses. -/
def Token.group (ts : List Token) : List Token :=
  ⟨[Paren.opening.char]⟩ :: (ts ++ [⟨[Paren.closing.char]⟩])

namespace Expr

/-- Tokens that are read as an expression are read in the same segments when parentheses stand
around them. -/
theorem segments_group {ts : List Token} {e : Expr} (h : ofTokens ts = .ok e)
    (rest : List Token) :
    Segment.ofTokens (Token.group ts ++ rest) = .paren .opening ::
      (Segment.ofTokens ts ++ .paren .closing :: Segment.ofTokens rest) := by
  obtain ⟨st, hrun, -⟩ := ofTokens_eq_ok_iff.mp h
  have hlone : ∀ t, .lone t ∈ Segment.ofTokens ts → Comparison.ofText? t.text = none := by
    intro t ht
    obtain ⟨a, ha⟩ := (Stacks.holding_of_run hrun).exists_atom? ht rfl
    refine Option.eq_none_iff_forall_ne_some.mpr fun op hop => ?_
    rw [Segment.atom?, Atom.ofToken?_eq_none_of_ofText? hop] at ha
    cases ha
  have hopen := Segment.structural?_paren .opening
  have hclose := Segment.structural?_paren .closing
  rw [Token.group, List.cons_append, List.append_assoc, Segment.ofTokens_cons_of_structural? hopen,
    List.singleton_append, Segment.ofTokens_append hlone (Segment.apart_cons hclose rest),
    Segment.ofTokens_cons_of_structural? hclose]

/-- Tokens that are read as an expression are, in parentheses, one operand on top of any stacks,
whatever follows. -/
theorem run_group {ts : List Token} {e : Expr} (h : ofTokens ts = .ok e) (low : Stacks)
    (rest : List Token) :
    low.run (Segment.ofTokens (Token.group ts ++ rest)) =
      (low.pushOperand e).run (Segment.ofTokens rest) := by
  obtain ⟨st, hrun, hresult⟩ := ofTokens_eq_ok_iff.mp h
  rw [segments_group h, Stacks.run_group hrun hresult]

theorem run_group_alone {ts : List Token} {e : Expr} (h : ofTokens ts = .ok e) (low : Stacks) :
    low.run (Segment.ofTokens (Token.group ts)) = .ok (low.pushOperand e) := by
  have hrun := run_group h low []
  rwa [List.append_nil] at hrun

/-! ## Composition -/

/-- A list of tokens in parentheses means what it means without them. -/
theorem ofTokens_group {a : List Token} {x : Expr} (ha : ofTokens a = .ok x) :
    ofTokens (Token.group a) = .ok x :=
  ofTokens_eq_ok_iff.mpr ⟨Stacks.empty.pushOperand x, run_group_alone ha Stacks.empty, rfl⟩

theorem ofTokens_not_group {a : List Token} {x : Expr} {w : Token} (ha : ofTokens a = .ok x)
    (hw : Connective.ofText? w.text = some .not) :
    ofTokens (w :: Token.group a) = .ok (.not x) := by
  let waiting := Stacks.empty.pushPending (.connective .not)
  refine ofTokens_eq_ok_iff.mpr ⟨waiting.pushOperand x, ?_, rfl⟩
  have hnot : Stacks.empty.step (.connective .not w) = .ok waiting := rfl
  rw [Segment.ofTokens_cons_of_structural? (Segment.structural?_of_ofText? hw),
    Stacks.run_cons hnot, run_group_alone ha waiting]

/-- The binary connective finds the operand before it alone on the stack, with nothing to unwind,
and waits for the group behind it. -/
theorem run_group_connective_group {a b : List Token} {x y : Expr} {c : Connective} {w : Token}
    (ha : ofTokens a = .ok x) (hb : ofTokens b = .ok y) (hc : c ≠ .not)
    (hw : Connective.ofText? w.text = some c) :
    Stacks.empty.run (Segment.ofTokens (Token.group a ++ w :: Token.group b)) =
      .ok ⟨[y, x], [.connective c]⟩ := by
  let waiting := (Stacks.empty.pushOperand x).pushPending (.connective c)
  have hwait : (Stacks.empty.pushOperand x).step (.connective c w) = .ok waiting :=
    Stacks.step_eq_ok_iff.mpr (.binary hc rfl)
  rw [run_group ha, Segment.ofTokens_cons_of_structural? (Segment.structural?_of_ofText? hw),
    Stacks.run_cons hwait, run_group_alone hb waiting]
  rfl

/-- A binary connective that waits with its two operands joins them. -/
theorem map_toRule_result {c : Connective} (hc : c ≠ .not) (x y : Expr) :
    (Stacks.result ⟨[y, x], [.connective c]⟩).map toRule =
      .ok (.apply c.keyword [x.toRule, y.toRule]) := by
  cases c with
  | not => exact absurd rfl hc
  | and => rfl
  | or => rfl

theorem exists_of_map_toRule {ts : List Token} {r : Rule}
    (h : (ofTokens ts).map toRule = .ok r) : ∃ e, ofTokens ts = .ok e ∧ e.toRule = r := by
  cases hread : ofTokens ts with
  | ok e =>
    rw [hread] at h
    exact ⟨e, rfl, Except.ok.inj h⟩
  | error err =>
    rw [hread] at h
    cases h

/-- **Parentheses compose.** Let `a` and `b` be any lists of tokens that are read as rules, whether
the grammar derives them or not. Then `( a )` is read as the rule of `a`, `not ( a )` as its
negation, and `( a ) and ( b )` and `( a ) or ( b )` as the rule that joins the two; the connectives
may be spelled in any letter case. -/
theorem toRule_of_parenthesized {a b : List Token} {x y : Rule}
    (ha : (ofTokens a).map toRule = .ok x) (hb : (ofTokens b).map toRule = .ok y) :
    (ofTokens (Token.group a)).map toRule = .ok x ∧
    (∀ w : Token, Connective.ofText? w.text = some .not →
      (ofTokens (w :: Token.group a)).map toRule = .ok (.negate x)) ∧
    (∀ (c : Connective) (w : Token), c ≠ .not → Connective.ofText? w.text = some c →
      (ofTokens (Token.group a ++ w :: Token.group b)).map toRule =
        .ok (.apply c.keyword [x, y])) := by
  obtain ⟨d, hd, rfl⟩ := exists_of_map_toRule ha
  obtain ⟨e, he, rfl⟩ := exists_of_map_toRule hb
  refine ⟨?_, ?_, ?_⟩
  · rw [ofTokens_group hd]
    rfl
  · intro w hw
    rw [ofTokens_not_group hd hw]
    rfl
  · intro c w hc hw
    rw [ofTokens, run_group_connective_group hd he hc hw]
    exact map_toRule_result hc d e

/-- Neither `and [A] [B]` nor `[B] = )` is an expression of the grammar. In parentheses, they are
the operands of a connective. -/
theorem toRule_of_parenthesized_outside_grammar :
    ∃ a b x y, a.map (String.ofList ∘ Token.text) = ["and", "[A]", "[B]"] ∧
      b.map (String.ofList ∘ Token.text) = ["[B]", "=", ")"] ∧
      x = .apply "and".toList [.var ['A'], .var ['B']] ∧
      y = .compare "==".toList ['B'] (.text [')']) ∧
      (ofTokens a).map toRule = .ok x ∧ (ofTokens b).map toRule = .ok y ∧
      (ofTokens (Token.group a)).map toRule = .ok x ∧
      (ofTokens (⟨"NOT".toList⟩ :: Token.group b)).map toRule = .ok (.negate y) ∧
      (ofTokens (Token.group a ++ ⟨"oR".toList⟩ :: Token.group b)).map toRule =
        .ok (.apply "or".toList [x, y]) := by
  have ha : (ofTokens (["and", "[A]", "[B]"].map (Token.mk ∘ String.toList))).map toRule = .ok
      (.apply "and".toList [.var ['A'], .var ['B']]) := by rfl
  have hb : (ofTokens (["[B]", "=", ")"].map (Token.mk ∘ String.toList))).map toRule = .ok
      (.compare "==".toList ['B'] (.text [')'])) := by rfl
  obtain ⟨hgroup, -, hjoin⟩ := toRule_of_parenthesized ha hb
  obtain ⟨-, hnegate, -⟩ := toRule_of_parenthesized hb ha
  exact ⟨_, _, _, _, rfl, rfl, rfl, rfl, ha, hb, hgroup, hnegate _ (by decide),
    hjoin .or _ (by decide) (by decide)⟩

end Expr

end Criteria
