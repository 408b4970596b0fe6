/-
What later tokens cannot change. An operand looks two tokens ahead, so the last segments of a list
may change when more tokens follow: `[A] =` is a field and a token that is nothing, and `[A] = 1` is
a comparison. A segment that is structure, or that has two tokens behind it, stays, and then so does
everything before it (`Segment.exists_ofTokens_append`); the one case to see is an operand right
before it, which looks at its first token.

The precedence method fails at a segment. The segments before it decide how, so if it stays, the
error stays too, whatever follows (`Expr.ofTokens_append_of_error`).
-/
import Criteria.Proofs.Conservation

set_option autoImplicit false

namespace Criteria

namespace Segment

/-! ## Settled segments -/

/-- Behind any segment the division goes on as if it started there. -/
theorem ofTokens_flatMap_tokens {ts : List Token} {done ss : List Segment}
    (h : ofTokens ts = done ++ ss) : ofTokens (ss.flatMap tokens) = ss := by
  induction done generalizing ts with
  | nil =>
    rw [List.nil_append] at h
    rw [← h, flatMap_tokens_ofTokens]
  | cons s done ih =>
    obtain ⟨rest, -, hrest⟩ := exists_leads_of_ofTokens h
    exact ih hrest

/-- **Later tokens leave alone what is settled.** A segment that is structure, or that has two tokens
behind it, stays when more tokens follow, and so does everything before it. -/
theorem exists_ofTokens_append {ts : List Token} {done rest : List Segment} {s : Segment}
    (h : ofTokens ts = done ++ s :: rest)
    (hsettled : s.isOperand → 2 ≤ (rest.flatMap tokens).length) (more : List Token) :
    ∃ rest', ofTokens (ts ++ more) = done ++ s :: rest' := by
  -- The induction is on the segments before. The last of them may look at the segment itself.
  induction done generalizing ts with
  | nil =>
    obtain ⟨us, hleads, hus⟩ := exists_leads_of_ofTokens h
    refine ⟨ofTokens (us ++ more), hleads.ofTokens_append ?_⟩
    rintro t rfl u hu
    have htwo := hsettled rfl
    cases us with
    | nil =>
      rw [← hus] at htwo
      exact absurd htwo (by decide)
    | cons v us =>
      obtain rfl : v = u := by simpa using hu
      refine hleads.ofText?_eq_none fun hlast => ?_
      rw [← hus, hlast] at htwo
      exact absurd htwo (Nat.not_succ_le_self 1)
  | cons s' done ih =>
    obtain ⟨us, hleads, hus⟩ := exists_leads_of_ofTokens h
    obtain ⟨rest', hrest'⟩ := ih hus
    refine ⟨rest', ?_⟩
    rw [hleads.ofTokens_append ?_, hrest', List.cons_append]
    rintro t rfl u hu
    cases us with
    | nil => simp [ofTokens] at hus
    | cons v us =>
      obtain rfl : v = u := by simpa using hu
      refine hleads.ofText?_eq_none fun hlast => ?_
      -- Then it would be the segment itself, with nothing behind it.
      obtain ⟨-, hs⟩ | ⟨-, hs⟩ := List.append_eq_singleton_iff.mp (hus.symm.trans hlast)
      · obtain ⟨rfl, rfl⟩ := List.cons.inj hs
        exact absurd (hsettled rfl) (by decide)
      · cases hs

/-! ## Operands in their places -/

/-- A comparison starts here: behind one token there are a comparison symbol and a value. -/
def StartsComparison (ts : List Token) : Prop :=
  ∃ field symbol value rest op, ts = field :: symbol :: value :: rest ∧
    Comparison.ofText? symbol.text = some op

/-- The token `t` of `ts`, between `before` and `after`, starts an operand. -/
def OperandAt (ts before : List Token) (t : Token) (after : List Token) : Prop :=
  ∃ done s rest, ofTokens ts = done ++ s :: rest ∧ s.isOperand ∧ done.flatMap tokens = before ∧
    s.tokens ++ rest.flatMap tokens = t :: after

/-- The first operand of `ts` that is nothing: it starts no comparison, and it is no date, no call
and no field, while every operand before it is one of these. -/
structure FirstUnreadable (ts before : List Token) (t : Token) (after : List Token) : Prop where
  operandAt : OperandAt ts before t after
  no_comparison : ¬ StartsComparison (t :: after)
  no_date : t.date? = none
  no_call : Call.whole? t.text = none
  no_field : t.field? = none
  first : ∀ a u b, OperandAt ts a u b → a.length < before.length →
    StartsComparison (u :: b) ∨ (∃ s, u.date? = some s) ∨ (∃ c, Call.whole? u.text = some c) ∨
      ∃ name, u.field? = some name

/-- An operand that stands alone starts no comparison. -/
theorem not_startsComparison {t : Token} {ts : List Token} {ss : List Segment}
    (h : ofTokens (t :: ts) = .lone t :: ss) : ¬ StartsComparison (t :: ts) := by
  rintro ⟨f, u, v, us, op, hts, hop⟩
  obtain ⟨rfl, rfl⟩ := List.cons.inj hts
  obtain ⟨rest, hleads, -⟩ := exists_leads_of_ofTokens h
  cases hleads with
  | structural ht => exact Bool.noConfusion (isOperand_of_structural? ht)
  | lone _ hnone =>
    rw [hnone u v us rfl] at hop
    cases hop

/-- What has been read as an operand is a comparison, a date, a call or a field. -/
theorem readable_of_atom? {s : Segment} {a : Atom} {t : Token} {ts after : List Token}
    (ha : s.atom? = some a) (hs : s.tokens ++ ts = t :: after) :
    StartsComparison (t :: after) ∨ (∃ s, t.date? = some s) ∨ (∃ c, Call.whole? t.text = some c) ∨
      ∃ name, t.field? = some name := by
  cases s with
  | paren p => cases ha
  | connective c w => cases ha
  | comparison f op v =>
    exact .inl ⟨f, ⟨op.symbol⟩, v, ts, op, hs.symm, Comparison.ofText?_eq_some_iff.mpr rfl⟩
  | lone u =>
    obtain rfl : u = t := (List.cons.inj hs).1
    cases Atom.ofToken?_eq_some_iff.mp ha with
    | date h => exact .inr (.inl ⟨_, h⟩)
    | call h => exact .inr (.inr (.inl ⟨_, h⟩))
    | field h => exact .inr (.inr (.inr ⟨_, h⟩))

end Segment

/-! ## Errors -/

namespace Expr

/-- The method fails at a segment as the segments before it decide, so a segment that later tokens
leave alone fails as before. -/
theorem ofTokens_append_of_step {ts : List Token} {done rest : List Segment} {s : Segment}
    {st : Stacks} {err : Error} (hts : Segment.ofTokens ts = done ++ s :: rest)
    (hrun : Stacks.empty.run done = .ok st) (hstep : st.step s = .error err)
    (hsettled : s.isOperand → 2 ≤ (rest.flatMap Segment.tokens).length) (more : List Token) :
    ofTokens (ts ++ more) = .error err := by
  obtain ⟨rest', hmore⟩ := Segment.exists_ofTokens_append hts hsettled more
  refine ofTokens_eq_error_iff.mpr (.inl ?_)
  rw [hmore, Stacks.run_append hrun, Stacks.run_cons_of_error hstep]

/-- The method stops at the token `t` of `ts`, between `before` and `after`: it has taken what is
before, it takes `t` for an operand that stands alone, and it finds that it is none. -/
def StopsAt (ts before : List Token) (t : Token) (after : List Token) : Prop :=
  ∃ done rest st, Segment.ofTokens ts = done ++ .lone t :: rest ∧
    done.flatMap Segment.tokens = before ∧ rest.flatMap Segment.tokens = after ∧
    Stacks.empty.run done = .ok st ∧ st.step (.lone t) = .error (.unrecognized t)

/-- A token is refused where the method stops. -/
theorem exists_stopsAt_of_ofTokens {ts : List Token} {t : Token}
    (h : ofTokens ts = .error (.unrecognized t)) : ∃ before after, StopsAt ts before t after := by
  rcases ofTokens_eq_error_iff.mp h with hrun | ⟨st, -, hresult⟩
  · obtain ⟨done, s, rest, st, hts, hdone, hstep⟩ := Stacks.exists_step_of_run_eq_error hrun
    obtain ⟨rfl, -⟩ := Stacks.lone_of_step_eq_unrecognized hstep
    exact ⟨_, _, done, rest, st, hts, rfl, rfl, hdone, hstep⟩
  · exact absurd hresult (st.result_ne_unrecognized t)

/-- The method stops at the first operand that is nothing. -/
theorem StopsAt.firstUnreadable {ts before after : List Token} {t : Token}
    (h : StopsAt ts before t after) : Segment.FirstUnreadable ts before t after := by
  obtain ⟨done, rest, st, hts, rfl, rfl, hrun, hstep⟩ := h
  obtain ⟨-, hnone⟩ := Stacks.lone_of_step_eq_unrecognized hstep
  have hno : ∀ a, ¬ Atom.Spelled [t] a := by
    intro a ha
    rw [Atom.ofToken?_eq_some_iff.mpr ha] at hnone
    cases hnone
  have hlast : Segment.ofTokens (t :: rest.flatMap Segment.tokens) = .lone t :: rest :=
    Segment.ofTokens_flatMap_tokens hts
  exact {
    operandAt := ⟨done, .lone t, rest, hts, rfl, rfl, rfl⟩
    no_comparison := Segment.not_startsComparison hlast
    no_date := Option.eq_none_iff_forall_ne_some.mpr fun s hs => hno _ (.date hs)
    no_call := Option.eq_none_iff_forall_ne_some.mpr fun c hc => hno _ (.call hc)
    no_field := Option.eq_none_iff_forall_ne_some.mpr fun name hname => hno _ (.field hname)
    first := by
      rintro a u b ⟨done', s, rest', hts', hoperand, rfl, hs⟩ hlength
      -- An operand farther left is one of the segments that have been taken.
      have hmem : s ∈ done := by
        rcases List.append_eq_append_iff.mp (hts.symm.trans hts') with
          ⟨between, hdone', -⟩ | ⟨between, hdone, hbetween⟩
        · rw [hdone', List.flatMap_append, List.length_append] at hlength
          omega
        · cases between with
          | nil =>
            rw [hdone, List.append_nil] at hlength
            omega
          | cons s' between =>
            rw [hdone, (List.cons.inj hbetween).1]
            exact List.mem_append_right done' List.mem_cons_self
      obtain ⟨a, ha⟩ := (Stacks.holding_of_run hrun).exists_atom? hmem hoperand
      exact Segment.readable_of_atom? ha hs }

/-- **Later tokens do not take an error back.** If a closing parenthesis is refused, it is refused
whatever follows. If a token is refused as no operand, it is the first operand that is nothing, and
with two more tokens behind it it is refused whatever follows these. -/
theorem ofTokens_append_of_error (ts more : List Token) :
    (ofTokens ts = .error (.unbalanced .closing) →
      ofTokens (ts ++ more) = .error (.unbalanced .closing)) ∧
    ∀ t, ofTokens ts = .error (.unrecognized t) →
      (∃ before after, StopsAt ts before t after) ∧
      ∀ before after, StopsAt ts before t after →
        ts = before ++ t :: after ∧ Segment.FirstUnreadable ts before t after ∧
        (2 ≤ after.length → ofTokens (ts ++ more) = .error (.unrecognized t)) := by
  refine ⟨fun h => ?_, fun t h => ⟨exists_stopsAt_of_ofTokens h, fun before after hstops => ?_⟩⟩
  · rcases ofTokens_eq_error_iff.mp h with hrun | ⟨st, -, hresult⟩
    · obtain ⟨done, s, rest, st, hts, hdone, hstep⟩ := Stacks.exists_step_of_run_eq_error hrun
      obtain ⟨-, rfl, -⟩ := Stacks.closing_of_step_eq_unbalanced hstep
      exact ofTokens_append_of_step hts hdone hstep (fun hoperand => by cases hoperand) more
    · cases (Stacks.opening_of_result_eq_unbalanced hresult).1
  · refine ⟨?_, hstops.firstUnreadable, fun htwo => ?_⟩
    · obtain ⟨done, rest, st, hts, rfl, rfl, -⟩ := hstops
      have htokens := Segment.flatMap_tokens_ofTokens ts
      rw [hts, List.flatMap_append] at htokens
      exact htokens.symm
    · obtain ⟨done, rest, st, hts, rfl, rfl, hrun, hstep⟩ := hstops
      exact ofTokens_append_of_step hts hrun hstep (fun _ => htwo) more

/-- In `[A] = 1 and foo bar baz` the token `foo` is refused, also with a comparison behind it, and in
`[A] )` the parenthesis is refused, also with a partner behind it. -/
theorem ofTokens_append_of_error_foo :
    Segment.FirstUnreadable
      (["[A]", "=", "1", "and", "foo", "bar", "baz"].map (Token.mk ∘ String.toList))
      (["[A]", "=", "1", "and"].map (Token.mk ∘ String.toList)) ⟨"foo".toList⟩
      (["bar", "baz"].map (Token.mk ∘ String.toList)) ∧
    ofTokens (["[A]", "=", "1", "and", "foo", "bar", "baz"].map (Token.mk ∘ String.toList) ++
      ["=", "1"].map (Token.mk ∘ String.toList)) = .error (.unrecognized ⟨"foo".toList⟩) ∧
    ofTokens (["[A]", ")"].map (Token.mk ∘ String.toList) ++
      ["(", "[B]"].map (Token.mk ∘ String.toList)) = .error (.unbalanced .closing) := by
  have hfoo : ofTokens (["[A]", "=", "1", "and", "foo", "bar", "baz"].map
      (Token.mk ∘ String.toList)) = .error (.unrecognized ⟨"foo".toList⟩) := by rfl
  have hstops : StopsAt (["[A]", "=", "1", "and", "foo", "bar", "baz"].map
      (Token.mk ∘ String.toList)) (["[A]", "=", "1", "and"].map (Token.mk ∘ String.toList))
      ⟨"foo".toList⟩ (["bar", "baz"].map (Token.mk ∘ String.toList)) :=
    ⟨Segment.ofTokens (["[A]", "=", "1", "and"].map (Token.mk ∘ String.toList)),
      Segment.ofTokens (["bar", "baz"].map (Token.mk ∘ String.toList)), _, rfl, rfl, rfl, rfl, rfl⟩
  have hclosing : ofTokens (["[A]", ")"].map (Token.mk ∘ String.toList)) =
      .error (.unbalanced .closing) := by rfl
  obtain ⟨-, hfirst, hstays⟩ := ((ofTokens_append_of_error _ _).2 _ hfoo).2 _ _ hstops
  exact ⟨hfirst, hstays (by decide), (ofTokens_append_of_error _ _).1 hclosing⟩

end Expr

end Criteria
