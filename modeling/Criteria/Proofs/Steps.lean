/-
What one step of the precedence method can do, said once. A connective is applied to the operands
on top (`combine_eq_ok_iff`), unwinding applies connectives one after the other
(`unwind_induction`), and a segment moves the stacks in one of five ways (`step_eq_ok_iff`). What
each of these keeps, a run keeps (`run_induction`).
-/
import Criteria.Expr.Parser
import Criteria.Proofs.Lookahead

set_option autoImplicit false

namespace Criteria

namespace Stacks

/-! ## Combining -/

/-- Applying a connective takes its operands from the top and puts one expression in their
place. -/
theorem combine_eq_ok_iff {c : Connective} {es es' : List Expr} :
    combine c es = .ok es' ↔
      (∃ e rest, c = .not ∧ es = e :: rest ∧ es' = .not e :: rest) ∨
      (∃ l r rest, c = .and ∧ es = r :: l :: rest ∧ es' = .and l r :: rest) ∨
      (∃ l r rest, c = .or ∧ es = r :: l :: rest ∧ es' = .or l r :: rest) := by
  constructor
  · intro h
    unfold combine at h
    split at h
    · exact .inl ⟨_, _, rfl, rfl, (Except.ok.inj h).symm⟩
    · exact .inr (.inl ⟨_, _, _, rfl, rfl, (Except.ok.inj h).symm⟩)
    · exact .inr (.inr ⟨_, _, _, rfl, rfl, (Except.ok.inj h).symm⟩)
    · cases h
  · rintro (⟨e, rest, rfl, rfl, rfl⟩ | ⟨l, r, rest, rfl, rfl, rfl⟩ | ⟨l, r, rest, rfl, rfl, rfl⟩)
    · rfl
    · rfl
    · rfl

theorem eq_missingOperand_of_combine {c : Connective} {es : List Expr} {err : Error}
    (h : combine c es = .error err) : err = .missingOperand c := by
  unfold combine at h
  split at h
  · cases h
  · cases h
  · cases h
  · exact (Except.error.inj h).symm

/-! ## Unwinding -/

section Unwind

variable {p : Connective → Bool} {es es' : List Expr} {pending : List Pending} {st : Stacks}

theorem unwind_of_combine {c : Connective} (hp : p c = true) (h : combine c es = .ok es')
    (pending : List Pending) : unwind p es (.connective c :: pending) = unwind p es' pending := by
  rw [unwind, if_pos hp, h]

/-- Unwinding stops at once where the connective on top is not to be applied. -/
theorem unwind_of_stop (h : ∀ c ps, pending = .connective c :: ps → p c = false)
    (es : List Expr) : unwind p es pending = .ok ⟨es, pending⟩ := by
  match pending with
  | [] => rfl
  | .group :: ps => rfl
  | .connective c :: ps =>
    have hc : ¬ p c = true := by
      rw [h c ps rfl]
      exact Bool.false_ne_true
    rw [unwind, if_neg hc]

/-- **What applying one connective keeps, unwinding keeps**; and it stops where nothing on top is
to be applied. -/
theorem unwind_induction {P : List Expr → List Pending → Prop}
    (hstep : ∀ c es es' ps, combine c es = .ok es' → P es (.connective c :: ps) → P es' ps)
    (h : P es pending) (hunwind : unwind p es pending = .ok st) :
    P st.operands st.pending ∧ ∀ c ps, st.pending = .connective c :: ps → p c = false := by
  -- The induction is on what is pending; the operands change with each connective applied.
  induction pending generalizing es with
  | nil =>
    rw [← Except.ok.inj hunwind]
    exact ⟨h, fun c ps hps => by cases hps⟩
  | cons top ps ih =>
    cases top with
    | group =>
      rw [← Except.ok.inj hunwind]
      exact ⟨h, fun c ps hps => by cases hps⟩
    | connective c =>
      by_cases hc : p c = true
      · cases hcombine : combine c es with
        | ok es' =>
          rw [unwind_of_combine hc hcombine] at hunwind
          exact ih (hstep c es es' ps hcombine h) hunwind
        | error err =>
          rw [unwind, if_pos hc, hcombine] at hunwind
          cases hunwind
      · rw [unwind, if_neg hc] at hunwind
        rw [← Except.ok.inj hunwind]
        refine ⟨h, fun c' ps' hps => ?_⟩
        obtain rfl : c = c' := by simpa using (List.cons.inj hps).1
        simpa using hc

/-- Unwinding stops only at a connective that is not to be applied. -/
theorem eq_false_of_unwind {c : Connective} {ps : List Pending}
    (h : unwind p es pending = .ok st) (htop : st.pending = .connective c :: ps) :
    p c = false := by
  have hstop := (unwind_induction (fun _ _ _ _ _ _ => trivial) trivial h).2
  exact hstop c ps htop

theorem exists_missingOperand_of_unwind {err : Error} (h : unwind p es pending = .error err) :
    ∃ c, err = .missingOperand c := by
  induction pending generalizing es with
  | nil => cases h
  | cons top ps ih =>
    cases top with
    | group => cases h
    | connective c =>
      by_cases hc : p c = true
      · cases hcombine : combine c es with
        | ok es' =>
          rw [unwind_of_combine hc hcombine] at h
          exact ih h
        | error err' =>
          rw [unwind, if_pos hc, hcombine] at h
          rw [← Except.error.inj h]
          exact ⟨c, eq_missingOperand_of_combine hcombine⟩
      · rw [unwind, if_neg hc] at h
        cases h

end Unwind

/-- Unwinding a group leaves no connective on top. -/
theorem pending_of_unwindGroup {st st' : Stacks} (h : st.unwindGroup = .ok st') :
    st'.pending = [] ∨ ∃ ps, st'.pending = .group :: ps := by
  cases hpending : st'.pending with
  | nil => exact .inl rfl
  | cons top ps =>
    cases top with
    | group => exact .inr ⟨ps, rfl⟩
    | connective c => exact absurd (eq_false_of_unwind h hpending) Bool.noConfusion

/-! ## Steps -/

/-- The five ways in which a segment moves the stacks. -/
inductive Move (st : Stacks) : Segment → Stacks → Prop where
  | opening : Move st (.paren .opening) (st.pushPending .group)
  | closing {es : List Expr} {ps : List Pending} :
      st.unwindGroup = .ok ⟨es, .group :: ps⟩ → Move st (.paren .closing) ⟨es, ps⟩
  | not {w : Token} : Move st (.connective .not w) (st.pushPending (.connective .not))
  | binary {c : Connective} {w : Token} {st' : Stacks} :
      c ≠ .not →
      unwind (fun top => c.precedence ≤ top.precedence) st.operands st.pending = .ok st' →
      Move st (.connective c w) (st'.pushPending (.connective c))
  | operand {s : Segment} {a : Atom} :
      s.atom? = some a → Move st s (st.pushOperand (.atom a))

/-- `and` and `or` unwind what binds at least as tightly, and then wait. -/
theorem step_of_ne_not {c : Connective} (hc : c ≠ .not) (st : Stacks) (w : Token) :
    st.step (.connective c w) =
      (unwind (fun top => c.precedence ≤ top.precedence) st.operands st.pending).map
        (pushPending (.connective c)) := by
  cases c with
  | not => exact absurd rfl hc
  | and =>
    simp only [step, connect]
    cases unwind (fun top => Connective.and.precedence ≤ top.precedence) st.operands st.pending <;>
      rfl
  | or =>
    simp only [step, connect]
    cases unwind (fun top => Connective.or.precedence ≤ top.precedence) st.operands st.pending <;>
      rfl

theorem step_of_atom? {s : Segment} {a : Atom} (h : s.atom? = some a) (st : Stacks) :
    st.step s = .ok (st.pushOperand (.atom a)) := by
  cases s with
  | paren p => simp [Segment.atom?] at h
  | connective c w => simp [Segment.atom?] at h
  | comparison f op v =>
    rw [← Option.some.inj h]
    rfl
  | lone t =>
    rw [Segment.atom?] at h
    rw [step, h]

/-- A step succeeds exactly if the segment moves the stacks. -/
theorem step_eq_ok_iff {st st' : Stacks} {s : Segment} : st.step s = .ok st' ↔ Move st s st' := by
  constructor
  · intro h
    cases s with
    | paren p =>
      cases p with
      | opening =>
        rw [← Except.ok.inj h]
        exact .opening
      | closing =>
        rw [step, close] at h
        cases hunwind : st.unwindGroup with
        | error err =>
          rw [hunwind] at h
          cases h
        | ok st₁ =>
          obtain ⟨es, pending⟩ := st₁
          rw [hunwind] at h
          -- What is on top is the group to close, or there is none.
          rcases pending_of_unwindGroup hunwind with hnil | ⟨ps, hgroup⟩
          · obtain rfl : pending = [] := hnil
            cases h
          · obtain rfl : pending = .group :: ps := hgroup
            rw [← Except.ok.inj h]
            exact .closing hunwind
    | connective c w =>
      by_cases hc : c = .not
      · subst hc
        rw [← Except.ok.inj h]
        exact .not
      · rw [step_of_ne_not hc] at h
        cases hunwind :
            unwind (fun top => c.precedence ≤ top.precedence) st.operands st.pending with
        | error err =>
          rw [hunwind] at h
          cases h
        | ok st₁ =>
          rw [hunwind] at h
          rw [← Except.ok.inj h]
          exact .binary hc hunwind
    | comparison f op v =>
      rw [← Except.ok.inj h]
      exact .operand rfl
    | lone t =>
      -- Here alone the step looks at what the token says.
      rw [step] at h
      split at h
      · rename_i a ha
        rw [← Except.ok.inj h]
        exact .operand ha
      · cases h
  · intro h
    cases h with
    | opening => rfl
    | closing hunwind =>
      rw [step, close, hunwind]
      rfl
    | not => rfl
    | binary hc hunwind =>
      rw [step_of_ne_not hc, hunwind]
      rfl
    | operand ha => exact step_of_atom? ha st

/-- The three ways in which a step fails: an operand is missing, or a group is closed that is not
open, or a lone token is no condition. -/
inductive Failure (st : Stacks) : Segment → Error → Prop where
  | missingOperand {s : Segment} {c : Connective} : Failure st s (.missingOperand c)
  | closing {es : List Expr} :
      st.unwindGroup = .ok ⟨es, []⟩ → Failure st (.paren .closing) (.unbalanced .closing)
  | unrecognized {t : Token} : Atom.ofToken? t = none → Failure st (.lone t) (.unrecognized t)

/-- Why a step fails. -/
theorem failure_of_step {st : Stacks} {s : Segment} {err : Error} (h : st.step s = .error err) :
    Failure st s err := by
  cases s with
  | paren p =>
    cases p with
    | opening => cases h
    | closing =>
      rw [step, close] at h
      cases hunwind : st.unwindGroup with
      | error err' =>
        obtain ⟨c, rfl⟩ := exists_missingOperand_of_unwind hunwind
        rw [hunwind] at h
        rw [← Except.error.inj h]
        exact .missingOperand
      | ok st₁ =>
        obtain ⟨es, pending⟩ := st₁
        rw [hunwind] at h
        cases pending with
        | nil =>
          rw [← Except.error.inj h]
          exact .closing hunwind
        | cons top ps => cases h
  | connective c w =>
    by_cases hc : c = .not
    · subst hc
      cases h
    · rw [step_of_ne_not hc] at h
      cases hunwind :
          unwind (fun top => c.precedence ≤ top.precedence) st.operands st.pending with
      | error err' =>
        obtain ⟨c', rfl⟩ := exists_missingOperand_of_unwind hunwind
        rw [hunwind] at h
        rw [← Except.error.inj h]
        exact .missingOperand
      | ok st₁ =>
        rw [hunwind] at h
        cases h
  | comparison f op v => cases h
  | lone t =>
    rw [step] at h
    split at h
    · cases h
    · rename_i hnone
      rw [← Except.error.inj h]
      exact .unrecognized hnone

theorem error_of_step {st : Stacks} {s : Segment} {err : Error} (h : st.step s = .error err) :
    (∃ c, err = .missingOperand c) ∨ err = .unbalanced .closing ∨ ∃ t, err = .unrecognized t := by
  cases failure_of_step h with
  | missingOperand => exact .inl ⟨_, rfl⟩
  | closing _ => exact .inr (.inl rfl)
  | unrecognized _ => exact .inr (.inr ⟨_, rfl⟩)

/-- A step finds parentheses unbalanced where a group is to be closed and none is open. -/
theorem closing_of_step_eq_unbalanced {st : Stacks} {s : Segment} {p : Paren}
    (h : st.step s = .error (.unbalanced p)) :
    p = .closing ∧ s = .paren .closing ∧ ∃ es, st.unwindGroup = .ok ⟨es, []⟩ := by
  cases failure_of_step h with
  | closing hunwind => exact ⟨rfl, rfl, _, hunwind⟩

/-- A step refuses a token that stands alone and is no condition. -/
theorem lone_of_step_eq_unrecognized {st : Stacks} {s : Segment} {t : Token}
    (h : st.step s = .error (.unrecognized t)) : s = .lone t ∧ Atom.ofToken? t = none := by
  cases failure_of_step h with
  | unrecognized hnone => exact ⟨rfl, hnone⟩

/-! ## Runs -/

theorem run_cons {st st' : Stacks} {s : Segment} (h : st.step s = .ok st') (ss : List Segment) :
    st.run (s :: ss) = st'.run ss := by
  rw [run, h]
  rfl

theorem run_cons_of_error {st : Stacks} {s : Segment} {err : Error} (h : st.step s = .error err)
    (ss : List Segment) : st.run (s :: ss) = .error err := by
  rw [run, h]
  rfl

theorem run_cons_eq_ok_iff {st st' : Stacks} {s : Segment} {ss : List Segment} :
    st.run (s :: ss) = .ok st' ↔ ∃ st₁, st.step s = .ok st₁ ∧ st₁.run ss = .ok st' := by
  cases hstep : st.step s with
  | error err => simp [run_cons_of_error hstep]
  | ok st₁ => simp [run_cons hstep]

theorem run_append {st st' : Stacks} {ss : List Segment} (h : st.run ss = .ok st')
    (ss' : List Segment) : st.run (ss ++ ss') = st'.run ss' := by
  induction ss generalizing st with
  | nil =>
    rw [← Except.ok.inj h]
    rfl
  | cons s ss ih =>
    obtain ⟨st₁, hstep, hrun⟩ := run_cons_eq_ok_iff.mp h
    rw [List.cons_append, run_cons hstep, ih hrun]

/-- **What every move keeps, a run keeps.** -/
theorem run_induction {P : List Segment → Stacks → Prop}
    (hmove : ∀ ss st s st', Move st s st' → P ss st → P (ss ++ [s]) st')
    {ss ss' : List Segment} {st st' : Stacks} (h : P ss st) (hrun : st.run ss' = .ok st') :
    P (ss ++ ss') st' := by
  -- A segment moves from the front of what is to be read to the end of what has been read.
  induction ss' generalizing ss st with
  | nil =>
    rw [← Except.ok.inj hrun, List.append_nil]
    exact h
  | cons s ss' ih =>
    obtain ⟨st₁, hstep, hrun⟩ := run_cons_eq_ok_iff.mp hrun
    have := ih (hmove ss st s st₁ (step_eq_ok_iff.mp hstep) h) hrun
    rwa [List.append_assoc] at this

/-- The same for what is said of the stacks alone. -/
theorem run_invariant {P : Stacks → Prop}
    (hmove : ∀ {st : Stacks} {s : Segment} {st' : Stacks}, Move st s st' → P st → P st')
    {ss : List Segment} {st st' : Stacks} (h : P st) (hrun : st.run ss = .ok st') : P st' :=
  @run_induction (fun _ => P) (fun _ _ _ _ => hmove) [] ss st st' h hrun

/-- A run that fails gets as far as the step that fails. -/
theorem exists_step_of_run_eq_error {st : Stacks} {ss : List Segment} {err : Error}
    (h : st.run ss = .error err) :
    ∃ done s rest st', ss = done ++ s :: rest ∧ st.run done = .ok st' ∧
      st'.step s = .error err := by
  induction ss generalizing st with
  | nil => cases h
  | cons s ss ih =>
    cases hstep : st.step s with
    | error err' =>
      rw [run_cons_of_error hstep] at h
      exact ⟨[], s, ss, st, rfl, rfl, hstep.trans (congrArg Except.error (Except.error.inj h))⟩
    | ok st₁ =>
      rw [run_cons hstep] at h
      obtain ⟨done, s', rest, st', rfl, hrun, hfail⟩ := ih h
      exact ⟨s :: done, s', rest, st', rfl, (run_cons hstep done).trans hrun, hfail⟩

/-- A run fails as one of its steps does. -/
theorem error_of_run {st : Stacks} {ss : List Segment} {err : Error} (h : st.run ss = .error err) :
    (∃ c, err = .missingOperand c) ∨ err = .unbalanced .closing ∨ ∃ t, err = .unrecognized t := by
  obtain ⟨done, s, rest, st', -, -, hstep⟩ := exists_step_of_run_eq_error h
  exact error_of_step hstep

/-! ## Results -/

theorem result_eq_ok_iff {st : Stacks} {e : Expr} :
    st.result = .ok e ↔ st.unwindGroup = .ok ⟨[e], []⟩ := by
  rw [result]
  cases hunwind : st.unwindGroup with
  | error err => simp [bind, Except.bind]
  | ok st₁ =>
    obtain ⟨es, pending⟩ := st₁
    match es, pending with
    | _, _ :: _ => simp [bind, Except.bind]
    | [], [] => simp [bind, Except.bind]
    | [e'], [] => simp [bind, Except.bind]
    | _ :: _ :: _, [] => simp [bind, Except.bind]

theorem result_eq_unjoined_iff {st : Stacks} {es : List Expr} :
    st.result = .error (.unjoined es) ↔ st.unwindGroup = .ok ⟨es.reverse, []⟩ ∧ 2 ≤ es.length := by
  rw [result]
  cases hunwind : st.unwindGroup with
  | error err =>
    obtain ⟨c, rfl⟩ := exists_missingOperand_of_unwind hunwind
    simp [bind, Except.bind]
  | ok st₁ =>
    obtain ⟨es', pending⟩ := st₁
    match es', pending with
    | _, _ :: _ => simp [bind, Except.bind]
    | [], [] =>
      have hlength : ∀ es : List Expr, [] = es.reverse → es.length < 2 := by simp
      simpa [bind, Except.bind] using hlength es
    | [e'], [] =>
      have hlength : ∀ es : List Expr, [e'] = es.reverse → es.length < 2 := by
        intro es h
        rw [← List.length_reverse, ← h]
        exact Nat.one_lt_two
      simpa [bind, Except.bind] using hlength es
    | e :: e' :: es', [] =>
      simp only [bind, Except.bind, Except.error.injEq, Error.unjoined.injEq, Except.ok.injEq,
        Stacks.mk.injEq, and_true]
      constructor
      · rintro rfl
        refine ⟨(List.reverse_reverse _).symm, ?_⟩
        rw [List.length_reverse]
        exact Nat.le_add_left 2 es'.length
      · rintro ⟨h, _⟩
        rw [h, List.reverse_reverse]

/-- The four ways in which there is no expression at the end: an operand is missing, or a group is
still open, or nothing has been read, or something is left over. -/
inductive NoResult (st : Stacks) : Error → Prop where
  | missingOperand {c : Connective} : NoResult st (.missingOperand c)
  | opening {es : List Expr} {ps : List Pending} :
      st.unwindGroup = .ok ⟨es, .group :: ps⟩ → NoResult st (.unbalanced .opening)
  | noOperand : NoResult st .noOperand
  | unjoined {es : List Expr} : NoResult st (.unjoined es)

/-- Why there is no expression at the end. -/
theorem noResult_of_result {st : Stacks} {err : Error} (h : st.result = .error err) :
    NoResult st err := by
  rw [result] at h
  cases hunwind : st.unwindGroup with
  | error err' =>
    obtain ⟨c, rfl⟩ := exists_missingOperand_of_unwind hunwind
    rw [hunwind] at h
    rw [← Except.error.inj h]
    exact .missingOperand
  | ok left =>
    obtain ⟨es, pending⟩ := left
    rw [hunwind] at h
    rcases pending_of_unwindGroup hunwind with hnil | ⟨ps, hgroup⟩
    · obtain rfl : pending = [] := hnil
      match es, h with
      | [], h =>
        rw [← Except.error.inj h]
        exact .noOperand
      | [e], h => cases h
      | e :: e' :: es, h =>
        rw [← Except.error.inj h]
        exact .unjoined
    · obtain rfl : pending = .group :: ps := hgroup
      rw [← Except.error.inj h]
      exact .opening hunwind

/-- At the end parentheses are unbalanced if a group is still open. -/
theorem opening_of_result_eq_unbalanced {st : Stacks} {p : Paren}
    (h : st.result = .error (.unbalanced p)) :
    p = .opening ∧ ∃ es ps, st.unwindGroup = .ok ⟨es, .group :: ps⟩ := by
  cases noResult_of_result h with
  | opening hunwind => exact ⟨rfl, _, _, hunwind⟩

/-- At the end no token is looked at any more. -/
theorem result_ne_unrecognized (st : Stacks) (t : Token) :
    st.result ≠ .error (.unrecognized t) := by
  intro h
  cases noResult_of_result h

end Stacks

namespace Expr

/-- The work fails while segments are taken, or when none is left. -/
theorem ofTokens_eq_error_iff {ts : List Token} {err : Error} :
    ofTokens ts = .error err ↔ Stacks.empty.run (Segment.ofTokens ts) = .error err ∨
      ∃ st, Stacks.empty.run (Segment.ofTokens ts) = .ok st ∧ st.result = .error err := by
  rw [ofTokens]
  cases Stacks.empty.run (Segment.ofTokens ts) with
  | error err' => simp [bind, Except.bind]
  | ok st => simp [bind, Except.bind]

theorem ofTokens_eq_ok_iff {ts : List Token} {e : Expr} :
    ofTokens ts = .ok e ↔
      ∃ st, Stacks.empty.run (Segment.ofTokens ts) = .ok st ∧ st.result = .ok e := by
  rw [ofTokens]
  cases Stacks.empty.run (Segment.ofTokens ts) with
  | error err => simp [bind, Except.bind]
  | ok st => simp [bind, Except.bind]

theorem ofTokens_eq_unjoined_iff {ts : List Token} {es : List Expr} :
    ofTokens ts = .error (.unjoined es) ↔
      ∃ st, Stacks.empty.run (Segment.ofTokens ts) = .ok st ∧
        st.result = .error (.unjoined es) := by
  rw [ofTokens]
  cases hrun : Stacks.empty.run (Segment.ofTokens ts) with
  | error err =>
    -- A run never fails in this way; only the result does.
    rcases Stacks.error_of_run hrun with ⟨c, rfl⟩ | rfl | ⟨t, rfl⟩ <;> simp [bind, Except.bind]
  | ok st => simp [bind, Except.bind]

end Expr

end Criteria
