/-
Parentheses are refused exactly where they are unbalanced. The parentheses of a list of tokens are
those that stand for structure: a value of a comparison may be a parenthesis too, and is none of
them.

The method keeps no count of open groups. They lie among the connectives that wait for their
operands, and every loop that applies connectives goes on from the top until it meets one. What
makes this a count is that such a loop takes connectives only, so the groups on the stack are as
many as the parentheses opened and not closed (`Stacks.Nested`). A `)` that finds no group on the
stack is one too many in what has been read; a group that is left at the end was never closed.

Another error may come first, so a list with unbalanced parentheses need not be refused for them.
But it is refused.
-/
import Criteria.Proofs.Marks
import Criteria.Proofs.Steps
import Mathlib.Data.List.Infix

set_option autoImplicit false

namespace Criteria

/-! ## Balanced parentheses -/

/-- No beginning has more closing parentheses than opening ones. -/
def Paren.NoExcess (ps : List Paren) : Prop :=
  ∀ begun, begun <+: ps → begun.count .closing ≤ begun.count .opening

/-- Every parenthesis has its partner. -/
structure Paren.Balanced (ps : List Paren) : Prop where
  no_excess : NoExcess ps
  total : ps.count .opening = ps.count .closing

instance (ps : List Paren) : Decidable (Paren.NoExcess ps) :=
  decidable_of_iff (∀ begun ∈ ps.inits, begun.count .closing ≤ begun.count .opening)
    (forall_congr' fun begun => by rw [List.mem_inits])

instance (ps : List Paren) : Decidable (Paren.Balanced ps) :=
  decidable_of_iff (Paren.NoExcess ps ∧ ps.count .opening = ps.count .closing)
    ⟨fun h => ⟨h.1, h.2⟩, fun h => ⟨h.no_excess, h.total⟩⟩

theorem Paren.noExcess_nil : NoExcess [] := by
  intro begun hbegun
  rw [List.prefix_nil.mp hbegun]
  exact Nat.le_refl _

/-- One more parenthesis may follow if it opens, or if one is open. -/
theorem Paren.NoExcess.append {ps : List Paren} (h : NoExcess ps) {p : Paren}
    (hp : p = .closing → ps.count .closing < ps.count .opening) : NoExcess (ps ++ [p]) := by
  intro begun hbegun
  rcases List.prefix_concat_iff.mp hbegun with rfl | hbegun
  · rw [List.count_append, List.count_append]
    cases p with
    | opening =>
      have hps := h ps List.prefix_rfl
      rw [List.count_singleton_self]
      have hzero : List.count Paren.closing [.opening] = 0 := rfl
      omega
    | closing =>
      have hps := hp rfl
      rw [List.count_singleton_self]
      omega
  · exact h begun hbegun

/-- The parenthesis that a segment is, if it is one. -/
def Segment.paren? : Segment → Option Paren
  | .paren p => some p
  | .connective _ _ | .comparison _ _ _ | .lone _ => none

/-- A segment has a parenthesis off its value exactly if it is one. -/
theorem Segment.filterMap_pick_false {s : Segment} (hs : s.Faithful) :
    (Token.pick false s.marks s.tokens).filterMap (fun t => Paren.ofText? t.text) =
      s.paren?.toList := by
  cases s with
  | paren p =>
    have hp : Paren.ofText? [p.char] = some p := Paren.ofText?_eq_some_iff.mpr rfl
    simp [marks, tokens, paren?, hp]
  | connective c w =>
    have hw := Paren.ofText?_eq_none_of_connective hs
    simp [marks, tokens, paren?, hw]
  | comparison f op v =>
    have hf := (structural?_eq_none_iff.mp hs).1
    have hop := (structural?_eq_none_iff.mp (structural?_symbol op)).1
    simp [marks, tokens, paren?, hf, hop]
  | lone t =>
    have ht := (structural?_eq_none_iff.mp hs).1
    simp [marks, tokens, paren?, ht]

namespace Token

/-- The parentheses of a list of tokens that are not values of comparisons. -/
def parens (ts : List Token) : List Paren :=
  (pick false (marks ts) ts).filterMap fun t => Paren.ofText? t.text

/-- The parentheses of a list are the segments that are parentheses. -/
theorem parens_eq (ts : List Token) :
    parens ts = (Segment.ofTokens ts).filterMap Segment.paren? := by
  rw [parens, pick_marks, List.filterMap_flatMap, List.filterMap_eq_flatMap_toList]
  exact List.flatMap_congr fun s hs =>
    Segment.filterMap_pick_false (Segment.faithful_of_mem_ofTokens s hs)

end Token

/-! ## Open groups -/

namespace Stacks

/-- The groups that are open after some segments: as many as their parentheses leave open. -/
structure Nested (ss : List Segment) (st : Stacks) : Prop where
  no_excess : Paren.NoExcess (ss.filterMap Segment.paren?)
  open_groups : (ss.filterMap Segment.paren?).count .opening =
    (ss.filterMap Segment.paren?).count .closing + st.pending.count .group

/-- Unwinding takes connectives only. -/
theorem count_group_of_unwind {p : Connective → Bool} {es : List Expr} {pending : List Pending}
    {st : Stacks} (h : unwind p es pending = .ok st) :
    st.pending.count .group = pending.count .group := by
  refine (unwind_induction (P := fun _ ps => ps.count .group = pending.count .group) ?_ rfl h).1
  intro c es es' ps _ hps
  rwa [List.count_cons_of_ne Pending.noConfusion] at hps

/-- A segment that is no parenthesis changes nothing about groups. -/
theorem Nested.append_of_paren?_eq_none {ss : List Segment} {st st' : Stacks} {s : Segment}
    (h : Nested ss st) (hs : s.paren? = none)
    (hcount : st'.pending.count .group = st.pending.count .group) : Nested (ss ++ [s]) st' := by
  have hparens : (ss ++ [s]).filterMap Segment.paren? = ss.filterMap Segment.paren? := by
    simp [hs]
  constructor
  · rw [hparens]
    exact h.no_excess
  · rw [hparens, hcount]
    exact h.open_groups

/-- **Every move keeps the count.** -/
theorem Nested.move (ss : List Segment) (st : Stacks) (s : Segment) (st' : Stacks)
    (hmove : Move st s st') (h : Nested ss st) : Nested (ss ++ [s]) st' := by
  have hgroups := h.open_groups
  cases hmove with
  | opening =>
    constructor
    · rw [List.filterMap_append]
      exact h.no_excess.append fun hp => by cases hp
    · rw [List.filterMap_append, List.count_append, List.count_append]
      simp [Segment.paren?, pushPending]
      omega
  | @closing es ps hunwind =>
    have hcount := count_group_of_unwind hunwind
    rw [List.count_cons_self] at hcount
    constructor
    · rw [List.filterMap_append]
      exact h.no_excess.append fun _ => by omega
    · rw [List.filterMap_append, List.count_append, List.count_append]
      simp [Segment.paren?]
      omega
  | not => exact h.append_of_paren?_eq_none rfl (List.count_cons_of_ne Pending.noConfusion)
  | binary _ hunwind =>
    refine h.append_of_paren?_eq_none rfl ?_
    rw [pushPending, List.count_cons_of_ne Pending.noConfusion]
    exact count_group_of_unwind hunwind
  | operand ha =>
    have hnone : s.paren? = none := by
      cases s with
      | paren p => cases ha
      | connective | comparison | lone => rfl
    exact h.append_of_paren?_eq_none hnone rfl

theorem nested_of_run {ss : List Segment} {st : Stacks} (h : Stacks.empty.run ss = .ok st) :
    Nested ss st := by
  have hempty : Nested [] empty := ⟨Paren.noExcess_nil, rfl⟩
  exact run_induction Nested.move hempty h

/-- A run is stopped by a closing parenthesis only if the parentheses up to it have no balance. -/
theorem exists_excess_of_run {ss : List Segment} {p : Paren}
    (h : Stacks.empty.run ss = .error (.unbalanced p)) :
    p = .closing ∧ ∃ begun, begun <+: ss.filterMap Segment.paren? ∧
      begun.count .opening < begun.count .closing := by
  obtain ⟨done, s, rest, st, rfl, hrun, hstep⟩ := exists_step_of_run_eq_error h
  obtain ⟨rfl, rfl, es, hunwind⟩ := closing_of_step_eq_unbalanced hstep
  have hgroups := (nested_of_run hrun).open_groups
  have hcount := count_group_of_unwind hunwind
  rw [List.count_nil] at hcount
  refine ⟨rfl, done.filterMap Segment.paren? ++ [.closing], ?_, ?_⟩
  · exact ⟨rest.filterMap Segment.paren?, by simp [Segment.paren?]⟩
  · rw [List.count_append, List.count_append, List.count_singleton_self]
    have hzero : List.count Paren.opening [.closing] = 0 := rfl
    omega

/-- At the end the groups that unwinding leaves are those that were never closed. -/
theorem Nested.count_opening {ss : List Segment} {st st' : Stacks} (h : Nested ss st)
    (hunwind : st.unwindGroup = .ok st') :
    (ss.filterMap Segment.paren?).count .opening =
      (ss.filterMap Segment.paren?).count .closing + st'.pending.count .group := by
  rw [count_group_of_unwind hunwind]
  exact h.open_groups

end Stacks

/-! ## Errors -/

namespace Expr

theorem balanced_of_ofTokens_eq_ok {ts : List Token} {e : Expr} (h : ofTokens ts = .ok e) :
    Paren.Balanced (Token.parens ts) := by
  obtain ⟨st, hrun, hresult⟩ := ofTokens_eq_ok_iff.mp h
  have hnested := Stacks.nested_of_run hrun
  have hcount := hnested.count_opening (Stacks.result_eq_ok_iff.mp hresult)
  rw [List.count_nil] at hcount
  rw [Token.parens_eq]
  exact ⟨hnested.no_excess, hcount⟩

theorem exists_excess_of_ofTokens {ts : List Token}
    (h : ofTokens ts = .error (.unbalanced .closing)) :
    ∃ begun, begun <+: Token.parens ts ∧ begun.count .opening < begun.count .closing := by
  rw [Token.parens_eq]
  rcases ofTokens_eq_error_iff.mp h with hrun | ⟨st, -, hresult⟩
  · exact (Stacks.exists_excess_of_run hrun).2
  · -- At the end no closing parenthesis is to blame.
    cases (Stacks.opening_of_result_eq_unbalanced hresult).1

theorem count_lt_of_ofTokens {ts : List Token}
    (h : ofTokens ts = .error (.unbalanced .opening)) :
    Paren.NoExcess (Token.parens ts) ∧
      (Token.parens ts).count .closing < (Token.parens ts).count .opening := by
  rw [Token.parens_eq]
  rcases ofTokens_eq_error_iff.mp h with hrun | ⟨st, hrun, hresult⟩
  · cases (Stacks.exists_excess_of_run hrun).1
  · obtain ⟨-, es, ps, hunwind⟩ := Stacks.opening_of_result_eq_unbalanced hresult
    have hnested := Stacks.nested_of_run hrun
    have hcount := hnested.count_opening hunwind
    rw [List.count_cons_self] at hcount
    exact ⟨hnested.no_excess, by omega⟩

/-- **Errors about parentheses are exact.** Let a parenthesis count unless it is the value of a
comparison. A list that is read has balanced parentheses. If a closing parenthesis is found
unbalanced, some beginning of the list has more closing than opening parentheses; if an opening one
is, no beginning has, and the list has more opening than closing ones. So a list with balanced
parentheses is not refused for them, and a list with unbalanced ones is never read. -/
theorem ofTokens_balances (ts : List Token) :
    (∀ e, ofTokens ts = .ok e → Paren.Balanced (Token.parens ts)) ∧
    (ofTokens ts = .error (.unbalanced .closing) →
      ∃ begun, begun <+: Token.parens ts ∧ begun.count .opening < begun.count .closing) ∧
    (ofTokens ts = .error (.unbalanced .opening) →
      (∀ begun, begun <+: Token.parens ts → begun.count .closing ≤ begun.count .opening) ∧
        (Token.parens ts).count .closing < (Token.parens ts).count .opening) ∧
    (Paren.Balanced (Token.parens ts) → ∀ p, ofTokens ts ≠ .error (.unbalanced p)) ∧
    (¬ Paren.Balanced (Token.parens ts) → ∀ e, ofTokens ts ≠ .ok e) := by
  refine ⟨fun e => balanced_of_ofTokens_eq_ok, exists_excess_of_ofTokens, count_lt_of_ofTokens,
    fun hbalanced p h => ?_, fun hnot e h => hnot (balanced_of_ofTokens_eq_ok h)⟩
  cases p with
  | opening =>
    obtain ⟨-, hmore⟩ := count_lt_of_ofTokens h
    have htotal := hbalanced.total
    omega
  | closing =>
    obtain ⟨begun, hbegun, hmore⟩ := exists_excess_of_ofTokens h
    have hless := hbalanced.no_excess begun hbegun
    omega

/-- In `( [A] = ) )` the first `)` is a value, so the list is read; in `( [A] = )` nothing closes
the group. `[A] ) (` has as many parentheses of one kind as of the other, and `foo ) (` is refused
for another reason. -/
theorem ofTokens_balances_value : ∃ read closing opening other : List Token,
    read.map (String.ofList ∘ Token.text) = ["(", "[A]", "=", ")", ")"] ∧
    closing.map (String.ofList ∘ Token.text) = ["[A]", ")", "("] ∧
    opening.map (String.ofList ∘ Token.text) = ["(", "[A]", "=", ")"] ∧
    other.map (String.ofList ∘ Token.text) = ["foo", ")", "("] ∧
    Paren.Balanced (Token.parens read) ∧ (∀ p, ofTokens read ≠ .error (.unbalanced p)) ∧
    (∃ begun, begun <+: Token.parens closing ∧ begun.count .opening < begun.count .closing) ∧
    (Token.parens opening).count .closing < (Token.parens opening).count .opening ∧
    ∀ e, ofTokens other ≠ .ok e := by
  have hread : ofTokens (["(", "[A]", "=", ")", ")"].map (Token.mk ∘ String.toList)) =
      .ok (.atom (.comparison ['A'] .eq [')'])) := by rfl
  have hclosing : ofTokens (["[A]", ")", "("].map (Token.mk ∘ String.toList)) =
      .error (.unbalanced .closing) := by rfl
  have hopening : ofTokens (["(", "[A]", "=", ")"].map (Token.mk ∘ String.toList)) =
      .error (.unbalanced .opening) := by rfl
  have hother : ¬ Paren.Balanced (Token.parens (["foo", ")", "("].map
      (Token.mk ∘ String.toList))) := by decide
  obtain ⟨hbalanced, -, -, hnever, -⟩ :=
    ofTokens_balances (["(", "[A]", "=", ")", ")"].map (Token.mk ∘ String.toList))
  obtain ⟨-, hexcess, -, -, -⟩ :=
    ofTokens_balances (["[A]", ")", "("].map (Token.mk ∘ String.toList))
  obtain ⟨-, -, hmore, -, -⟩ :=
    ofTokens_balances (["(", "[A]", "=", ")"].map (Token.mk ∘ String.toList))
  obtain ⟨-, -, -, -, hnot⟩ :=
    ofTokens_balances (["foo", ")", "("].map (Token.mk ∘ String.toList))
  exact ⟨_, _, _, _, rfl, rfl, rfl, rfl, hbalanced _ hread, hnever (hbalanced _ hread),
    hexcess hclosing, (hmore hopening).2, hnot hother⟩

end Expr

end Criteria
