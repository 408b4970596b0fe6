/-
Every rule that comes out is a tree of the grammar `Json.IsTree`. The precedence method is said of
expressions, and it might as well hold their rules on its stack: to apply a connective to expressions
and then take their rules is to apply it to the rules (`Stacks.map_toRule_combine`). So the trees are
followed through a run by what is done to rules. A condition that is read puts a tree on the stack,
and negating a tree or joining two gives a tree; hence all operands are trees after every move
(`Stacks.Trees.move`), and the one that is left is a tree.

The conditions are where the work is: each way in which a criterion can spell one, the three tests for
null among them, gives a value of its own production. What this means at every depth
(`Json.IsTree.shaped`) then holds of every criterion that is accepted, under any options.
-/
import Criteria.Conversion
import Criteria.Json.Tree
import Criteria.Proofs.Steps

set_option autoImplicit false

namespace Criteria

/-! ## Conditions -/

theorem Comparison.operator_mem_comparisons (op : Comparison) :
    op.operator ∈ Json.comparisons := by
  cases op <;> decide

/-- The rule of a predicate is a tree. -/
theorem Predicate.isTree_rule (p : Predicate) (field value : Text) :
    (p.rule field value).toJson.IsTree := by
  cases p with
  | isNullOrEmpty => exact .isNullOrEmpty field
  | contains => exact .contains field value
  | startsWith => exact .startsWith field value
  | endsWith => exact .endsWith field value
  | isNull => exact .isNull field (by decide)
  | isNotNull => exact .isNull field (by decide)

theorem Atom.isTree_toRule (a : Atom) : a.toRule.toJson.IsTree := by
  cases a with
  | comparison name op value => exact .comparison name value op.operator_mem_comparisons
  | call c => exact c.predicate.isTree_rule c.field c.value
  | date s => exact .text s
  | field name => exact .var name

/-! ## Rules on the stack -/

/-- Applies a connective to the rules on top, the right one first. -/
def Rule.combine : Connective → List Rule → Except Error (List Rule)
  | .not, r :: rs => .ok (.negate r :: rs)
  | .and, r :: l :: rs => .ok (.apply Connective.and.keyword [l, r] :: rs)
  | .or, r :: l :: rs => .ok (.apply Connective.or.keyword [l, r] :: rs)
  | c, _ => .error (.missingOperand c)

/-- Trees stay trees when a connective is applied. -/
theorem Rule.isTree_of_combine {c : Connective} {rs rs' : List Rule} (h : combine c rs = .ok rs')
    (htrees : ∀ r ∈ rs, r.toJson.IsTree) : ∀ r ∈ rs', r.toJson.IsTree := by
  unfold combine at h
  split at h
  · obtain ⟨hr, hrs⟩ := List.forall_mem_cons.mp htrees
    rw [← Except.ok.inj h]
    exact List.forall_mem_cons.mpr ⟨.negation hr, hrs⟩
  · obtain ⟨hr, hrest⟩ := List.forall_mem_cons.mp htrees
    obtain ⟨hl, hrs⟩ := List.forall_mem_cons.mp hrest
    rw [← Except.ok.inj h]
    exact List.forall_mem_cons.mpr ⟨.and hl hr, hrs⟩
  · obtain ⟨hr, hrest⟩ := List.forall_mem_cons.mp htrees
    obtain ⟨hl, hrs⟩ := List.forall_mem_cons.mp hrest
    rw [← Except.ok.inj h]
    exact List.forall_mem_cons.mpr ⟨.or hl hr, hrs⟩
  · cases h

namespace Stacks

/-- To apply a connective to expressions is to apply it to their rules. It fails on the ones where it
fails on the others, with the same error. -/
theorem map_toRule_combine (c : Connective) (es : List Expr) :
    (combine c es).map (List.map Expr.toRule) = Rule.combine c (es.map Expr.toRule) := by
  cases c with
  | not =>
    match es with
    | [] => rfl
    | _ :: _ => rfl
  | and | or =>
    match es with
    | [] => rfl
    | [_] => rfl
    | _ :: _ :: _ => rfl

/-- The rules of the operands. -/
def rules (st : Stacks) : List Rule := st.operands.map Expr.toRule

/-- The rule of every operand is a tree. -/
def Trees (st : Stacks) : Prop := ∀ r ∈ st.rules, r.toJson.IsTree

theorem Trees.unwind {p : Connective → Bool} {st st' : Stacks} (h : st.Trees)
    (hunwind : Stacks.unwind p st.operands st.pending = .ok st') : st'.Trees := by
  refine (unwind_induction (P := fun es _ => ∀ r ∈ es.map Expr.toRule, r.toJson.IsTree)
    (fun c es es' _ hcombine htrees => ?_) h hunwind).1
  have hrules : Rule.combine c (es.map Expr.toRule) = .ok (es'.map Expr.toRule) := by
    rw [← map_toRule_combine, hcombine]
    rfl
  exact Rule.isTree_of_combine hrules htrees

/-- Every move leaves trees. -/
theorem Trees.move {st st' : Stacks} {s : Segment} (hmove : Move st s st') (h : st.Trees) :
    st'.Trees := by
  cases hmove with
  | opening => exact h
  | @closing es ps hunwind =>
    have hgroup : (⟨es, .group :: ps⟩ : Stacks).Trees := h.unwind hunwind
    exact hgroup
  | not => exact h
  | @binary c _ st₁ _ hunwind =>
    have happlied : st₁.Trees := h.unwind hunwind
    exact happlied
  | @operand _ a _ => exact List.forall_mem_cons.mpr ⟨a.isTree_toRule, h⟩

theorem trees_of_run {ss : List Segment} {st : Stacks} (h : Stacks.empty.run ss = .ok st) :
    st.Trees := by
  have hempty : Stacks.empty.Trees := fun r hr => absurd hr List.not_mem_nil
  exact run_invariant Trees.move hempty h

end Stacks

/-! ## Results -/

/-- What is left of a list of tokens at the end is a tree. -/
theorem Expr.isTree_of_ofTokens {ts : List Token} {e : Expr} (h : ofTokens ts = .ok e) :
    e.toRule.toJson.IsTree := by
  obtain ⟨st, hrun, hresult⟩ := ofTokens_eq_ok_iff.mp h
  have hleft : Stacks.Trees ⟨[e], []⟩ :=
    (Stacks.trees_of_run hrun).unwind (Stacks.result_eq_ok_iff.mp hresult)
  exact hleft e.toRule (List.mem_singleton.mpr rfl)

/-- The rule of a criterion is the rule of the expression that its tokens spell. -/
theorem Options.exists_of_toRule {o : Options} {criterion : String} {r : Rule}
    (h : o.toRule criterion = .ok r) :
    ∃ e, Expr.ofTokens (o.tokens criterion) = .ok e ∧ r = e.toRule := by
  rw [toRule] at h
  cases he : Expr.ofTokens (o.tokens criterion) with
  | error err =>
    rw [he] at h
    cases h
  | ok e =>
    rw [he] at h
    exact ⟨e, rfl, (Except.ok.inj h).symm⟩

/-- **The shape of every result.** Whatever tokens are read as an expression, and whatever criterion
is accepted under whatever options, the value that comes out is a tree of the grammar, and so at every
depth an object has one member with a known key and what belongs to it, and null is the second
argument of an equality. -/
theorem Expr.isTree_of_accepted :
    (∀ ts e, Expr.ofTokens ts = .ok e → e.toRule.toJson.IsTree ∧ e.toRule.toJson.Shaped) ∧
    (∀ (o : Options) criterion r, o.toRule criterion = .ok r → r.toJson.IsTree ∧ r.toJson.Shaped) := by
  have htokens : ∀ ts e, ofTokens ts = .ok e →
      e.toRule.toJson.IsTree ∧ e.toRule.toJson.Shaped := by
    intro ts e h
    have htree := isTree_of_ofTokens h
    exact ⟨htree, htree.shaped⟩
  refine ⟨htokens, fun o criterion r h => ?_⟩
  obtain ⟨e, hread, rfl⟩ := Options.exists_of_toRule h
  exact htokens _ e hread

/-- In `not (isnullorempty([A]) or [B] <> 'x')` the key `or` stands twice, once for the call and once
for the connective, and null stands seven steps down. -/
theorem Expr.isTree_of_accepted_nested : ∃ (ts : List Token) (e : Expr),
    ts.map (String.ofList ∘ Token.text) =
      ["not", "(", "isnullorempty([A])", "or", "[B]", "<>", "'x'", ")"] ∧
    ofTokens ts = .ok e ∧ e.toRule.toJson.IsTree ∧ e.toRule.toJson.Shaped ∧
    e.toRule.toJson.at? [.key "!".toList, .key "or".toList, .item 0, .key "or".toList, .item 0,
      .key "==".toList, .item 1] = some .null := by
  have hread : ofTokens
      (["not", "(", "isnullorempty([A])", "or", "[B]", "<>", "'x'", ")"].map
        (Token.mk ∘ String.toList)) =
      .ok (.not (.or (.atom (.call ⟨.isNullOrEmpty, "isnullorempty".toList, ['A'], []⟩))
        (.atom (.comparison ['B'] .ne ['x'])))) := by rfl
  obtain ⟨htree, hshaped⟩ := isTree_of_accepted.1 _ _ hread
  exact ⟨_, _, rfl, hread, htree, hshaped, rfl⟩

end Criteria
