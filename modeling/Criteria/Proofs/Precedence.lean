/-
The precedence method reads what the grammar derives. The two stacks hold an unfinished derivation
in a disguise: after a phrase has been read, its own connectives may still be pending above those
that were pending before it, and only the next connective, parenthesis or end of input applies
them. What is true at every moment is that applying them gives the phrase.

So the invariant does not say what the stacks are, but what unwinding them comes to (`Holds`): any
unwinding that applies at least the connectives of a level comes to the same as if the phrase of
that level stood on top as one finished operand. The three unwindings of the method, at `and` and
`or`, at `)` and at the end, are all of that kind, which is why they agree.
-/
import Criteria.Proofs.Steps

set_option autoImplicit false

namespace Criteria

/-! ## Levels and connectives -/

namespace Expr.Level

/-- How tightly the connective of a level binds; a factor has `not`. -/
def precedence : Level → Nat
  | .disjunction => 1
  | .conjunction => 2
  | .factor => 3

/-- Whether a connective can be pending inside a phrase of a level. -/
def binds (level : Level) (c : Connective) : Bool := level.precedence ≤ c.precedence

theorem binds_eq_true_iff {level : Level} {c : Connective} :
    level.binds c = true ↔ level.precedence ≤ c.precedence := decide_eq_true_iff

theorem binds_eq_false_iff {level : Level} {c : Connective} :
    level.binds c = false ↔ c.precedence < level.precedence := by
  rw [binds, decide_eq_false_iff_not, Nat.not_le]

theorem binds_not (level : Level) : level.binds .not = true := by cases level <;> rfl

theorem disjunction_binds (c : Connective) : Level.disjunction.binds c = true := by
  cases c <;> rfl

end Expr.Level

open Criteria.Expr (Level Derives)

namespace Stacks

/-! ## The invariant -/

/-- A phrase of a level may come next: what is pending on top is no connective that the phrase
would have to share its first operand with. A factor may come anywhere. -/
def Ready (level : Level) (pending : List Pending) : Prop :=
  level ≠ .factor → ∀ c ps, pending = .connective c :: ps → level.binds c = false

/-- From `st`, a phrase of a level that denotes `e` has been read, and led to `st'`: unwinding
`st'` comes to the same as unwinding `st` with `e` on top. -/
def Holds (level : Level) (e : Expr) (st st' : Stacks) : Prop :=
  ∀ p : Connective → Bool, (∀ c, level.binds c = true → p c = true) →
    unwind p st'.operands st'.pending = unwind p (e :: st.operands) st.pending

section Levels

variable {level level' : Level} {e : Expr} {st st' : Stacks} {pending : List Pending}

theorem Ready.mono (hle : level.precedence ≤ level'.precedence) (hne : level ≠ .factor)
    (h : Ready level pending) : Ready level' pending := by
  intro _ c ps hps
  have hlt := Level.binds_eq_false_iff.mp (h hne c ps hps)
  exact Level.binds_eq_false_iff.mpr (Nat.lt_of_lt_of_le hlt hle)

theorem Holds.mono (hle : level.precedence ≤ level'.precedence) (h : Holds level' e st st') :
    Holds level e st st' := by
  intro p hp
  refine h p fun c hc => hp c (Level.binds_eq_true_iff.mpr ?_)
  exact Nat.le_trans hle (Level.binds_eq_true_iff.mp hc)

theorem unwind_of_ready (hne : level ≠ .factor) (h : Ready level pending)
    (operands : List Expr) : unwind level.binds operands pending = .ok ⟨operands, pending⟩ :=
  unwind_of_stop (h hne) operands

theorem unwind_precedence {c : Connective} (hc : c.precedence = level.precedence)
    (es : List Expr) (pending : List Pending) :
    unwind (fun top => c.precedence ≤ top.precedence) es pending =
      unwind level.binds es pending := by
  rw [hc]
  rfl

/-- At `and` and `or` the left operand is completed and waits below the connective. -/
theorem step_connective_of_holds {c : Connective} (hc : c.precedence = level.precedence)
    (hne : level ≠ .factor) (hready : Ready level st.pending) (h : Holds level e st st')
    (w : Token) :
    st'.step (.connective c w) = .ok ((st.pushOperand e).pushPending (.connective c)) := by
  have hnot : c ≠ .not := by
    rintro rfl
    cases level <;> simp_all [Level.precedence, Connective.precedence]
  rw [step_of_ne_not hnot, unwind_precedence hc, h level.binds fun _ hc => hc,
    unwind_of_ready hne hready]
  rfl

/-- Two phrases joined by a binary connective are a phrase of the level of the connective. -/
theorem run_binary {c : Connective} {l r node : Expr} {xs ys : List Segment}
    (hc : c.precedence = level.precedence) (hlt : level.precedence < level'.precedence)
    (hcombine : ∀ es, combine c (r :: l :: es) = .ok (node :: es))
    (hleft : ∀ st, Ready level st.pending → ∃ st', st.run xs = .ok st' ∧ Holds level l st st')
    (hright : ∀ st, Ready level' st.pending → ∃ st', st.run ys = .ok st' ∧ Holds level' r st st')
    (w : Token) (hready : Ready level st.pending) :
    ∃ st', st.run (xs ++ .connective c w :: ys) = .ok st' ∧ Holds level node st st' := by
  have hne : level ≠ .factor := by
    rintro rfl
    cases level' <;> simp [Level.precedence] at hlt
  -- The left operand is read, and the connective completes it and waits above it.
  obtain ⟨st₁, hrun₁, hholds₁⟩ := hleft st hready
  have hstep := step_connective_of_holds hc hne hready hholds₁ w
  -- The right operand binds more tightly, so it may stand above the connective.
  have hready₂ : Ready level' (.connective c :: st.pending) := by
    intro _ c' ps hps
    obtain rfl : c = c' := by simpa using (List.cons.inj hps).1
    rw [Level.binds_eq_false_iff, hc]
    exact hlt
  obtain ⟨st₂, hrun₂, hholds₂⟩ :=
    hright ((st.pushOperand l).pushPending (.connective c)) hready₂
  refine ⟨st₂, by rw [run_append hrun₁, run_cons hstep, hrun₂], fun p hp => ?_⟩
  -- Unwinding first makes the right operand one, and then applies the connective.
  have hpc : p c = true := hp c (Level.binds_eq_true_iff.mpr (Nat.le_of_eq hc.symm))
  rw [hholds₂.mono (Nat.le_of_lt hlt) p hp]
  exact unwind_of_combine hpc (hcombine st.operands) st.pending

end Levels

/-- **A derived phrase is read as one operand**, whatever the stacks hold below it. -/
theorem exists_run_of_derives {level : Level} {ss : List Segment} {e : Expr}
    (h : Derives Segment.terminals level ss e) :
    ∀ st : Stacks, Ready level st.pending → ∃ st', st.run ss = .ok st' ∧ Holds level e st st' := by
  induction h with
  | or _ hw _ ihl ihr =>
    obtain ⟨w, rfl⟩ := hw
    exact fun st => run_binary rfl (by decide) (fun _ => rfl) ihl ihr w
  | conjunction _ ih =>
    intro st hready
    obtain ⟨st', hrun, hholds⟩ := ih st (hready.mono (by decide) (by decide))
    exact ⟨st', hrun, hholds.mono (by decide)⟩
  | and _ hw _ ihl ihr =>
    obtain ⟨w, rfl⟩ := hw
    exact fun st => run_binary rfl (by decide) (fun _ => rfl) ihl ihr w
  | factor _ ih =>
    intro st _
    obtain ⟨st', hrun, hholds⟩ := ih st fun hne => absurd rfl hne
    exact ⟨st', hrun, hholds.mono (by decide)⟩
  | not hw _ ih =>
    obtain ⟨w, rfl⟩ := hw
    intro st _
    obtain ⟨st', hrun, hholds⟩ := ih (st.pushPending (.connective .not)) fun hne => absurd rfl hne
    have hstep : st.step (.connective .not w) = .ok (st.pushPending (.connective .not)) := rfl
    refine ⟨st', by rw [run_cons hstep, hrun], fun p hp => ?_⟩
    rw [hholds p hp]
    exact unwind_of_combine (hp _ (Level.binds_not _)) rfl _
  | @group ss e _ ih =>
    intro st _
    -- Nothing below the open parenthesis can be touched before it is closed.
    obtain ⟨st', hrun, hholds⟩ := ih (st.pushPending .group) fun _ c ps hps => by cases hps
    have hopen : st.step (.paren .opening) = .ok (st.pushPending .group) := rfl
    have hunwind : st'.unwindGroup = .ok ⟨e :: st.operands, .group :: st.pending⟩ :=
      hholds (fun _ => true) fun _ _ => rfl
    have hclose : st'.step (.paren .closing) = .ok ⟨e :: st.operands, st.pending⟩ := by
      rw [step, close, hunwind]
      rfl
    refine ⟨⟨e :: st.operands, st.pending⟩, ?_, fun p _ => rfl⟩
    simp only [Segment.terminals]
    rw [run_cons hopen, run_append hrun, run_cons hclose, run]
  | atom hatom =>
    intro st _
    obtain ⟨s, rfl, hs⟩ := hatom
    refine ⟨st.pushOperand (.atom _), ?_, fun p _ => rfl⟩
    rw [run_cons (step_of_atom? hs st), run]

end Stacks

/-! ## The grammar is read -/

namespace Expr

/-- Tokens that spell an expression are read as that expression. -/
theorem ofTokens_eq_ok_of_derives {ts : List Token} {e : Expr}
    (h : Derives Token.terminals .disjunction ts e) : ofTokens ts = .ok e := by
  have hsegments := Segment.derives_ofTokens_iff.mpr h
  obtain ⟨st, hrun, hholds⟩ :=
    Stacks.exists_run_of_derives hsegments Stacks.empty fun _ c ps hps => by cases hps
  have hunwind : st.unwindGroup = .ok ⟨[e], []⟩ := hholds (fun _ => true) fun _ _ => rfl
  exact ofTokens_eq_ok_iff.mpr ⟨st, hrun, Stacks.result_eq_ok_iff.mpr hunwind⟩

/-- **The precedence method is complete.** Whatever the grammar derives, of any size and nesting,
is read without error as the expression that the derivation denotes; and the rule of that
expression has the tree of the expression as its JSON form. -/
theorem ofTokens_of_derives {ts : List Token} {e : Expr}
    (h : Derives Token.terminals .disjunction ts e) :
    ofTokens ts = .ok e ∧ e.toRule.toJson = e.tree :=
  ⟨ofTokens_eq_ok_of_derives h, e.toJson_toRule⟩

/-- `NOT ( [A] = and OR #d# ) And isnull([B])`: a group under `not`, and a keyword in the place of
a value. -/
theorem ofTokens_of_derives_negated_group : ∃ (ts : List Token) (e : Expr),
    ts.map (String.ofList ∘ Token.text) =
      ["NOT", "(", "[A]", "=", "and", "OR", "#d#", ")", "And", "isnull([B])"] ∧
    e = .and (.not (.or (.atom (.comparison ['A'] .eq "and".toList)) (.atom (.date ['d']))))
      (.atom (.call ⟨.isNull, "isnull".toList, ['B'], []⟩)) ∧
    Derives Token.terminals .disjunction ts e ∧ ofTokens ts = .ok e ∧ e.toRule.toJson = e.tree := by
  have hcomparison : Derives Token.terminals .factor
      [⟨"[A]".toList⟩, ⟨"=".toList⟩, ⟨"and".toList⟩] (.atom (.comparison ['A'] .eq "and".toList)) :=
    .atom (.comparison (by decide) (by decide) (by decide))
  have hdate : Derives Token.terminals .factor [⟨"#d#".toList⟩] (.atom (.date ['d'])) :=
    .atom (.date (by decide))
  have hcall : Derives Token.terminals .factor [⟨"isnull([B])".toList⟩]
      (.atom (.call ⟨.isNull, "isnull".toList, ['B'], []⟩)) :=
    .atom (.call (by decide))
  have hand : Token.terminals.keyword .and ⟨"And".toList⟩ :=
    Connective.ofText?_eq_some_iff.mpr (by decide)
  have hor : Token.terminals.keyword .or ⟨"OR".toList⟩ :=
    Connective.ofText?_eq_some_iff.mpr (by decide)
  have hnot : Token.terminals.keyword .not ⟨"NOT".toList⟩ :=
    Connective.ofText?_eq_some_iff.mpr (by decide)
  have hgroup := (Derives.or (.conjunction (.factor hcomparison)) hor (.factor hdate)).group
  have h := Derives.conjunction (.and (.factor (.not hnot hgroup)) hand hcall)
  exact ⟨_, _, rfl, rfl, h, ofTokens_of_derives h⟩

end Expr

end Criteria
