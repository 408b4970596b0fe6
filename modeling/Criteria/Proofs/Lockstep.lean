/-
Two runs of the precedence method in lockstep. The method never looks inside a condition: it asks of
a segment which parenthesis or connective it is, or whether it is a condition at all. So if two lists
of segments agree in that, with conditions in the same places that are related in some way, then each
step takes the two runs to stacks of one shape with related conditions in the same places
(`Stacks.Paired.step`), or it ends both of them with the same error; and so do the runs
(`Expr.paired_ofTokens`).

What relates the conditions is left open here. Whatever does, if it carries over to the values of two
conditions, it carries over to the values of the expressions (`Expr.Paired.toJson`).
-/
import Criteria.Expr.Parser
import Criteria.Json.Tree
import Mathlib.Data.List.Forall2

set_option autoImplicit false

namespace Criteria

/-! ## Outcomes -/

/-- Two outcomes are both values or both errors, and these are related. -/
inductive Outcomes {ε α : Type} (E : ε → ε → Prop) (A : α → α → Prop) :
    Except ε α → Except ε α → Prop where
  | ok {x y : α} : A x y → Outcomes E A (.ok x) (.ok y)
  | error {e f : ε} : E e f → Outcomes E A (.error e) (.error f)

namespace Outcomes

variable {ε α β : Type} {E : ε → ε → Prop} {A : α → α → Prop} {B : β → β → Prop}

theorem bind {x y : Except ε α} {f g : α → Except ε β} (h : Outcomes E A x y)
    (hfg : ∀ a b, A a b → Outcomes E B (f a) (g b)) : Outcomes E B (x >>= f) (y >>= g) := by
  cases h with
  | ok hxy => exact hfg _ _ hxy
  | error he => exact .error he

theorem exists_ok {x : α} {o : Except ε α} (h : Outcomes E A (.ok x) o) :
    ∃ y, o = .ok y ∧ A x y := by
  cases h with
  | ok hxy => exact ⟨_, rfl, hxy⟩

theorem map {x y : Except ε α} {f g : α → β} (h : Outcomes E A x y)
    (hfg : ∀ a b, A a b → B (f a) (g b)) : Outcomes E B (x.map f) (y.map g) := by
  cases h with
  | ok hxy => exact .ok (hfg _ _ hxy)
  | error he => exact .error he

end Outcomes

/-! ## Pairs -/

/-- Two expressions of one shape, with related conditions in the same places. -/
inductive Expr.Paired (R : Atom → Atom → Prop) : Expr → Expr → Prop where
  | atom {a b : Atom} : R a b → Paired R (.atom a) (.atom b)
  | not {d e : Expr} : Paired R d e → Paired R (.not d) (.not e)
  | and {d e d' e' : Expr} : Paired R d d' → Paired R e e' → Paired R (.and d e) (.and d' e')
  | or {d e d' e' : Expr} : Paired R d d' → Paired R e e' → Paired R (.or d e) (.or d' e')

/-- Two errors with the same cause. They show related tokens, or expressions with related
conditions. -/
inductive Error.Paired (R : Atom → Atom → Prop) (Q : Token → Token → Prop) :
    Error → Error → Prop where
  | unbalanced (p : Paren) : Paired R Q (.unbalanced p) (.unbalanced p)
  | unrecognized {t u : Token} : Q t u → Paired R Q (.unrecognized t) (.unrecognized u)
  | noOperand : Paired R Q .noOperand .noOperand
  | missingOperand (c : Connective) : Paired R Q (.missingOperand c) (.missingOperand c)
  | unjoined {ds es : List Expr} :
      List.Forall₂ (Expr.Paired R) ds es → Paired R Q (.unjoined ds) (.unjoined es)

/-- Two segments that the precedence method treats alike. -/
inductive Segment.Paired (R : Atom → Atom → Prop) (Q : Token → Token → Prop) :
    Segment → Segment → Prop where
  | paren (p : Paren) : Paired R Q (.paren p) (.paren p)
  | connective (c : Connective) (v w : Token) : Paired R Q (.connective c v) (.connective c w)
  | comparison {field field' value value' : Token} {op op' : Comparison} :
      R (.compare field op value) (.compare field' op' value') →
      Paired R Q (.comparison field op value) (.comparison field' op' value')
  | lone {t u : Token} :
      Q t u → Option.Rel R (Atom.ofToken? t) (Atom.ofToken? u) → Paired R Q (.lone t) (.lone u)

namespace Stacks

variable {R : Atom → Atom → Prop} {Q : Token → Token → Prop}

/-- Two states in which the same things are pending, with paired operands. -/
structure Paired (R : Atom → Atom → Prop) (st st' : Stacks) : Prop where
  operands : List.Forall₂ (Expr.Paired R) st.operands st'.operands
  pending : st.pending = st'.pending

/-! ## Combining and unwinding -/

theorem paired_combine (c : Connective) {ds es : List Expr}
    (h : List.Forall₂ (Expr.Paired R) ds es) :
    Outcomes (Error.Paired R Q) (List.Forall₂ (Expr.Paired R)) (combine c ds) (combine c es) := by
  cases c with
  | not =>
    cases h with
    | nil => exact .error (.missingOperand .not)
    | cons hd hrest => exact .ok (.cons (.not hd) hrest)
  | and =>
    cases h with
    | nil => exact .error (.missingOperand .and)
    | cons hr hrest =>
      cases hrest with
      | nil => exact .error (.missingOperand .and)
      | cons hl hrest => exact .ok (.cons (.and hl hr) hrest)
  | or =>
    cases h with
    | nil => exact .error (.missingOperand .or)
    | cons hr hrest =>
      cases hrest with
      | nil => exact .error (.missingOperand .or)
      | cons hl hrest => exact .ok (.cons (.or hl hr) hrest)

theorem paired_unwind (p : Connective → Bool) {ds es : List Expr} (pending : List Pending)
    (h : List.Forall₂ (Expr.Paired R) ds es) :
    Outcomes (Error.Paired R Q) (Paired R) (unwind p ds pending) (unwind p es pending) := by
  -- The induction is on what is pending; the operands change with each connective applied.
  induction pending generalizing ds es with
  | nil => exact .ok ⟨h, rfl⟩
  | cons top pending ih =>
    cases top with
    | group => exact .ok ⟨h, rfl⟩
    | connective c =>
      by_cases hp : p c = true
      · rw [unwind, unwind, if_pos hp, if_pos hp]
        have hcombine : Outcomes (Error.Paired R Q) _ (combine c ds) (combine c es) :=
          paired_combine c h
        generalize combine c ds = x at hcombine ⊢
        generalize combine c es = y at hcombine ⊢
        cases hcombine with
        | ok hrest => exact ih hrest
        | error he => exact .error he
      · rw [unwind, unwind, if_neg hp, if_neg hp]
        exact .ok ⟨h, rfl⟩

namespace Paired

variable {st st' : Stacks}

theorem pushOperand (h : Paired R st st') {d e : Expr} (hde : Expr.Paired R d e) :
    Paired R (st.pushOperand d) (st'.pushOperand e) :=
  ⟨.cons hde h.operands, h.pending⟩

theorem pushPending (h : Paired R st st') (p : Pending) :
    Paired R (st.pushPending p) (st'.pushPending p) :=
  ⟨h.operands, congrArg (p :: ·) h.pending⟩

theorem unwind (h : Paired R st st') (p : Connective → Bool) :
    Outcomes (Error.Paired R Q) (Paired R) (unwind p st.operands st.pending)
      (Stacks.unwind p st'.operands st'.pending) := by
  rw [← h.pending]
  exact paired_unwind p st.pending h.operands

/-! ## Steps -/

theorem close (h : Paired R st st') :
    Outcomes (Error.Paired R Q) (Paired R) st.close st'.close := by
  refine (h.unwind fun _ => true).bind fun left left' hleft => ?_
  obtain ⟨operands, pending⟩ := left
  obtain ⟨operands', pending'⟩ := left'
  obtain rfl : pending = pending' := hleft.pending
  cases pending with
  | nil => exact .error (.unbalanced .closing)
  | cons top pending => exact .ok ⟨hleft.operands, rfl⟩

theorem connect (h : Paired R st st') (c : Connective) :
    Outcomes (Error.Paired R Q) (Paired R) (st.connect c) (st'.connect c) := by
  have hpush : ∀ left left' : Stacks, Paired R left left' →
      Outcomes (Error.Paired R Q) (Paired R) (.ok (left.pushPending (.connective c)))
        (.ok (left'.pushPending (.connective c))) :=
    fun _ _ hleft => .ok (hleft.pushPending (.connective c))
  cases c with
  | not => exact hpush st st' h
  | and => exact (h.unwind _).bind hpush
  | or => exact (h.unwind _).bind hpush

/-- **One step keeps two runs paired**, or ends both with the same error. -/
theorem step (h : Paired R st st') {s s' : Segment} (hs : Segment.Paired R Q s s') :
    Outcomes (Error.Paired R Q) (Paired R) (st.step s) (st'.step s') := by
  cases hs with
  | paren p =>
    cases p with
    | opening => exact .ok (h.pushPending .group)
    | closing => exact h.close
  | connective c v w => exact h.connect c
  | comparison hR => exact .ok (h.pushOperand (.atom hR))
  | @lone t u hQ hR =>
    rw [Stacks.step, Stacks.step]
    generalize Atom.ofToken? t = a at hR ⊢
    generalize Atom.ofToken? u = b at hR ⊢
    cases hR with
    | none => exact .error (.unrecognized hQ)
    | some hab => exact .ok (h.pushOperand (.atom hab))

theorem run (h : Paired R st st') {ss ss' : List Segment}
    (hss : List.Forall₂ (Segment.Paired R Q) ss ss') :
    Outcomes (Error.Paired R Q) (Paired R) (st.run ss) (st'.run ss') := by
  induction hss generalizing st st' with
  | nil => exact .ok h
  | cons hs hss ih => exact (h.step hs).bind fun _ _ hnext => ih hnext

theorem result (h : Paired R st st') :
    Outcomes (Error.Paired R Q) (Expr.Paired R) st.result st'.result := by
  refine (h.unwind fun _ => true).bind fun left left' hleft => ?_
  obtain ⟨operands, pending⟩ := left
  obtain ⟨operands', pending'⟩ := left'
  obtain rfl : pending = pending' := hleft.pending
  have hoperands : List.Forall₂ (Expr.Paired R) operands operands' := hleft.operands
  cases pending with
  | cons top pending => exact .error (.unbalanced .opening)
  | nil =>
    cases hoperands with
    | nil => exact .error .noOperand
    | cons hd hrest =>
      cases hrest with
      | nil => exact .ok hd
      | cons he hrest => exact .error (.unjoined (List.rel_reverse (.cons hd (.cons he hrest))))

end Paired

end Stacks

/-! ## Expressions -/

/-- **The method treats paired segments alike.** What it makes of two lists of tokens with paired
segments is two expressions of one shape with related conditions in the same places, or the same
error. -/
theorem Expr.paired_ofTokens {R : Atom → Atom → Prop} {Q : Token → Token → Prop}
    {ts us : List Token}
    (h : List.Forall₂ (Segment.Paired R Q) (Segment.ofTokens ts) (Segment.ofTokens us)) :
    Outcomes (Error.Paired R Q) (Expr.Paired R) (ofTokens ts) (ofTokens us) :=
  have hempty : Stacks.Paired R .empty .empty := ⟨.nil, rfl⟩
  (hempty.run h).bind fun _ _ hleft => hleft.result

/-! ## Values -/

/-- Two values of one shape with the same keys, and with related strings in the same places. -/
inductive Json.Paired (S : Text → Text → Prop) : Json → Json → Prop where
  | null : Paired S .null .null
  | str {s t : Text} : S s t → Paired S (.str s) (.str t)
  | arr {vs ws : List Json} : List.Forall₂ (Paired S) vs ws → Paired S (.arr vs) (.arr ws)
  | obj {ms ns : List (Text × Json)} :
      ms.map Prod.fst = ns.map Prod.fst →
      List.Forall₂ (Paired S) (ms.map Prod.snd) (ns.map Prod.snd) → Paired S (.obj ms) (.obj ns)

section Values

variable {S : Text → Text → Prop}

theorem Json.Paired.single {v w : Json} (key : Text) (h : Paired S v w) :
    Paired S (.single key v) (.single key w) :=
  .obj rfl (.cons h .nil)

theorem Json.Paired.var {s t : Text} (h : S s t) : Paired S (.var s) (.var t) :=
  .single _ (.str h)

theorem Json.Paired.binary {v w v' w' : Json} (operator : Text) (hv : Paired S v v')
    (hw : Paired S w w') : Paired S (.binary operator v w) (.binary operator v' w') :=
  .single operator (.arr (.cons hv (.cons hw .nil)))

theorem Predicate.paired_rule (p : Predicate) {field field' value value' : Text} (hnil : S [] [])
    (hfield : S field field') (hvalue : S value value') :
    Json.Paired S (p.rule field value).toJson (p.rule field' value').toJson := by
  have hvar : Json.Paired S (.var field) (.var field') := .var hfield
  cases p with
  | contains => exact .binary _ (.str hvalue) hvar
  | startsWith | endsWith => exact .binary _ hvar (.str hvalue)
  | isNull | isNotNull => exact .binary _ hvar .null
  | isNullOrEmpty => exact .binary _ (.binary _ hvar .null) (.binary _ hvar (.str hnil))

/-- Paired expressions have paired values if related conditions do. -/
theorem Expr.Paired.toJson {R : Atom → Atom → Prop} {d e : Expr} (h : Paired R d e)
    (hR : ∀ a b, R a b → Json.Paired S a.toRule.toJson b.toRule.toJson) :
    Json.Paired S d.toRule.toJson e.toRule.toJson := by
  induction h with
  | atom hab => exact hR _ _ hab
  | not _ ih => exact .single _ ih
  | and _ _ ihl ihr | or _ _ ihl ihr => exact .binary _ ihl ihr

end Values

end Criteria
