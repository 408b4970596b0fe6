/-
What the precedence method lets through. It never asks whether an operand or an operator is due;
it only counts what the stacks hold. So it reads more than the grammar derives: in `[A] not` the
connective finds the operand before it, and in `and [A] [B]` it finds both operands behind it.

Operands and operators take turns in every derived list, and this is all that the method leaves
unchecked: a list that is read, and in which they take turns, is derived, with the expression that
was read. The proof follows the stacks through a reading in which turns are kept. There, what has
been read is at every moment an unfinished derivation, and the stacks list its finished phrases
and the connectives and parentheses between them (`Awaits`).
-/
import Criteria.Proofs.Precedence

set_option autoImplicit false

namespace Criteria

open Criteria.Expr (Level Derives)

/-! ## Turns -/

/-- What is due in a list of segments: the start of an operand, or what may follow one. -/
inductive Turn where
  | operand
  | operator
  deriving DecidableEq, Repr

/-- The turn after a segment, if the segment is in turn. -/
def Turn.after? : Turn → Segment → Option Turn
  | .operand, .paren .opening => some .operand
  | .operand, .connective .not _ => some .operand
  | .operand, .comparison _ _ _ => some .operator
  | .operand, .lone _ => some .operator
  | .operator, .paren .closing => some .operator
  | .operator, .connective .and _ => some .operand
  | .operator, .connective .or _ => some .operand
  | _, _ => none

namespace Segment

/-- Operands and operators take turns: an operand is due at the start, each segment is in turn,
and no operand is due at the end. -/
def InTurn (ss : List Segment) : Prop := ss.foldlM Turn.after? .operand = some .operator

instance (ss : List Segment) : Decidable (InTurn ss) := inferInstanceAs (Decidable (_ = _))

theorem after?_of_isOperand {s : Segment} (h : s.isOperand) :
    Turn.operand.after? s = some .operator ∧ Turn.operator.after? s = none := by
  cases s with
  | paren p => cases h
  | connective c w => cases h
  | comparison f op v => exact ⟨rfl, rfl⟩
  | lone t => exact ⟨rfl, rfl⟩

/-- In a derived phrase operands and operators take turns. -/
theorem inTurn_of_derives {level : Level} {ss : List Segment} {e : Expr}
    (h : Derives terminals level ss e) : InTurn ss := by
  unfold InTurn
  -- A phrase takes the turn from `operand` to `operator`, at every level.
  induction h with
  | or _ hw _ ihl ihr =>
    obtain ⟨w, rfl⟩ := hw
    rw [List.foldlM_append, ihl]
    exact ihr
  | conjunction _ ih => exact ih
  | and _ hw _ ihl ihr =>
    obtain ⟨w, rfl⟩ := hw
    rw [List.foldlM_append, ihl]
    exact ihr
  | factor _ ih => exact ih
  | not hw _ ih =>
    obtain ⟨w, rfl⟩ := hw
    exact ih
  | group _ ih =>
    rw [List.foldlM_cons]
    show List.foldlM Turn.after? .operand _ = _
    rw [List.foldlM_append, ih]
    rfl
  | atom hatom =>
    obtain ⟨s, rfl, hs⟩ := hatom
    rw [List.foldlM_cons, (after?_of_isOperand (isOperand_of_atom? hs)).1]
    rfl

/-! ### What turns rule out -/

/-- A list of segments is free of the marks of an ill-formed criterion. -/
structure Orderly (ss : List Segment) : Prop where
  /-- It does not start with `and` or `or`. -/
  head_ne : ∀ c w, c ≠ .not → ss.head? ≠ some (.connective c w)
  /-- It does not end with a connective. -/
  getLast_ne : ∀ c w, ss.getLast? ≠ some (.connective c w)
  /-- It has no two operands next to each other. -/
  not_adjacent : ∀ s t, s.isOperand → t.isOperand → ¬ [s, t] <:+: ss
  /-- It has no empty group. -/
  not_empty_group : ¬ [.paren .opening, .paren .closing] <:+: ss

/-- Two segments next to each other are in turn one after the other. -/
theorem InTurn.exists_after {ss : List Segment} (h : InTurn ss) {s t : Segment}
    (hinner : [s, t] <:+: ss) :
    ∃ turn turn' turn'' : Turn, turn.after? s = some turn' ∧ turn'.after? t = some turn'' := by
  obtain ⟨xs, ys, rfl⟩ := hinner
  rw [InTurn, List.append_assoc, List.foldlM_append] at h
  obtain ⟨turn, _, hmid⟩ := Option.bind_eq_some_iff.mp h
  obtain ⟨turn', hs, hmid⟩ := Option.bind_eq_some_iff.mp hmid
  obtain ⟨turn'', ht, _⟩ := Option.bind_eq_some_iff.mp hmid
  exact ⟨turn, turn', turn'', hs, ht⟩

theorem InTurn.orderly {ss : List Segment} (h : InTurn ss) : Orderly ss where
  head_ne c w hc hhead := by
    obtain ⟨ss', rfl⟩ := List.head?_eq_some_iff.mp hhead
    rw [InTurn, List.foldlM_cons] at h
    cases c with
    | not => exact hc rfl
    | and => cases h
    | or => cases h
  getLast_ne c w hlast := by
    obtain ⟨ss', rfl⟩ := List.getLast?_eq_some_iff.mp hlast
    rw [InTurn, List.foldlM_append] at h
    obtain ⟨turn, _, hend⟩ := Option.bind_eq_some_iff.mp h
    cases turn <;> cases c <;> cases hend
  not_adjacent s t hs ht hinner := by
    obtain ⟨turn, turn', turn'', hafter, hafter'⟩ := h.exists_after hinner
    cases turn with
    | operand =>
      rw [(after?_of_isOperand hs).1, Option.some.injEq] at hafter
      rw [← hafter, (after?_of_isOperand ht).2] at hafter'
      cases hafter'
    | operator =>
      rw [(after?_of_isOperand hs).2] at hafter
      cases hafter
  not_empty_group hinner := by
    obtain ⟨turn, turn', turn'', hafter, hafter'⟩ := h.exists_after hinner
    cases turn <;> cases hafter
    cases hafter'

end Segment

/-! ## Unfinished derivations -/

namespace Expr.Level

theorem disjunction_le (level : Level) : Level.disjunction.precedence ≤ level.precedence := by
  cases level <;> decide

theorem le_factor (level : Level) : level.precedence ≤ Level.factor.precedence := by
  cases level <;> decide

theorem le_conjunction_of_ne {level : Level} (h : level ≠ .factor) :
    level.precedence ≤ Level.conjunction.precedence := by
  cases level with
  | disjunction => decide
  | conjunction => decide
  | factor => exact absurd rfl h

theorem eq_factor_of_le {level : Level} (h : Level.factor.precedence ≤ level.precedence) :
    level = .factor := by
  cases level with
  | disjunction => exact absurd h (by decide)
  | conjunction => exact absurd h (by decide)
  | factor => rfl

theorem eq_disjunction_of_le {level : Level}
    (h : level.precedence ≤ Level.disjunction.precedence) : level = .disjunction := by
  cases level with
  | disjunction => rfl
  | conjunction => exact absurd h (by decide)
  | factor => exact absurd h (by decide)

end Expr.Level

/-- A phrase is a phrase of every level that binds no tighter. -/
theorem Expr.Derives.weaken {α : Type} {T : Terminals α} {level level' : Level} {xs : List α}
    {e : Expr} (h : Derives T level' xs e) (hle : level.precedence ≤ level'.precedence) :
    Derives T level xs e := by
  cases level' with
  | disjunction =>
    rw [Level.eq_disjunction_of_le hle]
    exact h
  | conjunction =>
    cases level with
    | disjunction => exact .conjunction h
    | conjunction => exact h
    | factor => exact absurd hle (by decide)
  | factor =>
    cases level with
    | disjunction => exact .conjunction (.factor h)
    | conjunction => exact .factor h
    | factor => exact h

namespace Stacks

/-- `Awaits level ss st` says that the segments `ss` are the start of a derivation in which a
phrase of a level comes next, and that `st` holds what is finished in it: each operand is a
phrase of `ss`, and what is pending stands between these phrases. -/
inductive Awaits : Level → List Segment → Stacks → Prop where
  | start : Awaits .disjunction [] .empty
  | group {level : Level} {ss : List Segment} {st : Stacks} :
      Awaits level ss st →
      Awaits .disjunction (ss ++ [.paren .opening]) (st.pushPending .group)
  | not {level : Level} {ss : List Segment} {st : Stacks} {w : Token} :
      Awaits level ss st →
      Awaits .factor (ss ++ [.connective .not w]) (st.pushPending (.connective .not))
  | and {level : Level} {ss xs : List Segment} {st : Stacks} {l : Expr} {w : Token} :
      Awaits level ss st → level.precedence ≤ Level.conjunction.precedence →
      Derives Segment.terminals .conjunction xs l →
      Awaits .factor (ss ++ xs ++ [.connective .and w])
        ((st.pushOperand l).pushPending (.connective .and))
  | or {ss xs : List Segment} {st : Stacks} {l : Expr} {w : Token} :
      Awaits .disjunction ss st → Derives Segment.terminals .disjunction xs l →
      Awaits .conjunction (ss ++ xs ++ [.connective .or w])
        ((st.pushOperand l).pushPending (.connective .or))

/-- The start of a derivation, and after it a finished phrase of a level, which is the operand on
top. -/
inductive Completed (level : Level) : List Segment → Stacks → Prop where
  | intro {level' : Level} {ss xs : List Segment} {st : Stacks} {e : Expr} :
      Awaits level' ss st → level'.precedence ≤ level.precedence →
      Derives Segment.terminals level xs e → Completed level (ss ++ xs) (st.pushOperand e)

/-- What has been read when turns are kept. -/
inductive Reads : Turn → List Segment → Stacks → Prop where
  | operand {level : Level} {ss : List Segment} {st : Stacks} :
      Awaits level ss st → Reads .operand ss st
  | operator {ss : List Segment} {st : Stacks} : Completed .factor ss st → Reads .operator ss st

/-- Unwinding completes the phrase on top. The induction is on the unfinished derivation: each
pending connective that is applied joins the phrase on top to the one below it, and unwinding
stops where the joined phrase is awaited. -/
theorem Awaits.unwind {level target phrase : Level} {ss xs : List Segment} {st : Stacks} {e : Expr}
    (h : Awaits level ss st) (hphrase : Derives Segment.terminals phrase xs e)
    (hlevel : level.precedence ≤ phrase.precedence)
    (htarget : target.precedence ≤ phrase.precedence) (hne : target ≠ .factor) :
    ∃ st', Stacks.unwind target.binds (e :: st.operands) st.pending = .ok st' ∧
      Completed target (ss ++ xs) st' := by
  induction h generalizing phrase xs e with
  | start => exact ⟨_, rfl, .intro .start target.disjunction_le (hphrase.weaken htarget)⟩
  | group h _ => exact ⟨_, rfl, .intro (.group h) target.disjunction_le (hphrase.weaken htarget)⟩
  | @not level ss st w h ih =>
    obtain rfl := Level.eq_factor_of_le hlevel
    have hnot : Derives Segment.terminals .factor (.connective .not w :: xs) (.not e) :=
      .not ⟨w, rfl⟩ hphrase
    obtain ⟨st', hunwind, hcompleted⟩ := ih hnot level.le_factor htarget
    rw [List.append_assoc]
    exact ⟨st', (unwind_of_combine target.binds_not rfl _).trans hunwind, hcompleted⟩
  | @and level ss ys st l w h hle hl ih =>
    obtain rfl := Level.eq_factor_of_le hlevel
    have hbinds : target.binds .and = true :=
      Level.binds_eq_true_iff.mpr (Level.le_conjunction_of_ne hne)
    have hand := Derives.and hl ⟨w, rfl⟩ hphrase
    obtain ⟨st', hunwind, hcompleted⟩ := ih hand hle (Level.le_conjunction_of_ne hne)
    rw [List.append_assoc, List.append_assoc]
    exact ⟨st', (unwind_of_combine hbinds rfl _).trans hunwind, hcompleted⟩
  | @or ss ys st l w h hl ih =>
    cases target with
    | factor => exact absurd rfl hne
    | conjunction =>
      -- `or` is looser than the phrase that is completed, so it stays.
      exact ⟨_, rfl, .intro (.or h hl) (by decide) (hphrase.weaken htarget)⟩
    | disjunction =>
      have hor := Derives.or hl ⟨w, rfl⟩ (hphrase.weaken hlevel)
      obtain ⟨st', hunwind, hcompleted⟩ := ih hor (by decide) (by decide)
      rw [List.append_assoc, List.append_assoc]
      exact ⟨st', (unwind_of_combine rfl rfl _).trans hunwind, hcompleted⟩

theorem unwindGroup_eq (st : Stacks) :
    st.unwindGroup = Stacks.unwind Level.disjunction.binds st.operands st.pending := by
  have hbinds : (fun _ => true) = Level.disjunction.binds := by
    funext c
    rw [Level.disjunction_binds]
  rw [unwindGroup, hbinds]

section Completed

variable {ss : List Segment} {st st' : Stacks}

theorem Completed.unwind (h : Completed .factor ss st) {target : Level} (hne : target ≠ .factor) :
    ∃ st', Stacks.unwind target.binds st.operands st.pending = .ok st' ∧
      Completed target ss st' := by
  cases h with
  | intro hawaits hle hphrase => exact hawaits.unwind hphrase hle target.le_factor hne

/-- At `)` the disjunction in the innermost group is complete, and with its parentheses it is a
factor. -/
theorem Completed.closing {es : List Expr} {ps : List Pending} (h : Completed .factor ss st)
    (hgroup : st.unwindGroup = .ok ⟨es, .group :: ps⟩) :
    Completed .factor (ss ++ [.paren .closing]) ⟨es, ps⟩ := by
  obtain ⟨st₁, hunwind, hcompleted⟩ := h.unwind (show Level.disjunction ≠ .factor by decide)
  rw [unwindGroup_eq, hunwind] at hgroup
  cases hcompleted with
  | @intro level xs ys st₁ e hawaits hle hphrase =>
    obtain rfl := Level.eq_disjunction_of_le hle
    -- A disjunction is awaited at the start and in a group; here a group is on top.
    cases hawaits with
    | start => cases hgroup
    | @group level xs st₁ hawaits =>
      have hclosed := Completed.intro hawaits level.le_factor (.group hphrase)
      rw [List.append_assoc, List.append_assoc]
      cases hgroup
      exact hclosed

/-- At `and` and `or` the left operand is complete, and the right one is awaited. -/
theorem Completed.binary {c : Connective} (h : Completed .factor ss st) (hc : c ≠ .not)
    (hunwind : Stacks.unwind (fun top => c.precedence ≤ top.precedence) st.operands st.pending =
      .ok st') (w : Token) :
    ∃ level, Awaits level (ss ++ [.connective c w]) (st'.pushPending (.connective c)) := by
  cases c with
  | not => exact absurd rfl hc
  | and =>
    obtain ⟨st₁, hcomplete, hcompleted⟩ := h.unwind (show Level.conjunction ≠ .factor by decide)
    rw [unwind_precedence (show Connective.and.precedence = Level.conjunction.precedence from rfl),
      hcomplete] at hunwind
    cases hcompleted with
    | intro hawaits hle hphrase =>
      rw [← Except.ok.inj hunwind]
      exact ⟨_, .and hawaits hle hphrase⟩
  | or =>
    obtain ⟨st₁, hcomplete, hcompleted⟩ := h.unwind (show Level.disjunction ≠ .factor by decide)
    rw [unwind_precedence (show Connective.or.precedence = Level.disjunction.precedence from rfl),
      hcomplete] at hunwind
    cases hcompleted with
    | intro hawaits hle hphrase =>
      obtain rfl := Level.eq_disjunction_of_le hle
      rw [← Except.ok.inj hunwind]
      exact ⟨_, .or hawaits hphrase⟩

/-- At the end the disjunction is complete, and nothing else is on the stacks. -/
theorem Completed.derives_of_result {e : Expr} (h : Completed .factor ss st)
    (hresult : st.result = .ok e) : Derives Segment.terminals .disjunction ss e := by
  obtain ⟨st₁, hunwind, hcompleted⟩ := h.unwind (show Level.disjunction ≠ .factor by decide)
  rw [result_eq_ok_iff, unwindGroup_eq, hunwind] at hresult
  cases hcompleted with
  | intro hawaits hle hphrase =>
    obtain rfl := Level.eq_disjunction_of_le hle
    cases hawaits with
    | start =>
      cases hresult
      exact hphrase
    | group hawaits =>
      -- An open parenthesis would still be pending.
      simp [pushOperand, pushPending] at hresult

end Completed

/-! ## Runs that keep turns -/

/-- A segment in turn keeps what the stacks say of the segments read. -/
theorem Reads.move {turn turn' : Turn} {ss : List Segment} {st st' : Stacks} {s : Segment}
    (h : Reads turn ss st) (hturn : turn.after? s = some turn') (hmove : Move st s st') :
    Reads turn' (ss ++ [s]) st' := by
  cases h with
  | operand hawaits =>
    cases hmove with
    | opening =>
      cases hturn
      exact .operand (.group hawaits)
    | closing _ => cases hturn
    | not =>
      cases hturn
      exact .operand (.not hawaits)
    | @binary c w st₁ hc _ =>
      -- No binary connective is in turn here.
      cases c with
      | not => exact absurd rfl hc
      | and => cases hturn
      | or => cases hturn
    | operand ha =>
      rw [(Segment.after?_of_isOperand (Segment.isOperand_of_atom? ha)).1] at hturn
      cases hturn
      exact .operator (.intro hawaits (Level.le_factor _) (.atom ⟨s, rfl, ha⟩))
  | operator hcompleted =>
    cases hmove with
    | opening => cases hturn
    | closing hgroup =>
      cases hturn
      exact .operator (hcompleted.closing hgroup)
    | not => cases hturn
    | @binary c w st₁ hc hunwind =>
      obtain ⟨level, hawaits⟩ := hcompleted.binary hc hunwind w
      cases c with
      | not => exact absurd rfl hc
      | and =>
        cases hturn
        exact .operand hawaits
      | or =>
        cases hturn
        exact .operand hawaits
    | operand ha =>
      rw [(Segment.after?_of_isOperand (Segment.isOperand_of_atom? ha)).2] at hturn
      cases hturn

theorem Reads.run {turn turn' : Turn} {ss ss' : List Segment} {st st' : Stacks}
    (h : Reads turn ss st) (hturn : ss'.foldlM Turn.after? turn = some turn')
    (hrun : st.run ss' = .ok st') : Reads turn' (ss ++ ss') st' := by
  induction ss' generalizing turn ss st with
  | nil =>
    cases hturn
    cases hrun
    rw [List.append_nil]
    exact h
  | cons s ss' ih =>
    rw [List.foldlM_cons] at hturn
    obtain ⟨turn₁, hafter, hrest⟩ := Option.bind_eq_some_iff.mp hturn
    obtain ⟨st₁, hstep, hrun⟩ := run_cons_eq_ok_iff.mp hrun
    have := ih (h.move hafter (step_eq_ok_iff.mp hstep)) hrest hrun
    rwa [List.append_assoc] at this

end Stacks

/-! ## Derived is read in turn -/

namespace Expr

/-- Tokens that are read as an expression, and in whose segments operands and operators take
turns, spell that expression. -/
theorem derives_of_ofTokens_eq_ok {ts : List Token} {e : Expr} (h : ofTokens ts = .ok e)
    (hturn : Segment.InTurn (Segment.ofTokens ts)) : Derives Token.terminals .disjunction ts e := by
  rw [← Segment.derives_ofTokens_iff]
  obtain ⟨st, hrun, hresult⟩ := ofTokens_eq_ok_iff.mp h
  have hreads := (Stacks.Reads.operand .start).run hturn hrun
  cases hreads with
  | operator hcompleted => exact hcompleted.derives_of_result hresult

/-- **Exactly the lists that keep turns are read as the grammar has it.** Tokens spell an
expression if and only if they are read as that expression and operands and operators take turns
in their segments; and then they neither start with `and` or `or` nor end with a connective, have
no two operands next to each other and no empty group. -/
theorem derives_iff_ofTokens_eq_ok_and_inTurn (ts : List Token) (e : Expr) :
    (Derives Token.terminals .disjunction ts e ↔
      ofTokens ts = .ok e ∧ Segment.InTurn (Segment.ofTokens ts)) ∧
    (Segment.InTurn (Segment.ofTokens ts) → Segment.Orderly (Segment.ofTokens ts)) := by
  refine ⟨⟨fun h => ?_, fun h => derives_of_ofTokens_eq_ok h.1 h.2⟩, fun h => h.orderly⟩
  have hsegments := Segment.derives_ofTokens_iff.mpr h
  exact ⟨ofTokens_eq_ok_of_derives h, Segment.inTurn_of_derives hsegments⟩

/-- `[A] = not or not ( #d# )`: the value `not` is no connective, so operands and operators take
turns. -/
theorem derives_of_value_not : ∃ ts e, ts.map (String.ofList ∘ Token.text) =
      ["[A]", "=", "not", "or", "not", "(", "#d#", ")"] ∧
    e = .or (.atom (.comparison ['A'] .eq "not".toList)) (.not (.atom (.date ['d']))) ∧
    Derives Token.terminals .disjunction ts e ∧ Segment.Orderly (Segment.ofTokens ts) := by
  have hread : ofTokens (["[A]", "=", "not", "or", "not", "(", "#d#", ")"].map
      (Token.mk ∘ String.toList)) =
      .ok (.or (.atom (.comparison ['A'] .eq "not".toList)) (.not (.atom (.date ['d'])))) := by rfl
  have hturn : Segment.InTurn (Segment.ofTokens (["[A]", "=", "not", "or", "not", "(", "#d#",
      ")"].map (Token.mk ∘ String.toList))) := by decide
  obtain ⟨hderives, horderly⟩ := derives_iff_ofTokens_eq_ok_and_inTurn _ _
  exact ⟨_, _, rfl, rfl, hderives.mpr ⟨hread, hturn⟩, horderly hturn⟩

theorem not_derives_of_not_inTurn {ts : List Token} (h : ¬ Segment.InTurn (Segment.ofTokens ts))
    (e : Expr) : ¬ Derives Token.terminals .disjunction ts e := by
  intro hderives
  exact h (Segment.inTurn_of_derives (Segment.derives_ofTokens_iff.mpr hderives))

/-- Lists that are read and not derived: `[A] not` ends with a connective, `and [A] [B]` starts
with one and has two operands next to each other, and `( ) [A]` has an empty group. -/
theorem not_derives_of_ofTokens_eq_ok :
    (ofTokens [⟨"[A]".toList⟩, ⟨"not".toList⟩] = .ok (.not (.atom (.field ['A']))) ∧
      ∀ e, ¬ Derives Token.terminals .disjunction [⟨"[A]".toList⟩, ⟨"not".toList⟩] e) ∧
    (ofTokens [⟨"and".toList⟩, ⟨"[A]".toList⟩, ⟨"[B]".toList⟩] =
        .ok (.and (.atom (.field ['A'])) (.atom (.field ['B']))) ∧
      ∀ e, ¬ Derives Token.terminals .disjunction
        [⟨"and".toList⟩, ⟨"[A]".toList⟩, ⟨"[B]".toList⟩] e) ∧
    (ofTokens [⟨"(".toList⟩, ⟨")".toList⟩, ⟨"[A]".toList⟩] = .ok (.atom (.field ['A'])) ∧
      ∀ e, ¬ Derives Token.terminals .disjunction
        [⟨"(".toList⟩, ⟨")".toList⟩, ⟨"[A]".toList⟩] e) :=
  ⟨⟨by rfl, not_derives_of_not_inTurn (by decide)⟩,
    ⟨by rfl, not_derives_of_not_inTurn (by decide)⟩,
    ⟨by rfl, not_derives_of_not_inTurn (by decide)⟩⟩

end Expr

end Criteria
