/-
Nothing is lost and nothing is invented on the way from segments to expressions. The operands on
the stack, read from the bottom, hold the conditions that have been read, in the order in which
they were read; and the connectives that have been read are those inside the operands together
with those still pending. Every move keeps both (`Holding.move`), also in lists that the grammar
does not derive, where parentheses do not keep the operands of a group apart from those below it.

Connectives are compared up to order: in `[A] [B] [C] or and` the two trade places.
-/
import Criteria.Proofs.Steps

set_option autoImplicit false

namespace Criteria

/-! ## What expressions and segments hold -/

/-- Whether a connective joins two operands. -/
def Connective.isBinary : Connective → Bool
  | .and | .or => true
  | .not => false

namespace Expr

/-- The conditions of an expression, from left to right. -/
def atoms : Expr → List Atom
  | .atom a => [a]
  | .not e => e.atoms
  | .and l r | .or l r => l.atoms ++ r.atoms

/-- The connectives of an expression, each before those of its operands. -/
def connectives : Expr → List Connective
  | .atom _ => []
  | .not e => .not :: e.connectives
  | .and l r => .and :: (l.connectives ++ r.connectives)
  | .or l r => .or :: (l.connectives ++ r.connectives)

/-- An expression has one condition more than it has binary connectives. -/
theorem length_atoms (e : Expr) :
    e.atoms.length = e.connectives.countP Connective.isBinary + 1 := by
  induction e with
  | atom a => rfl
  | not e ih => rw [atoms, connectives, List.countP_cons_of_neg (by decide), ih]
  | and l r ihl ihr =>
    rw [atoms, connectives, List.countP_cons_of_pos rfl, List.countP_append, List.length_append]
    omega
  | or l r ihl ihr =>
    rw [atoms, connectives, List.countP_cons_of_pos rfl, List.countP_append, List.length_append]
    omega

theorem length_flatMap_atoms (es : List Expr) :
    (es.flatMap atoms).length =
      (es.flatMap connectives).countP Connective.isBinary + es.length := by
  induction es with
  | nil => rfl
  | cons e es ih =>
    rw [List.flatMap_cons, List.flatMap_cons, List.length_append, List.countP_append,
      List.length_cons, length_atoms, ih]
    omega

end Expr

namespace Segment

/-- The connective that a segment is, if it is one. -/
def connective? : Segment → Option Connective
  | .connective c _ => some c
  | _ => none

end Segment

/-- The connective that is pending, if it is no group. -/
def Pending.connective? : Pending → Option Connective
  | .connective c => some c
  | .group => none

namespace Stacks

/-- The conditions on the stacks, in the order in which they were read. -/
def atoms (st : Stacks) : List Atom := st.operands.reverse.flatMap Expr.atoms

/-- The connectives on the stacks: those applied, inside the operands, and those pending. -/
def connectives (st : Stacks) : List Connective :=
  st.operands.flatMap Expr.connectives ++ st.pending.filterMap Pending.connective?

@[simp] theorem atoms_pushPending (p : Pending) (st : Stacks) :
    (st.pushPending p).atoms = st.atoms := rfl

@[simp] theorem atoms_pushOperand (e : Expr) (st : Stacks) :
    (st.pushOperand e).atoms = st.atoms ++ e.atoms := by
  simp [atoms, pushOperand]

@[simp] theorem connectives_pushOperand_atom (a : Atom) (st : Stacks) :
    (st.pushOperand (.atom a)).connectives = st.connectives := rfl

theorem connectives_pushPending_connective (c : Connective) (st : Stacks) :
    (st.pushPending (.connective c)).connectives.Perm (st.connectives ++ [c]) :=
  List.perm_middle.trans (List.perm_append_singleton c st.connectives).symm

/-! ## Combining and unwinding -/

theorem atoms_of_combine {c : Connective} {es es' : List Expr} (h : combine c es = .ok es') :
    es'.reverse.flatMap Expr.atoms = es.reverse.flatMap Expr.atoms := by
  rcases combine_eq_ok_iff.mp h with
    ⟨e, rest, rfl, rfl, rfl⟩ | ⟨l, r, rest, rfl, rfl, rfl⟩ | ⟨l, r, rest, rfl, rfl, rfl⟩
  · simp [Expr.atoms]
  · simp [Expr.atoms]
  · simp [Expr.atoms]

/-- The connective that is applied joins those of its operands. The right operand is on top, so
the connectives of the two operands trade places. -/
theorem connectives_of_combine {c : Connective} {es es' : List Expr} (h : combine c es = .ok es') :
    (es'.flatMap Expr.connectives).Perm (c :: es.flatMap Expr.connectives) := by
  have hswap : ∀ l r rest : List Connective,
      (c :: (l ++ r) ++ rest).Perm (c :: (r ++ (l ++ rest))) := by
    intro l r rest
    rw [List.cons_append, ← List.append_assoc]
    exact (List.perm_append_comm.append_right rest).cons c
  rcases combine_eq_ok_iff.mp h with
    ⟨e, rest, rfl, rfl, rfl⟩ | ⟨l, r, rest, rfl, rfl, rfl⟩ | ⟨l, r, rest, rfl, rfl, rfl⟩
  · exact List.Perm.refl _
  · exact hswap l.connectives r.connectives (rest.flatMap Expr.connectives)
  · exact hswap l.connectives r.connectives (rest.flatMap Expr.connectives)

/-- Unwinding keeps the conditions in their order, and the connectives up to order. -/
theorem atoms_and_connectives_of_unwind {p : Connective → Bool} {st st' : Stacks}
    (h : unwind p st.operands st.pending = .ok st') :
    st'.atoms = st.atoms ∧ st'.connectives.Perm st.connectives := by
  -- What is kept while connectives are applied one by one.
  refine (unwind_induction (P := fun es ps =>
    Stacks.atoms ⟨es, ps⟩ = st.atoms ∧ (Stacks.connectives ⟨es, ps⟩).Perm st.connectives)
    ?_ ⟨rfl, List.Perm.refl _⟩ h).1
  rintro c es es' ps hcombine ⟨hatoms, hconnectives⟩
  refine ⟨(atoms_of_combine hcombine).trans hatoms, List.Perm.trans ?_ hconnectives⟩
  have happlied := (connectives_of_combine hcombine).append_right
    (ps.filterMap Pending.connective?)
  exact happlied.trans List.perm_middle.symm

end Stacks

/-! ## Conservation -/

/-- The expressions hold what the segments hold: their conditions, from left to right, are those
of the operand segments in order, and their connectives are those of the connective segments. -/
structure Segment.Conserved (ss : List Segment) (es : List Expr) : Prop where
  /-- Every operand segment is a condition, and the conditions are these in this order. -/
  atoms : (ss.filter isOperand).map atom? = (es.flatMap Expr.atoms).map some
  /-- The connectives are these, each as often. -/
  connectives : (es.flatMap Expr.connectives).Perm (ss.filterMap connective?)

/-- There are as many operands as expressions and binary connectives together. -/
theorem Segment.Conserved.countP_isOperand {ss : List Segment} {es : List Expr}
    (h : Conserved ss es) :
    ss.countP isOperand = es.length + (ss.filterMap connective?).countP Connective.isBinary := by
  have hlength := congrArg List.length h.atoms
  rw [List.length_map, List.length_map, Expr.length_flatMap_atoms,
    h.connectives.countP_eq] at hlength
  rw [List.countP_eq_length_filter, hlength, Nat.add_comm]

namespace Stacks

/-- What the stacks hold of the segments read so far. -/
structure Holding (ss : List Segment) (st : Stacks) : Prop where
  atoms : (ss.filter Segment.isOperand).map Segment.atom? = st.atoms.map some
  connectives : st.connectives.Perm (ss.filterMap Segment.connective?)

theorem Holding.unwind {ss : List Segment} {st st' : Stacks} {p : Connective → Bool}
    (h : Holding ss st) (hunwind : Stacks.unwind p st.operands st.pending = .ok st') :
    Holding ss st' := by
  obtain ⟨hatoms, hconnectives⟩ := atoms_and_connectives_of_unwind hunwind
  refine ⟨?_, hconnectives.trans h.connectives⟩
  rw [hatoms]
  exact h.atoms

/-- One more segment, with what it adds. -/
theorem Holding.append {ss : List Segment} {st st' : Stacks} {s : Segment} (h : Holding ss st)
    (hatoms : st'.atoms.map some = st.atoms.map some ++ ([s].filter Segment.isOperand).map
      Segment.atom?)
    (hconnectives : st'.connectives.Perm (st.connectives ++ [s].filterMap Segment.connective?)) :
    Holding (ss ++ [s]) st' := by
  refine ⟨?_, ?_⟩
  · rw [List.filter_append, List.map_append, h.atoms, hatoms]
  · rw [List.filterMap_append]
    exact hconnectives.trans (h.connectives.append_right _)

/-- Every move keeps what the stacks hold. -/
theorem Holding.move (ss : List Segment) (st : Stacks) (s : Segment) (st' : Stacks)
    (hmove : Move st s st') (h : Holding ss st) : Holding (ss ++ [s]) st' := by
  cases hmove with
  | opening => exact h.append (by simp [Segment.isOperand]) (.of_eq (List.append_nil _).symm)
  | @closing es ps hunwind =>
    -- The group that is closed is no connective, so dropping it changes nothing.
    have hgroup : Holding ss ((⟨es, ps⟩ : Stacks).pushPending .group) := h.unwind hunwind
    exact hgroup.append (by simp [Segment.isOperand]) (.of_eq (List.append_nil _).symm)
  | not => exact h.append (by simp [Segment.isOperand]) (connectives_pushPending_connective _ st)
  | binary _ hunwind =>
    exact (h.unwind hunwind).append (by simp [Segment.isOperand])
      (connectives_pushPending_connective _ _)
  | @operand s a ha =>
    have hs := Segment.isOperand_of_atom? ha
    have hnone : s.connective? = none := by
      cases s with
      | connective c w => cases hs
      | paren | comparison | lone => rfl
    exact h.append (by simp [hs, ha, Expr.atoms]) (by simp [hnone])

theorem holding_of_run {ss : List Segment} {st : Stacks} (h : Stacks.empty.run ss = .ok st) :
    Holding ss st := by
  have hempty : Holding [] empty := ⟨rfl, List.Perm.refl _⟩
  exact run_induction Holding.move hempty h

/-- What has been read as an operand is a condition. -/
theorem Holding.exists_atom? {ss : List Segment} {st : Stacks} {s : Segment}
    (h : Holding ss st) (hs : s ∈ ss) (hoperand : s.isOperand) : ∃ a, s.atom? = some a := by
  have hmem : s.atom? ∈ (ss.filter Segment.isOperand).map Segment.atom? :=
    List.mem_map_of_mem (List.mem_filter.mpr ⟨hs, hoperand⟩)
  rw [h.atoms] at hmem
  obtain ⟨a, -, ha⟩ := List.mem_map.mp hmem
  exact ⟨a, ha.symm⟩

/-- When nothing is pending, the operands have everything. -/
theorem Holding.conserved {ss : List Segment} {es : List Expr} (h : Holding ss ⟨es.reverse, []⟩) :
    Segment.Conserved ss es := by
  refine ⟨?_, ?_⟩
  · rw [h.atoms, Stacks.atoms, List.reverse_reverse]
  · -- The stack lists the expressions from the top, the message from the bottom.
    have hreverse := (List.reverse_perm es).flatMap_right Expr.connectives
    have hconnectives := h.connectives
    rw [Stacks.connectives, List.filterMap_nil, List.append_nil] at hconnectives
    exact hreverse.symm.trans hconnectives

end Stacks

namespace Expr

/-- What is read holds what the segments hold. -/
theorem conserved_of_ofTokens_eq_ok {ts : List Token} {e : Expr} (h : ofTokens ts = .ok e) :
    Segment.Conserved (Segment.ofTokens ts) [e] := by
  obtain ⟨st, hrun, hresult⟩ := ofTokens_eq_ok_iff.mp h
  have hleft : Stacks.Holding (Segment.ofTokens ts) ⟨[e].reverse, []⟩ :=
    (Stacks.holding_of_run hrun).unwind (Stacks.result_eq_ok_iff.mp hresult)
  exact hleft.conserved

/-- And so does what is left unjoined. -/
theorem conserved_of_ofTokens_eq_unjoined {ts : List Token} {es : List Expr}
    (h : ofTokens ts = .error (.unjoined es)) :
    Segment.Conserved (Segment.ofTokens ts) es := by
  obtain ⟨st, hrun, hresult⟩ := ofTokens_eq_unjoined_iff.mp h
  obtain ⟨hunwind, -⟩ := Stacks.result_eq_unjoined_iff.mp hresult
  exact ((Stacks.holding_of_run hrun).unwind hunwind).conserved

theorem two_le_length_of_unjoined {ts : List Token} {es : List Expr}
    (h : ofTokens ts = .error (.unjoined es)) : 2 ≤ es.length := by
  obtain ⟨st, -, hresult⟩ := ofTokens_eq_unjoined_iff.mp h
  exact (Stacks.result_eq_unjoined_iff.mp hresult).2

/-- **Nothing is lost, doubled or reordered.** The segments use every token once. If they are read
as an expression, its tree is made of binary `and` and `or` and unary `not` over the conditions of
the segments, in order, with the connectives of the segments. If they are left unjoined, there are
at least two expressions, and with the binary connectives they are as many as the operands; the
expressions hold the same conditions and connectives between them; and the message gives their
number and lists their trees. -/
theorem ofTokens_conserves (ts : List Token) :
    (Segment.ofTokens ts).flatMap Segment.tokens = ts ∧
    (∀ e, ofTokens ts = .ok e →
      e.toRule.toJson = e.tree ∧ Segment.Conserved (Segment.ofTokens ts) [e]) ∧
    (∀ es, ofTokens ts = .error (.unjoined es) →
      es.length +
          ((Segment.ofTokens ts).filterMap Segment.connective?).countP Connective.isBinary =
        (Segment.ofTokens ts).countP Segment.isOperand ∧
      2 ≤ es.length ∧ Segment.Conserved (Segment.ofTokens ts) es ∧
      (Error.unjoined es).message = "malformed expression: " ++ toString es.length ++
        " operands left without a connective: " ++
        ", ".intercalate (es.map fun e => String.ofList (e.tree.render .compact))) := by
  refine ⟨Segment.flatMap_tokens_ofTokens ts, fun e h => ?_, fun es h => ?_⟩
  · exact ⟨e.toJson_toRule, conserved_of_ofTokens_eq_ok h⟩
  · have hconserved := conserved_of_ofTokens_eq_unjoined h
    refine ⟨?_, two_le_length_of_unjoined h, hconserved, ?_⟩
    · exact hconserved.countP_isOperand.symm
    · have hrender : (fun e : Expr => e.toRule.render .compact) =
          fun e => String.ofList (e.tree.render .compact) := by
        funext e
        rw [Rule.render, toJson_toRule]
      rw [← hrender]
      rfl

/-- `[A] [B] [C] or and` is read, with the two connectives in the other order, and `[A] not [B]` is
left unjoined. -/
theorem ofTokens_conserves_outside_grammar :
    (∃ ts e, ts.map (String.ofList ∘ Token.text) = ["[A]", "[B]", "[C]", "or", "and"] ∧
      e = .or (.atom (.field ['A'])) (.and (.atom (.field ['B'])) (.atom (.field ['C']))) ∧
      ofTokens ts = .ok e ∧ Segment.Conserved (Segment.ofTokens ts) [e]) ∧
    (∃ ts es, ts.map (String.ofList ∘ Token.text) = ["[A]", "not", "[B]"] ∧
      es = [.atom (.field ['A']), .not (.atom (.field ['B']))] ∧
      ofTokens ts = .error (.unjoined es) ∧ Segment.Conserved (Segment.ofTokens ts) es) := by
  have hread : ofTokens (["[A]", "[B]", "[C]", "or", "and"].map (Token.mk ∘ String.toList)) = .ok
      (.or (.atom (.field ['A'])) (.and (.atom (.field ['B'])) (.atom (.field ['C'])))) := by rfl
  have hleft : ofTokens (["[A]", "not", "[B]"].map (Token.mk ∘ String.toList)) = .error
      (.unjoined [.atom (.field ['A']), .not (.atom (.field ['B']))]) := by rfl
  obtain ⟨_, hok, _⟩ :=
    ofTokens_conserves (["[A]", "[B]", "[C]", "or", "and"].map (Token.mk ∘ String.toList))
  obtain ⟨_, _, hunjoined⟩ :=
    ofTokens_conserves (["[A]", "not", "[B]"].map (Token.mk ∘ String.toList))
  exact ⟨⟨_, _, rfl, rfl, hread, (hok _ hread).2⟩,
    ⟨_, _, rfl, rfl, hleft, (hunjoined _ hleft).2.2.1⟩⟩

end Expr

end Criteria
