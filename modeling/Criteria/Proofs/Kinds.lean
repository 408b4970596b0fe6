/-
The kind of a token is meant for listings, and the precedence method never asks for it. It tries
the same shapes on its own and in another order: the kind looks for a call, then for a field, then
for a date, while an operand is taken for a date first, then for a call, then for a field. The two
agree since no text has two of these shapes (`Atom.ofToken?_eq_some_iff`), and since a comparison
symbol has none of them.

So what becomes of a token that stands alone follows from its kind (`Token.alone_kind`). Kinds that
differ in what becomes of them can be told apart by it, and that is the agreement of the two
(`Expr.ofTokens_singleton_iff_kind`).
-/
import Criteria.Proofs.Steps

set_option autoImplicit false

namespace Criteria

/-! ## Edges of dates -/

/-- A trim takes characters off both ends, so it does not matter if one was taken off before. -/
theorem Text.trim_cons_concat {p : Char → Bool} {c d : Char} (hc : p c = true) (hd : p d = true)
    (s : Text) : trim p (c :: (s ++ [d])) = s.trim p := by
  rw [trim, List.dropWhile_cons_of_pos hc, List.dropWhile_append, trim]
  -- Either the whole of `s` is taken off at the start, or its last characters are at the end.
  cases hs : s.dropWhile p with
  | nil => simp [List.dropWhile_cons_of_pos hd]
  | cons x u => exact trimEnd_append (List.forall_mem_singleton.mpr hd) (x :: u)

namespace Token

/-- The text of a date is the token without the number signs at its edges. -/
theorem eq_trim_of_date? {t : Token} {s : Text} (h : t.date? = some s) :
    s = t.text.trim (· == '#') := by
  obtain ⟨inner, hinner, rfl⟩ := Option.map_eq_some_iff.mp h
  rw [Text.between?_eq_some_iff.mp hinner]
  exact (Text.trim_cons_concat rfl rfl inner).symm

end Token

/-! ## One token -/

namespace Expr

variable {t : Token}

theorem ofTokens_lone {a : Atom} (h : Atom.ofToken? t = some a) : ofTokens [t] = .ok (.atom a) := by
  have hlone := Atom.structural?_eq_none_of_spelled (Atom.ofToken?_eq_some_iff.mp h)
  simp [ofTokens, Segment.ofTokens, hlone, Stacks.run, Stacks.step, h, Stacks.result, bind,
    Except.bind, Stacks.empty, Stacks.pushOperand, Stacks.unwindGroup, Stacks.unwind]

theorem ofTokens_no_condition (hlone : Segment.structural? t = none)
    (h : Atom.ofToken? t = none) : ofTokens [t] = .error (.unrecognized t) := by
  simp [ofTokens, Segment.ofTokens, hlone, Stacks.run, Stacks.step, h, bind, Except.bind]

theorem ofTokens_paren {p : Paren} (h : Paren.ofText? t.text = some p) :
    ofTokens [t] = .error (.unbalanced p) := by
  rw [show t = ⟨[p.char]⟩ from congrArg Token.mk (Paren.ofText?_eq_some_iff.mp h)]
  cases p <;> rfl

theorem ofTokens_connective {c : Connective} (h : Connective.ofText? t.text = some c) :
    ofTokens [t] = .error (.missingOperand c) := by
  have hword := Segment.structural?_of_ofText? h
  rw [ofTokens, Segment.ofTokens, hword]
  cases c <;> rfl

end Expr

/-! ## What becomes of each kind -/

namespace Token

/-- What becomes of a token that stands alone, by its kind. -/
inductive Alone (t : Token) : Kind → Except Error Expr → Prop where
  | paren {p : Paren} : Alone t (.paren p) (.error (.unbalanced p))
  | connective {c : Connective} : Alone t .connective (.error (.missingOperand c))
  | comparison : Alone t .comparison (.error (.unrecognized t))
  | predicate {c : Call} :
      Call.whole? t.text = some c → Alone t (.predicate c.predicate) (.ok (.atom (.call c)))
  | field {name : Text} :
      t.text = '[' :: (name ++ [']']) → Alone t .field (.ok (.atom (.field name)))
  | date : Alone t .date (.ok (.atom (.date (t.text.trim (· == '#')))))
  | text : Alone t .text (.error (.unrecognized t))

/-- What becomes of a token follows from its kind. -/
theorem alone_kind (t : Token) : Alone t t.kind (Expr.ofTokens [t]) := by
  unfold kind
  cases hparen : Paren.ofText? t.text with
  | some p =>
    rw [Expr.ofTokens_paren hparen]
    exact .paren
  | none =>
  cases hword : Connective.ofText? t.text with
  | some c =>
    rw [Expr.ofTokens_connective hword]
    exact .connective
  | none =>
  have hlone := Segment.structural?_eq_none_iff.mpr ⟨hparen, hword⟩
  cases hop : Comparison.ofText? t.text with
  | some op =>
    rw [Expr.ofTokens_no_condition hlone (Atom.ofToken?_eq_none_of_ofText? hop)]
    exact .comparison
  | none =>
  -- From here on the order in which the shapes are tried is that of the kind.
  cases hcall : Call.whole? t.text with
  | some c =>
    rw [Expr.ofTokens_lone (Atom.ofToken?_eq_some_iff.mpr (.call hcall))]
    exact .predicate hcall
  | none =>
  cases hfield : t.field? with
  | some name =>
    rw [Expr.ofTokens_lone (Atom.ofToken?_eq_some_iff.mpr (.field hfield))]
    exact .field (Text.between?_eq_some_iff.mp hfield)
  | none =>
  cases hdate : t.date? with
  | some s =>
    rw [Expr.ofTokens_lone (Atom.ofToken?_eq_some_iff.mpr (.date hdate)), eq_trim_of_date? hdate]
    exact .date
  | none =>
    have hnone : Atom.ofToken? t = none := by simp [Atom.ofToken?, hdate, hcall, hfield]
    rw [Expr.ofTokens_no_condition hlone hnone]
    exact .text

end Token

/-- Whether an error says that operands and connectives do not go together. -/
def Error.isMalformed : Error → Bool
  | .noOperand | .missingOperand _ | .unjoined _ => true
  | .unbalanced _ | .unrecognized _ => false

namespace Expr

/-- **The kind of a token says what becomes of it.** A token that stands alone is an expression
exactly if it is a field, a date or a call by its kind, and then the expression is what the kind
says: the variable between the brackets, the text without the number signs at its edges, the rule of
the call with the predicate of the kind. It is refused as no operand exactly if its kind is text or a
comparison symbol, as an unbalanced parenthesis exactly if it is that parenthesis, and as malformed
exactly if it is a connective. -/
theorem ofTokens_singleton_iff_kind (t : Token) :
    ((∃ e, ofTokens [t] = .ok e) ↔
      t.kind = .field ∨ t.kind = .date ∨ ∃ p, t.kind = .predicate p) ∧
    (t.kind = .field → ∃ name, t.text = '[' :: (name ++ [']']) ∧
      ∃ e, ofTokens [t] = .ok e ∧ e.toRule.toJson = .single "var".toList (.str name)) ∧
    (t.kind = .date →
      ∃ e, ofTokens [t] = .ok e ∧ e.toRule.toJson = .str (t.text.trim (· == '#'))) ∧
    (∀ p, t.kind = .predicate p → ∃ c, Call.whole? t.text = some c ∧ c.predicate = p ∧
      ∃ e, ofTokens [t] = .ok e ∧ e.toRule.toJson = c.rule.toJson) ∧
    (∀ u, ofTokens [t] = .error (.unrecognized u) ↔
      t = u ∧ (t.kind = .text ∨ t.kind = .comparison)) ∧
    (∀ p, ofTokens [t] = .error (.unbalanced p) ↔ t.kind = .paren p) ∧
    ((∃ err, ofTokens [t] = .error err ∧ err.isMalformed) ↔ t.kind = .connective) := by
  have halone := t.alone_kind
  generalize t.kind = k at halone ⊢
  generalize ofTokens [t] = outcome at halone ⊢
  cases halone with
  | paren => simp [Error.isMalformed]
  | connective => simp [Error.isMalformed]
  | comparison => simp [Error.isMalformed]
  | @predicate c hcall => simp [hcall, toRule, Atom.toRule]
  | @field name htext => simp [htext, toRule, Atom.toRule, Rule.toJson]
  | date => simp [toRule, Atom.toRule, Rule.toJson]
  | text => simp [Error.isMalformed]

/-- `###` is a date without text, `[]` a field without name and `ISNULL([A])` a call, while `#` and
`isnull([A]` are no operands. -/
theorem ofTokens_singleton_iff_kind_edges :
    (∃ e, ofTokens [⟨"###".toList⟩] = .ok e ∧ e.toRule.toJson = .str []) ∧
    (∃ name, "[]".toList = '[' :: (name ++ [']']) ∧
      ∃ e, ofTokens [⟨"[]".toList⟩] = .ok e ∧
        e.toRule.toJson = .single "var".toList (.str name)) ∧
    (∃ c, Call.whole? "ISNULL([A])".toList = some c ∧ c.predicate = .isNull ∧
      ∃ e, ofTokens [⟨"ISNULL([A])".toList⟩] = .ok e ∧ e.toRule.toJson = c.rule.toJson) ∧
    ofTokens [⟨"#".toList⟩] = .error (.unrecognized ⟨"#".toList⟩) ∧
    ofTokens [⟨"isnull([A]".toList⟩] = .error (.unrecognized ⟨"isnull([A]".toList⟩) := by
  have hdate : Token.kind ⟨"###".toList⟩ = .date := by decide
  have hfield : Token.kind ⟨"[]".toList⟩ = .field := by decide
  have hcall : Token.kind ⟨"ISNULL([A])".toList⟩ = .predicate .isNull := by decide
  have hsign : Token.kind ⟨"#".toList⟩ = .text := by decide
  have hopen : Token.kind ⟨"isnull([A]".toList⟩ = .text := by decide
  exact ⟨(ofTokens_singleton_iff_kind _).2.2.1 hdate,
    (ofTokens_singleton_iff_kind _).2.1 hfield,
    (ofTokens_singleton_iff_kind _).2.2.2.1 _ hcall,
    ((ofTokens_singleton_iff_kind _).2.2.2.2.1 _).mpr ⟨rfl, .inl hsign⟩,
    ((ofTokens_singleton_iff_kind _).2.2.2.2.1 _).mpr ⟨rfl, .inl hopen⟩⟩

end Expr

end Criteria
