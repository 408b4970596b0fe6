/-
The grammar of criteria. `or` joins conjunctions and `and` joins factors, both to the left; a
factor is a negated factor, a group in parentheses, or a condition. A derivation also fixes the
expression that is denoted: parentheses leave no trace in it.

The grammar is stated over terminals of any kind, and there is more than one: the tokens of a
criterion, the segments that tokens are divided into, and the lexemes that an expression is
printed with. It says nothing about how terminals are to be read in order. It is the reference
that the precedence method is measured against, and `tree` is the JSON form that an expression is
meant to have.
-/
import Criteria.Expr.Basic

set_option autoImplicit false

namespace Criteria

/-- What the grammar is built on: the two parentheses, the words of each connective, and what
spells a condition. -/
structure Terminals (α : Type) where
  /-- The terminal that is a parenthesis. -/
  paren : Paren → α
  /-- Whether a terminal is a word of a connective. -/
  keyword : Connective → α → Prop
  /-- Whether some terminals spell a condition. -/
  atom : List α → Atom → Prop

namespace Expr

/-- The three levels of the grammar. -/
inductive Level where
  | disjunction
  | conjunction
  | factor
  deriving DecidableEq, Repr

/-- `Derives T level xs e` says that the terminals `xs` spell the expression `e` at a level. -/
inductive Derives {α : Type} (T : Terminals α) : Level → List α → Expr → Prop where
  /-- A disjunction, a word `or`, and a conjunction. -/
  | or {xs ys : List α} {w : α} {l r : Expr} :
      Derives T .disjunction xs l → T.keyword .or w → Derives T .conjunction ys r →
      Derives T .disjunction (xs ++ w :: ys) (.or l r)
  /-- A conjunction is a disjunction. -/
  | conjunction {xs : List α} {e : Expr} :
      Derives T .conjunction xs e → Derives T .disjunction xs e
  /-- A conjunction, a word `and`, and a factor. -/
  | and {xs ys : List α} {w : α} {l r : Expr} :
      Derives T .conjunction xs l → T.keyword .and w → Derives T .factor ys r →
      Derives T .conjunction (xs ++ w :: ys) (.and l r)
  /-- A factor is a conjunction. -/
  | factor {xs : List α} {e : Expr} : Derives T .factor xs e → Derives T .conjunction xs e
  /-- A word `not` and a factor. -/
  | not {xs : List α} {w : α} {e : Expr} :
      T.keyword .not w → Derives T .factor xs e → Derives T .factor (w :: xs) (.not e)
  /-- A disjunction in parentheses. -/
  | group {xs : List α} {e : Expr} :
      Derives T .disjunction xs e →
      Derives T .factor (T.paren .opening :: (xs ++ [T.paren .closing])) e
  /-- A condition. -/
  | atom {xs : List α} {a : Atom} : T.atom xs a → Derives T .factor xs (.atom a)

/-- Derivations are kept when each terminal is replaced by terminals of another kind, if that
keeps structure and conditions. -/
theorem Derives.flatMap {α β : Type} {T : Terminals α} {T' : Terminals β} {f : α → List β}
    {P : α → Prop} (hparen : ∀ p, f (T.paren p) = [T'.paren p])
    (hkeyword : ∀ c w, P w → T.keyword c w → ∃ w', f w = [w'] ∧ T'.keyword c w')
    (hatom : ∀ xs a, (∀ x ∈ xs, P x) → T.atom xs a → T'.atom (xs.flatMap f) a)
    {level : Level} {xs : List α} {e : Expr} (h : Derives T level xs e) (hxs : ∀ x ∈ xs, P x) :
    Derives T' level (xs.flatMap f) e := by
  induction h with
  | or _ hw _ ihl ihr =>
    rw [List.forall_mem_append, List.forall_mem_cons] at hxs
    obtain ⟨w', hf, hw'⟩ := hkeyword _ _ hxs.2.1 hw
    rw [List.flatMap_append, List.flatMap_cons, hf]
    exact .or (ihl hxs.1) hw' (ihr hxs.2.2)
  | conjunction _ ih => exact .conjunction (ih hxs)
  | and _ hw _ ihl ihr =>
    rw [List.forall_mem_append, List.forall_mem_cons] at hxs
    obtain ⟨w', hf, hw'⟩ := hkeyword _ _ hxs.2.1 hw
    rw [List.flatMap_append, List.flatMap_cons, hf]
    exact .and (ihl hxs.1) hw' (ihr hxs.2.2)
  | factor _ ih => exact .factor (ih hxs)
  | not hw _ ih =>
    rw [List.forall_mem_cons] at hxs
    obtain ⟨w', hf, hw'⟩ := hkeyword _ _ hxs.1 hw
    rw [List.flatMap_cons, hf]
    exact .not hw' (ih hxs.2)
  | group _ ih =>
    rw [List.forall_mem_cons, List.forall_mem_append] at hxs
    rw [List.flatMap_cons, List.flatMap_append, List.flatMap_singleton, hparen, hparen]
    exact .group (ih hxs.2.1)
  | atom h => exact .atom (hatom _ _ hxs h)

end Expr

/-! ## Tokens as terminals -/

/-- `Atom.Spelled ts a` says that the tokens `ts` spell the condition `a`. -/
inductive Atom.Spelled : List Token → Atom → Prop where
  /-- A comparison: a token that is neither a parenthesis nor a connective, a comparison symbol,
  and any token. -/
  | comparison {field symbol value : Token} {op : Comparison} :
      Paren.ofText? field.text = none → Connective.ofText? field.text = none →
      Comparison.ofText? symbol.text = some op →
      Spelled [field, symbol, value] (.compare field op value)
  /-- A date `#…#`. -/
  | date {t : Token} {s : Text} : t.date? = some s → Spelled [t] (.date s)
  /-- A predicate call. -/
  | call {t : Token} {c : Call} : Call.whole? t.text = some c → Spelled [t] (.call c)
  /-- A field `[name]`. -/
  | field {t : Token} {name : Text} : t.field? = some name → Spelled [t] (.field name)

/-- Tokens as the grammar takes them: a connective in any letter case. -/
def Token.terminals : Terminals Token where
  paren p := ⟨[p.char]⟩
  keyword c w := Connective.ofText? w.text = some c
  atom := Atom.Spelled

/-! ## Trees -/

/-- The JSON tree of a condition. -/
def Atom.tree : Atom → Json
  | .comparison name op value =>
    .single op.operator (.arr [.single "var".toList (.str name), .str value])
  | .call c => c.rule.toJson
  | .date s => .str s
  | .field name => .single "var".toList (.str name)

/-- The JSON tree of an expression: `and` and `or` hold the array of their two operands, and a
negation holds its operand itself. -/
def Expr.tree : Expr → Json
  | .atom a => a.tree
  | .not e => .single "!".toList e.tree
  | .and l r => .single "and".toList (.arr [l.tree, r.tree])
  | .or l r => .single "or".toList (.arr [l.tree, r.tree])

theorem Atom.toJson_toRule (a : Atom) : a.toRule.toJson = a.tree := by
  cases a <;> simp [toRule, tree, Rule.compare, Rule.toJson]

/-- The rule of an expression has the tree of the expression as its JSON form. -/
theorem Expr.toJson_toRule (e : Expr) : e.toRule.toJson = e.tree := by
  induction e with
  | atom a => exact a.toJson_toRule
  | not e ih => rw [toRule, Rule.toJson, ih, tree]
  | and l r ihl ihr => simp [toRule, Rule.toJson, ihl, ihr, tree, Connective.keyword]
  | or l r ihl ihr => simp [toRule, Rule.toJson, ihl, ihr, tree, Connective.keyword]

end Criteria
