/-
What the division into segments does to the grammar. An operand looks up to two tokens ahead, and
the one danger is that it takes a token that belongs to what follows it. It cannot: in a derived
list an operand is followed by a parenthesis, by a connective or by nothing, and none of these is
a comparison symbol.

So the grammar over tokens and the grammar over segments describe the same lists
(`derives_ofTokens_iff`), and everything else about the precedence method can be said of segments,
where one step of the method takes one terminal.
-/
import Criteria.Proofs.Shapes

set_option autoImplicit false

namespace Criteria

/-! ## Segments as terminals -/

namespace Segment

/-- Whether a segment is an operand. -/
def isOperand : Segment → Bool
  | .comparison _ _ _ | .lone _ => true
  | .paren _ | .connective _ _ => false

/-- The condition that a segment is, if it is one. -/
def atom? : Segment → Option Atom
  | .comparison field op value => some (.compare field op value)
  | .lone t => Atom.ofToken? t
  | _ => none

theorem isOperand_of_atom? {s : Segment} {a : Atom} (h : s.atom? = some a) : s.isOperand := by
  cases s with
  | paren p => cases h
  | connective c w => cases h
  | comparison f op v => rfl
  | lone t => rfl

/-- Segments as the grammar takes them. -/
def terminals : Terminals Segment where
  paren := .paren
  keyword c s := ∃ w, s = .connective c w
  atom ss a := ∃ s, ss = [s] ∧ s.atom? = some a

/-! ## One segment at a time -/

theorem ofTokens_cons_of_structural? {t : Token} {s : Segment} (h : structural? t = some s)
    (ts : List Token) : ofTokens (t :: ts) = s :: ofTokens ts := by
  match ts with
  | [] => simp [ofTokens, h]
  | [u] => simp [ofTokens, h]
  | u :: v :: ts => simp [ofTokens, h]

theorem ofTokens_cons_lone {t : Token} {ts : List Token} (h : structural? t = none)
    (hnext : ∀ u ∈ ts.head?, Comparison.ofText? u.text = none) :
    ofTokens (t :: ts) = .lone t :: ofTokens ts := by
  match ts with
  | [] => simp [ofTokens, h]
  | [u] => simp [ofTokens, h]
  | u :: v :: ts => simp [ofTokens, h, hnext u rfl]

theorem ofTokens_comparison {f s v : Token} {op : Comparison} (h : structural? f = none)
    (hop : Comparison.ofText? s.text = some op) (ts : List Token) :
    ofTokens (f :: s :: v :: ts) = .comparison f op v :: ofTokens ts := by
  simp [ofTokens, h, hop]

/-- The first segment of a list of tokens, with the tokens behind it. -/
inductive Leads : List Token → Segment → List Token → Prop where
  | structural {t : Token} {s : Segment} {ts : List Token} :
      structural? t = some s → Leads (t :: ts) s ts
  | comparison {f u v : Token} {op : Comparison} {ts : List Token} :
      structural? f = none → Comparison.ofText? u.text = some op →
      Leads (f :: u :: v :: ts) (.comparison f op v) ts
  | lone {t : Token} {ts : List Token} :
      structural? t = none →
      (∀ u v us, ts = u :: v :: us → Comparison.ofText? u.text = none) →
      Leads (t :: ts) (.lone t) ts

/-- With less than two tokens behind it an operand stands alone. -/
theorem leads_getD_structural? {ts : List Token} (h : ts.length < 2) (t : Token) :
    Leads (t :: ts) ((structural? t).getD (.lone t)) ts := by
  cases ht : structural? t with
  | some s => exact .structural ht
  | none =>
    refine .lone ht fun u v us hts => ?_
    rw [hts, List.length_cons, List.length_cons] at h
    omega

/-- A division is made of a first segment and the division of the tokens behind it. -/
theorem exists_leads_of_ofTokens {ts : List Token} {s : Segment} {ss : List Segment}
    (h : ofTokens ts = s :: ss) : ∃ rest, Leads ts s rest ∧ ofTokens rest = ss := by
  fun_cases ofTokens ts with
  | case1 => simp [ofTokens] at h
  | case2 t =>
    rw [ofTokens] at h
    obtain ⟨rfl, rfl⟩ := List.cons.inj h
    exact ⟨[], leads_getD_structural? (by decide) t, rfl⟩
  | case3 t u =>
    rw [ofTokens] at h
    obtain ⟨rfl, rfl⟩ := List.cons.inj h
    exact ⟨[u], leads_getD_structural? (by exact Nat.one_lt_two) t, rfl⟩
  | case4 t u v ts s hs =>
    rw [ofTokens_cons_of_structural? hs] at h
    obtain ⟨rfl, rfl⟩ := List.cons.inj h
    exact ⟨u :: v :: ts, .structural hs, rfl⟩
  | case5 t u v ts hs op hop =>
    rw [ofTokens_comparison hs hop] at h
    obtain ⟨rfl, rfl⟩ := List.cons.inj h
    exact ⟨ts, .comparison hs hop, rfl⟩
  | case6 t u v ts hs hop =>
    rw [ofTokens, hs, hop] at h
    obtain ⟨rfl, rfl⟩ := List.cons.inj h
    refine ⟨u :: v :: ts, .lone hs fun u' v' us hus => ?_, rfl⟩
    rw [← (List.cons.inj hus).1]
    exact hop

/-- A parenthesis or a connective is no operand. -/
theorem isOperand_of_structural? {t : Token} {s : Segment} (h : structural? t = some s) :
    s.isOperand = false := by
  unfold structural? at h
  split at h
  · rw [← Option.some.inj h]
    rfl
  · obtain ⟨c, -, rfl⟩ := Option.map_eq_some_iff.mp h
    rfl

/-- Behind an operand that stands alone there is no comparison symbol, unless it is the last token
and stands alone too. -/
theorem Leads.ofText?_eq_none {t u : Token} {ts us : List Token} (h : Leads ts (.lone t) (u :: us))
    (hlast : ofTokens (u :: us) = [.lone u] → Comparison.ofText? u.text = none) :
    Comparison.ofText? u.text = none := by
  cases h with
  | structural ht => exact Bool.noConfusion (isOperand_of_structural? ht)
  | lone _ hnone =>
    cases us with
    | cons v us => exact hnone u v us rfl
    | nil =>
      cases hu : structural? u with
      | some s => exact ofText?_eq_none_of_structural? hu
      | none =>
        refine hlast ?_
        rw [ofTokens, hu]
        rfl

/-- Tokens that are appended leave the first segment as it is, unless it stands alone and has a
comparison symbol behind it then. -/
theorem Leads.ofTokens_append {ts rest more : List Token} {s : Segment} (h : Leads ts s rest)
    (hnext : ∀ t, s = .lone t → ∀ u ∈ (rest ++ more).head?, Comparison.ofText? u.text = none) :
    ofTokens (ts ++ more) = s :: ofTokens (rest ++ more) := by
  cases h with
  | structural ht => exact ofTokens_cons_of_structural? ht _
  | comparison hf hop => exact ofTokens_comparison hf hop _
  | lone ht _ => exact ofTokens_cons_lone ht (hnext _ rfl)

/-- What a segment says of its tokens is true of them: an operand does not start with structure,
and the word of a connective spells it. -/
def Faithful : Segment → Prop
  | .paren _ => True
  | .connective c w => Connective.ofText? w.text = some c
  | .comparison f _ _ => structural? f = none
  | .lone t => structural? t = none

theorem faithful_of_structural? {t : Token} {s : Segment} (h : structural? t = some s) :
    s.Faithful := by
  unfold structural? at h
  split at h
  · rw [← Option.some.inj h]
    trivial
  · obtain ⟨c, hc, rfl⟩ := Option.map_eq_some_iff.mp h
    exact hc

theorem faithful_getD_structural? (t : Token) : ((structural? t).getD (.lone t)).Faithful := by
  cases h : structural? t with
  | none => exact h
  | some s => exact faithful_of_structural? h

/-- The segments that tokens are divided into are faithful. -/
theorem faithful_of_mem_ofTokens {ts : List Token} : ∀ s ∈ ofTokens ts, s.Faithful := by
  fun_induction ofTokens ts with
  | case1 => simp
  | case2 t => simpa using faithful_getD_structural? t
  | case3 t u ih => exact List.forall_mem_cons.mpr ⟨faithful_getD_structural? t, ih⟩
  | case4 t u v ts s hs ih => exact List.forall_mem_cons.mpr ⟨faithful_of_structural? hs, ih⟩
  | case5 t u v ts hs op hop ih => exact List.forall_mem_cons.mpr ⟨hs, ih⟩
  | case6 t u v ts hs hop ih => exact List.forall_mem_cons.mpr ⟨hs, ih⟩

/-! ## The two grammars describe the same lists -/

/-- No operand reaches into `ts` from the left: it is empty or starts with structure. -/
def Apart (ts : List Token) : Prop := ∀ t ∈ ts.head?, ∃ s, structural? t = some s

theorem apart_nil : Apart [] := by
  intro t ht
  simp at ht

theorem apart_cons {t : Token} {s : Segment} (h : structural? t = some s) (ts : List Token) :
    Apart (t :: ts) := by
  intro u hu
  obtain rfl : t = u := by simpa using hu
  exact ⟨s, h⟩

theorem structural?_paren (p : Paren) : structural? ⟨[p.char]⟩ = some (.paren p) := by
  cases p <;> rfl

/-- The segments of derived tokens are derived, and they do not depend on what follows. -/
theorem exists_derives_ofTokens_append {level : Expr.Level} {ts : List Token} {e : Expr}
    (h : Expr.Derives Token.terminals level ts e) :
    ∃ ss, Expr.Derives terminals level ss e ∧
      ∀ rest, Apart rest → ofTokens (ts ++ rest) = ss ++ ofTokens rest := by
  -- The statement is about every list that may follow, since phrases follow each other.
  induction h with
  | @or ts us w l r _ hw _ ihl ihr =>
    obtain ⟨ss, hss, hts⟩ := ihl
    obtain ⟨ss', hss', hus⟩ := ihr
    have hword := structural?_of_ofText? hw
    refine ⟨ss ++ .connective .or w :: ss', .or hss ⟨w, rfl⟩ hss', fun rest hrest => ?_⟩
    rw [List.append_assoc, List.cons_append, hts _ (apart_cons hword _),
      ofTokens_cons_of_structural? hword, hus rest hrest, List.append_assoc, List.cons_append]
  | conjunction _ ih =>
    obtain ⟨ss, hss, hts⟩ := ih
    exact ⟨ss, .conjunction hss, hts⟩
  | @and ts us w l r _ hw _ ihl ihr =>
    obtain ⟨ss, hss, hts⟩ := ihl
    obtain ⟨ss', hss', hus⟩ := ihr
    have hword := structural?_of_ofText? hw
    refine ⟨ss ++ .connective .and w :: ss', .and hss ⟨w, rfl⟩ hss', fun rest hrest => ?_⟩
    rw [List.append_assoc, List.cons_append, hts _ (apart_cons hword _),
      ofTokens_cons_of_structural? hword, hus rest hrest, List.append_assoc, List.cons_append]
  | factor _ ih =>
    obtain ⟨ss, hss, hts⟩ := ih
    exact ⟨ss, .factor hss, hts⟩
  | @not ts w e hw _ ih =>
    obtain ⟨ss, hss, hts⟩ := ih
    refine ⟨.connective .not w :: ss, .not ⟨w, rfl⟩ hss, fun rest hrest => ?_⟩
    rw [List.cons_append, ofTokens_cons_of_structural? (structural?_of_ofText? hw),
      hts rest hrest, List.cons_append]
  | @group ts e _ ih =>
    obtain ⟨ss, hss, hts⟩ := ih
    refine ⟨_, .group hss, fun rest hrest => ?_⟩
    have hopen := structural?_paren .opening
    have hclose := structural?_paren .closing
    simp only [Token.terminals, terminals, List.cons_append, List.append_assoc, List.nil_append]
    rw [ofTokens_cons_of_structural? hopen, hts _ (apart_cons hclose _),
      ofTokens_cons_of_structural? hclose]
  | @atom ts a hatom =>
    cases ts with
    | nil => cases hatom
    | cons t us =>
      cases us with
      | nil =>
        -- What follows starts with structure, so it has no comparison symbol to offer.
        have hlone := Atom.structural?_eq_none_of_spelled hatom
        refine ⟨[.lone t], .atom ⟨_, rfl, Atom.ofToken?_eq_some_iff.mpr hatom⟩,
          fun rest hrest => ofTokens_cons_lone hlone fun u hu => ?_⟩
        obtain ⟨s, hs⟩ := hrest u hu
        exact ofText?_eq_none_of_structural? hs
      | cons u us =>
        cases hatom with
        | @comparison f s v op hparen hword hop =>
          refine ⟨[.comparison t op v], .atom ⟨_, rfl, rfl⟩, fun rest _ => ?_⟩
          exact ofTokens_comparison (structural?_eq_none_iff.mpr ⟨hparen, hword⟩) hop rest

/-- The tokens of derived segments are derived, if the segments are faithful to them. -/
theorem derives_flatMap_tokens {level : Expr.Level} {ss : List Segment} {e : Expr}
    (h : Expr.Derives terminals level ss e) (hfaithful : ∀ s ∈ ss, s.Faithful) :
    Expr.Derives Token.terminals level (ss.flatMap tokens) e := by
  refine h.flatMap (fun p => rfl) ?_ ?_ hfaithful
  · rintro c _ hs ⟨w, rfl⟩
    exact ⟨w, rfl, hs⟩
  · rintro _ a hss ⟨s, rfl, hs⟩
    have hs' := hss s (List.mem_singleton.mpr rfl)
    rw [List.flatMap_singleton]
    cases s with
    | paren p => simp [atom?] at hs
    | connective c w => simp [atom?] at hs
    | comparison f op v =>
      rw [← Option.some.inj hs]
      obtain ⟨hparen, hword⟩ := structural?_eq_none_iff.mp hs'
      exact .comparison hparen hword (Comparison.ofText?_eq_some_iff.mpr rfl)
    | lone t => exact Atom.ofToken?_eq_some_iff.mp hs

/-- **Lookahead is harmless.** Tokens spell an expression exactly if their segments do. -/
theorem derives_ofTokens_iff {level : Expr.Level} {ts : List Token} {e : Expr} :
    Expr.Derives terminals level (ofTokens ts) e ↔ Expr.Derives Token.terminals level ts e := by
  constructor
  · intro h
    rw [← flatMap_tokens_ofTokens ts]
    exact derives_flatMap_tokens h faithful_of_mem_ofTokens
  · intro h
    obtain ⟨ss, hss, hts⟩ := exists_derives_ofTokens_append h
    have hnil := hts [] apart_nil
    rw [List.append_nil, ofTokens, List.append_nil] at hnil
    rwa [hnil]

end Segment

end Criteria
