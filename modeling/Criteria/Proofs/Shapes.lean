/-
The shapes of tokens exclude each other, and the first character tells most of them apart: a date
starts with `#`, a field with `[`, a call with the first letter of its predicate, a connective
with the first letter of its keyword. So a parenthesis or a connective is never taken for a
condition, and the order in which the shapes of a lone condition are tried is of no importance
(`ofToken?_eq_some_iff`).
-/
import Criteria.Expr.Grammar

set_option autoImplicit false

namespace Criteria

/-! ## Calls -/

/-- The first letters of predicates. -/
def Predicate.initials : Text := "icse".toList

/-- No structure starts with one of them. -/
theorem Predicate.not_mem_of_mem_initials {l : Char} (h : l ∈ initials) :
    l ∉ "()aon".toList := by
  have hall : initials.all (fun l => !"()aon".toList.contains l) = true := by decide
  simpa using List.all_eq_true.mp hall l h

theorem Predicate.exists_name_eq_cons (p : Predicate) : ∃ l s, p.name = l :: s ∧ l ∈ initials := by
  cases p <;> exact ⟨_, _, rfl, by decide⟩

/-- A text that a call can be read from starts with the first letter of a predicate. -/
theorem Call.exists_eq_cons_of_read? {s r : Text} {c : Call} (h : read? s = some (c, r)) :
    ∃ x s', s = x :: s' ∧ x.toLower ∈ Predicate.initials := by
  obtain ⟨p, _, hp⟩ := List.exists_of_findSome?_eq_some h
  obtain ⟨hs, _, hname⟩ := text_append_of_readOf? hp
  obtain ⟨l, t, hl, hmem⟩ := p.exists_name_eq_cons
  rw [hl] at hname
  obtain ⟨x, n, hn, rfl, _⟩ := List.map_eq_cons_iff.mp hname
  refine ⟨x, (c.text ++ r).tail, ?_, hmem⟩
  rw [hs]
  unfold text
  split <;> simp [hn]

theorem Call.whole?_eq_some_iff {s : Text} {c : Call} :
    whole? s = some c ↔ read? s = some (c, []) := by
  unfold whole?
  split
  · rename_i c' hread
    rw [hread]
    simp
  · rename_i hread
    simpa using hread c

theorem Call.exists_eq_cons_of_whole? {s : Text} {c : Call} (h : whole? s = some c) :
    ∃ x s', s = x :: s' ∧ x.toLower ∈ Predicate.initials :=
  exists_eq_cons_of_read? (whole?_eq_some_iff.mp h)

/-! ## Structure -/

/-- A parenthesis is no letter, so a word of a connective is no parenthesis. -/
theorem Paren.ofText?_eq_none_of_connective {s : Text} {c : Connective}
    (h : Connective.ofText? s = some c) : ofText? s = none := by
  refine Option.eq_none_iff_forall_ne_some.mpr fun p hp => ?_
  rw [ofText?_eq_some_iff.mp hp, Connective.ofText?_eq_some_iff] at h
  cases p <;> cases c <;> exact absurd h (by decide)

namespace Segment

theorem structural?_eq_none_iff {t : Token} :
    structural? t = none ↔ Paren.ofText? t.text = none ∧ Connective.ofText? t.text = none := by
  unfold structural?
  cases h : Paren.ofText? t.text with
  | none => simp
  | some p => simp

theorem structural?_of_ofText? {t : Token} {c : Connective}
    (h : Connective.ofText? t.text = some c) : structural? t = some (.connective c t) := by
  rw [structural?, Paren.ofText?_eq_none_of_connective h, h]
  rfl

/-- A token that starts like no parenthesis and no keyword is no structure. -/
theorem structural?_eq_none_of_cons {x : Char} {s : Text} (h : x.toLower ∉ "()aon".toList) :
    structural? ⟨x :: s⟩ = none := by
  refine structural?_eq_none_iff.mpr ⟨?_, ?_⟩
  · refine Option.eq_none_iff_forall_ne_some.mpr fun p hp => h ?_
    have htext := Paren.ofText?_eq_some_iff.mp hp
    rw [(List.cons.inj htext).1]
    cases p <;> decide
  · refine Option.eq_none_iff_forall_ne_some.mpr fun c hc => h ?_
    have hlower := Connective.ofText?_eq_some_iff.mp hc
    cases c <;> rw [(List.cons.inj hlower).1] <;> decide

theorem structural?_symbol (op : Comparison) : structural? ⟨op.symbol⟩ = none := by
  cases op <;> decide

/-- A parenthesis or a connective is no comparison symbol. -/
theorem ofText?_eq_none_of_structural? {t : Token} {s : Segment} (h : structural? t = some s) :
    Comparison.ofText? t.text = none := by
  refine Option.eq_none_iff_forall_ne_some.mpr fun op hop => ?_
  have ht : t = ⟨op.symbol⟩ := congrArg Token.mk (Comparison.ofText?_eq_some_iff.mp hop)
  rw [ht, structural?_symbol] at h
  simp at h

end Segment

/-! ## Lone conditions -/

namespace Atom

theorem date?_eq_none_of_cons {x : Char} {s : Text} (h : x ≠ '#') :
    Token.date? ⟨x :: s⟩ = none := by
  simp [Token.date?, Text.between?, h]

theorem date_head {t : Token} {s : Text} (h : t.date? = some s) : ∃ r, t.text = '#' :: r := by
  obtain ⟨r, hr, _⟩ := Option.map_eq_some_iff.mp h
  exact ⟨_, Text.between?_eq_some_iff.mp hr⟩

theorem field_head {t : Token} {s : Text} (h : t.field? = some s) : ∃ r, t.text = '[' :: r :=
  ⟨_, Text.between?_eq_some_iff.mp h⟩

/-- The three shapes of a lone condition exclude each other, so the order in which they are tried
is of no importance. -/
theorem ofToken?_eq_some_iff {t : Token} {a : Atom} : ofToken? t = some a ↔ Spelled [t] a := by
  constructor
  · intro h
    unfold ofToken? at h
    split at h
    · rename_i s hdate
      rw [← Option.some.inj h]
      exact .date hdate
    · split at h
      · rename_i c hcall
        rw [← Option.some.inj h]
        exact .call hcall
      · obtain ⟨name, hname, rfl⟩ := Option.map_eq_some_iff.mp h
        exact .field hname
  · intro h
    cases h with
    | date hdate => simp [ofToken?, hdate]
    | call hcall =>
      obtain ⟨x, s, hs, hx⟩ := Call.exists_eq_cons_of_whole? hcall
      have hne : x ≠ '#' := by
        rintro rfl
        exact absurd hx (by decide)
      have hdate : t.date? = none := by
        rw [show t = ⟨x :: s⟩ from congrArg Token.mk hs]
        exact date?_eq_none_of_cons hne
      simp [ofToken?, hdate, hcall]
    | field hfield =>
      obtain ⟨r, hr⟩ := field_head hfield
      have hdate : t.date? = none := by
        rw [show t = ⟨'[' :: r⟩ from congrArg Token.mk hr]
        exact date?_eq_none_of_cons (by decide)
      have hcall : Call.whole? t.text = none := by
        refine Option.eq_none_iff_forall_ne_some.mpr fun c hc => ?_
        obtain ⟨x, s, hs, hx⟩ := Call.exists_eq_cons_of_whole? hc
        rw [hr] at hs
        rw [← (List.cons.inj hs).1] at hx
        exact absurd hx (by decide)
      simp [ofToken?, hdate, hcall, hfield]

/-- A comparison symbol is no lone condition. -/
theorem ofToken?_eq_none_of_ofText? {t : Token} {op : Comparison}
    (h : Comparison.ofText? t.text = some op) : ofToken? t = none := by
  rw [show t = ⟨op.symbol⟩ from congrArg Token.mk (Comparison.ofText?_eq_some_iff.mp h)]
  cases op <;> decide

/-- A lone condition is no structure. -/
theorem structural?_eq_none_of_spelled {t : Token} {a : Atom} (h : Spelled [t] a) :
    Segment.structural? t = none := by
  have key : ∃ x s, t.text = x :: s ∧ x.toLower ∉ "()aon".toList := by
    cases h with
    | date hdate =>
      obtain ⟨r, hr⟩ := date_head hdate
      exact ⟨_, r, hr, by decide⟩
    | call hcall =>
      obtain ⟨x, s, hs, hx⟩ := Call.exists_eq_cons_of_whole? hcall
      exact ⟨x, s, hs, Predicate.not_mem_of_mem_initials hx⟩
    | field hfield =>
      obtain ⟨r, hr⟩ := field_head hfield
      exact ⟨_, r, hr, by decide⟩
  obtain ⟨x, s, hs, hx⟩ := key
  rw [show t = ⟨x :: s⟩ from congrArg Token.mk hs]
  exact Segment.structural?_eq_none_of_cons hx

end Atom

end Criteria
