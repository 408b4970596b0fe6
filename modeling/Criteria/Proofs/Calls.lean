/-
A call is read exactly where the text of a call stands. What the text of a call may be is said here
without its reader: the name is spelled in any letter case, and the field and the argument hold
nothing that would end them (`Call.WellFormed`). Reading and writing are then inverse to each other
(`Call.read?_eq_some_iff`).

A field that ends where it should ends at the first `]` that is followed by `)` or `,`. The reader of
a predicate looks for one of these two ends only, the one that its own form asks for, and passes by
the other. So in `contains([A]) and startswith([B], 'x')`, which starts with no call, it finds a call
with the field `A]) and startswith([B`. Where the field holds no end of the other form, and only
there, it is what it should be (`Call.delimited_of_recognized`).
-/
import Criteria.Proofs.Pieces

set_option autoImplicit false

namespace Criteria

/-! ## First occurrences -/

namespace Text

/-- A text is split at a separator where the separator occurs first. -/
theorem before?_eq_some_iff {sep s w r : Text} (hsep : sep ≠ []) :
    before? sep s = some (w, r) ↔
      s = w ++ sep ++ r ∧ ∀ u, u ++ sep <+: s → w.length ≤ u.length := by
  induction s generalizing w with
  | nil =>
    constructor
    · intro h
      cases h
    · rintro ⟨hs, -⟩
      exact absurd (List.append_eq_nil_iff.mp (List.append_eq_nil_iff.mp hs.symm).1).2 hsep
  | cons c s ih =>
    rw [before?]
    cases hafter : after? sep (c :: s) with
    | some r' =>
      have hs := after?_eq_some_iff.mp hafter
      constructor
      · intro h
        obtain ⟨rfl, rfl⟩ := Prod.mk.inj (Option.some.inj h)
        exact ⟨hs, fun u _ => Nat.zero_le _⟩
      · rintro ⟨hw, hfirst⟩
        -- It occurs at the very start, so nothing stands before its first occurrence.
        have hlength := hfirst [] ⟨r', hs.symm⟩
        obtain rfl : w = [] := List.eq_nil_of_length_eq_zero (Nat.le_zero.mp hlength)
        rw [hs, List.nil_append] at hw
        rw [List.append_cancel_left hw]
    | none =>
      have hstart : ∀ r', c :: s ≠ sep ++ r' := by
        intro r' hs
        rw [after?_eq_some_iff.mpr hs] at hafter
        cases hafter
      constructor
      · intro h
        obtain ⟨⟨w', r'⟩, hrec, heq⟩ := Option.map_eq_some_iff.mp h
        obtain ⟨rfl, rfl⟩ := Prod.mk.inj heq
        obtain ⟨rfl, hfirst⟩ := ih.mp hrec
        refine ⟨rfl, fun u hu => ?_⟩
        cases u with
        | nil =>
          obtain ⟨v, hv⟩ := hu
          exact absurd hv.symm (hstart v)
        | cons d u =>
          rw [List.cons_append, List.cons_prefix_cons] at hu
          exact Nat.succ_le_succ (hfirst u hu.2)
      · rintro ⟨hs, hfirst⟩
        cases w with
        | nil => exact absurd hs (hstart r)
        | cons d w =>
          obtain ⟨rfl, hrest⟩ := List.cons.inj hs
          have hrec : before? sep s = some (w, r) := by
            refine ih.mpr ⟨hrest, fun u hu => ?_⟩
            have hlonger := hfirst (c :: u) (List.cons_prefix_cons.mpr ⟨rfl, hu⟩)
            exact Nat.le_of_succ_le_succ hlonger
          simp only [hrec, Option.map_some]

/-- Before two characters of which the first is `a`, the pair `ab` stands nowhere exactly if it is
not inside what stands before them: across the border it would need `b` to be `a`. -/
theorem forall_length_le_iff {a b : Char} (hab : a ≠ b) (w r : Text) (b' : Char) :
    (∀ u, u ++ [a, b] <+: w ++ a :: b' :: r → w.length ≤ u.length) ↔ ¬ [a, b] <:+: w := by
  constructor
  · rintro h ⟨x, y, rfl⟩
    have hlength := h x (by simp)
    rw [List.length_append, List.length_append, List.length_cons] at hlength
    omega
  · intro h u hu
    by_contra hlt
    rw [Nat.not_le] at hlt
    have hprefix : u <+: w := List.prefix_of_prefix_length_le
      ((List.prefix_append u [a, b]).trans hu) (List.prefix_append w _) (Nat.le_of_lt hlt)
    obtain ⟨z, rfl⟩ := hprefix
    rw [List.append_assoc, List.prefix_append_right_inj] at hu
    obtain ⟨v, hv⟩ := hu
    match z with
    | [] => simp at hlt
    | [x] =>
      have hb := (List.cons.inj hv).2
      exact hab (List.cons.inj hb).1.symm
    | x :: y :: z =>
      have hb := (List.cons.inj hv).2
      refine h ⟨u, z, ?_⟩
      rw [(List.cons.inj hv).1, (List.cons.inj hb).1, List.append_assoc]
      rfl

/-- Splitting at a pair of two characters: the pair is not inside what stands before it. -/
theorem before?_pair_iff {a b : Char} (hab : a ≠ b) {s w r : Text} :
    before? [a, b] s = some (w, r) ↔ s = w ++ [a, b] ++ r ∧ ¬ [a, b] <:+: w := by
  rw [before?_eq_some_iff (List.cons_ne_nil a [b])]
  refine and_congr_right fun hs => ?_
  rw [hs, List.append_assoc]
  exact forall_length_le_iff hab w r b

/-- Splitting at a character: it is not in what stands before it. -/
theorem before?_singleton_iff {a : Char} {s w r : Text} :
    before? [a] s = some (w, r) ↔ s = w ++ [a] ++ r ∧ a ∉ w := by
  rw [before?_eq_some_iff (List.cons_ne_nil a [])]
  refine and_congr_right fun hs => ?_
  constructor
  · intro h hmem
    obtain ⟨x, y, rfl⟩ := List.append_of_mem hmem
    have hlength := h x (by simp [hs])
    rw [List.length_append, List.length_cons] at hlength
    omega
  · intro h u hu
    by_contra hlt
    rw [Nat.not_le] at hlt
    rw [hs, List.append_assoc] at hu
    have hpre : u ++ [a] <+: w := List.prefix_of_prefix_length_le hu (List.prefix_append w _)
      (by rw [List.length_append, List.length_singleton]; omega)
    exact h (hpre.subset (by simp))

end Text

/-! ## Calls as they are written -/

/-- What ends the field of a call: a comma has to follow where the predicate takes a value. -/
def Predicate.fieldEnd (p : Predicate) : Text :=
  if p.takesValue then "],".toList else "])".toList

/-- What ends the field of a call of the other form. -/
def Predicate.otherEnd (p : Predicate) : Text :=
  if p.takesValue then "])".toList else "],".toList

namespace Call

/-- The ends of fields: a bracket that is followed by a parenthesis or by a comma. -/
def fieldEnds : List Text := ["])".toList, "],".toList]

theorem fieldEnds_eq (p : Predicate) (e : Text) :
    e ∈ fieldEnds ↔ e = p.fieldEnd ∨ e = p.otherEnd := by
  rw [fieldEnds, Predicate.fieldEnd, Predicate.otherEnd, List.mem_pair]
  split
  · exact or_comm
  · rfl

/-- A call as it may be written: its name spells the predicate, its field does not hold what ends
it, and its argument, if the predicate takes a value, does not hold what ends the call. -/
structure WellFormed (c : Call) : Prop where
  name : c.name.lower = c.predicate.name
  field : ¬ c.predicate.fieldEnd <:+: c.field
  argument : if c.predicate.takesValue then ')' ∉ c.argument else c.argument = []

/-- The text of a call goes on behind its field with the end of the field. -/
theorem exists_text_eq_field (c : Call) :
    ∃ rest, c.text = c.name ++ "([".toList ++ (c.field ++ c.predicate.fieldEnd ++ rest) := by
  unfold text Predicate.fieldEnd
  split
  · exact ⟨c.argument ++ ")".toList, by simp⟩
  · exact ⟨[], by simp⟩

/-- The reader of a predicate finds the well-formed calls of that predicate where they stand. -/
theorem readOf?_eq_some_iff {p : Predicate} {s r : Text} {c : Call} :
    readOf? p s = some (c, r) ↔ c.predicate = p ∧ c.WellFormed ∧ s = c.text ++ r := by
  have hcomma : ∀ {s w r : Text}, Text.before? "],".toList s = some (w, r) ↔
      s = w ++ "],".toList ++ r ∧ ¬ "],".toList <:+: w := Text.before?_pair_iff (by decide)
  have hparen : ∀ {s w r : Text}, Text.before? "])".toList s = some (w, r) ↔
      s = w ++ "])".toList ++ r ∧ ¬ "])".toList <:+: w := Text.before?_pair_iff (by decide)
  have hclose : ∀ {s w r : Text}, Text.before? ")".toList s = some (w, r) ↔
      s = w ++ ")".toList ++ r ∧ ')' ∉ w := Text.before?_singleton_iff
  constructor
  · intro h
    obtain ⟨hs, hp, hname⟩ := text_append_of_readOf? h
    refine ⟨hp, ?_, hs⟩
    simp only [readOf?, Option.bind_eq_bind, Option.bind_eq_some_iff, Prod.exists] at h
    obtain ⟨name, s₁, -, s₂, -, h⟩ := h
    split at h
    · rename_i hvalue
      simp only [Option.bind_eq_some_iff, Prod.exists, Option.some.injEq, Prod.mk.injEq] at h
      obtain ⟨field, s₃, hfield, argument, s₄, hargument, rfl, rfl⟩ := h
      refine ⟨hname, ?_, ?_⟩
      · rw [Predicate.fieldEnd, if_pos hvalue]
        exact (hcomma.mp hfield).2
      · rw [if_pos hvalue]
        exact (hclose.mp hargument).2
    · rename_i hvalue
      simp only [Option.bind_eq_some_iff, Prod.exists, Option.some.injEq, Prod.mk.injEq] at h
      obtain ⟨field, s₃, hfield, rfl, rfl⟩ := h
      refine ⟨hname, ?_, ?_⟩
      · rw [Predicate.fieldEnd, if_neg hvalue]
        exact (hparen.mp hfield).2
      · rw [if_neg hvalue]
  · rintro ⟨rfl, ⟨hname, hfield, hargument⟩, rfl⟩
    obtain ⟨p, name, field, argument⟩ := c
    have hspelled : ∀ t : Text, Text.spelled? p.name (name ++ t) = some (name, t) :=
      fun t => Text.spelled?_eq_some_iff.mpr ⟨rfl, hname⟩
    have hopen : ∀ t : Text, Text.after? "([".toList ("([".toList ++ t) = some t :=
      fun t => Text.after?_eq_some_iff.mpr rfl
    rw [Predicate.fieldEnd] at hfield
    by_cases hvalue : p.takesValue = true
    · rw [if_pos hvalue] at hfield hargument
      have htext : text ⟨p, name, field, argument⟩ ++ r = name ++ ("([".toList ++
          (field ++ "],".toList ++ (argument ++ ")".toList ++ r))) := by
        rw [text, if_pos hvalue]
        simp
      rw [htext, readOf?]
      simp only [hspelled, hopen, hvalue, if_true, hcomma.mpr ⟨rfl, hfield⟩,
        hclose.mpr ⟨rfl, hargument⟩, Option.bind_eq_bind, Option.bind_some]
    · rw [if_neg hvalue] at hfield hargument
      obtain rfl : argument = [] := hargument
      have htext : text ⟨p, name, field, []⟩ ++ r = name ++ ("([".toList ++
          (field ++ "])".toList ++ r)) := by
        rw [text, if_neg hvalue]
        simp
      rw [htext, readOf?]
      simp only [hspelled, hopen, hvalue, Bool.false_eq_true, if_false, hparen.mpr ⟨rfl, hfield⟩,
        Option.bind_eq_bind, Option.bind_some]

/-- **Reading is the inverse of writing.** A call is read exactly where its text stands, and every
well-formed call is read. -/
theorem read?_eq_some_iff {s r : Text} {c : Call} :
    read? s = some (c, r) ↔ c.WellFormed ∧ s = c.text ++ r := by
  constructor
  · intro h
    obtain ⟨p, _, hp⟩ := List.exists_of_findSome?_eq_some h
    exact (readOf?_eq_some_iff.mp hp).2
  · intro h
    exact read?_of_readOf? (readOf?_eq_some_iff.mpr ⟨rfl, h⟩)

/-! ## Where fields end -/

end Call

/-- `UpTo ends w s`: the text `w` is what stands in `s` before the first of `ends`. -/
def Text.UpTo (ends : List Text) (w s : Text) : Prop :=
  (∃ e ∈ ends, w ++ e <+: s) ∧ ∀ e ∈ ends, ∀ u, u ++ e <+: s → w.length ≤ u.length

namespace Call

/-- `c.FieldUpTo ends s`: the call `c` stands at the start of `s`, and its field is what stands
behind `([` before the first of `ends`. -/
def FieldUpTo (ends : List Text) (c : Call) (s : Text) : Prop :=
  ∃ t, s = c.name ++ "([".toList ++ t ∧ Text.UpTo ends c.field t

/-- Where a call stands, its field goes up to the first of some ends, among which its own end is,
exactly if it holds none of them. -/
theorem fieldUpTo_iff {c : Call} {s r : Text} (hs : s = c.text ++ r) {ends : List Text}
    (hown : c.predicate.fieldEnd ∈ ends) (hends : ∀ e ∈ ends, e ∈ fieldEnds) :
    c.FieldUpTo ends s ↔ ∀ e ∈ ends, ¬ e <:+: c.field := by
  obtain ⟨rest, htext⟩ := c.exists_text_eq_field
  obtain ⟨b, hb⟩ : ∃ b, c.predicate.fieldEnd = [']', b] := by
    unfold Predicate.fieldEnd
    split
    · exact ⟨',', rfl⟩
    · exact ⟨')', rfl⟩
  have hbehind : s = c.name ++ "([".toList ++ (c.field ++ ']' :: b :: (rest ++ r)) := by
    rw [hs, htext, hb]
    simp
  have hfirst : (∀ e ∈ ends, ∀ u, u ++ e <+: c.field ++ ']' :: b :: (rest ++ r) →
      c.field.length ≤ u.length) ↔ ∀ e ∈ ends, ¬ e <:+: c.field := by
    refine forall₂_congr fun e he => ?_
    rcases List.mem_pair.mp (hends e he) with rfl | rfl
    · exact Text.forall_length_le_iff (by decide) _ _ _
    · exact Text.forall_length_le_iff (by decide) _ _ _
  constructor
  · rintro ⟨t, ht, -, hlength⟩
    obtain rfl := List.append_cancel_left (hbehind.symm.trans ht)
    exact hfirst.mp hlength
  · intro h
    refine ⟨_, hbehind, ⟨_, hown, rest ++ r, ?_⟩, hfirst.mpr h⟩
    rw [hb, List.append_assoc]
    rfl

/-- What is true of the field of a call that is recognized at the start of a text. -/
structure Delimited (c : Call) (s : Text) : Prop where
  /-- The field goes up to the first end of its own form. -/
  own_end : c.FieldUpTo [c.predicate.fieldEnd] s
  /-- To go up to the first `]` that is followed by `)` or `,` is to hold no such place. -/
  first_end_iff : c.FieldUpTo fieldEnds s ↔ ∀ e ∈ fieldEnds, ¬ e <:+: c.field
  /-- It does so exactly if it holds no end of the other form. -/
  first_end_iff_other : c.FieldUpTo fieldEnds s ↔ ¬ c.predicate.otherEnd <:+: c.field
  /-- And then there is no other call inside it. -/
  not_call : c.FieldUpTo fieldEnds s → ∀ k : Call, ¬ k.text <:+: c.field

theorem Delimited.of_read? {c : Call} {s r : Text} (h : read? s = some (c, r)) :
    c.Delimited s := by
  obtain ⟨hformed, hs⟩ := read?_eq_some_iff.mp h
  have hown : c.predicate.fieldEnd ∈ fieldEnds := (fieldEnds_eq c.predicate _).mpr (.inl rfl)
  have hfirst := fieldUpTo_iff hs hown fun e he => he
  refine ⟨?_, hfirst, ?_, fun hfield k hk => ?_⟩
  · refine (fieldUpTo_iff hs (List.mem_singleton.mpr rfl) ?_).mpr ?_
    · exact List.forall_mem_singleton.mpr hown
    · exact List.forall_mem_singleton.mpr hformed.field
  · rw [hfirst]
    constructor
    · intro h
      exact h _ ((fieldEnds_eq c.predicate _).mpr (.inr rfl))
    · intro h e he
      rcases (fieldEnds_eq c.predicate e).mp he with rfl | rfl
      · exact hformed.field
      · exact h
  · -- The text of a call holds the end of its own field.
    have hend : k.predicate.fieldEnd <:+: k.text := by
      obtain ⟨rest, htext⟩ := k.exists_text_eq_field
      exact ⟨k.name ++ "([".toList ++ k.field, rest, by rw [htext]; simp⟩
    have hmem : k.predicate.fieldEnd ∈ fieldEnds := (fieldEnds_eq k.predicate _).mpr (.inl rfl)
    exact hfirst.mp hfield _ hmem (hend.trans hk)

end Call

/-- A call among the pieces of a text is read somewhere in it. -/
theorem Piece.Divided.exists_read? {prev : Option Char} {s : Text} {ps : List Piece} {c : Call}
    (h : Divided prev s ps) (hc : .call c ∈ ps) :
    ∃ t r, t <:+ s ∧ Call.read? t = some (c, r) := by
  induction h with
  | nil => cases hc
  | @cut prev s r p ps hcut _ ih =>
    rcases List.mem_cons.mp hc with rfl | hmem
    · cases hcut with
      | call hread => exact ⟨s, r, List.suffix_rfl, hread⟩
    · obtain ⟨t, r', hsuffix, hread⟩ := ih hmem
      have hs := (isCut_of_cut? (cut?_eq_some_iff.mpr hcut)).1
      exact ⟨t, r', hsuffix.trans ⟨p.text, hs.symm⟩, hread⟩
  | @plain prev w r ps _ _ _ _ ih =>
    rcases List.mem_cons.mp hc with hplain | hmem
    · cases hplain
    · obtain ⟨t, r', hsuffix, hread⟩ := ih hmem
      exact ⟨t, r', hsuffix.trans (List.suffix_append w r), hread⟩

namespace Call

/-- **How far the field of a call goes.** Wherever in a text a call is recognized, and so for each
call among the pieces of a text and for a text that is a call as a whole, the field goes up to the
first end that its own form asks for. It goes up to the first `]` that is followed by `)` or `,`
exactly if there is no end of the other form in it. -/
theorem delimited_of_recognized (s : Text) :
    (∀ t c r, t <:+ s → read? t = some (c, r) → c.Delimited t) ∧
    (∀ c, .call c ∈ Piece.divide none s → ∃ t, t <:+ s ∧ c.Delimited t) ∧
    (∀ c, whole? s = some c → c.Delimited s) := by
  refine ⟨fun t c r _ h => .of_read? h, fun c hc => ?_, fun c h => ?_⟩
  · obtain ⟨t, r, hsuffix, hread⟩ := (Piece.divided_divide none s).exists_read? hc
    exact ⟨t, hsuffix, .of_read? hread⟩
  · exact .of_read? (whole?_eq_some_iff.mp h)

/-- In `not isNull([A] or [B, C])` the field has a bracket and a comma, but not next to each other. -/
theorem delimited_of_recognized_brackets : ∃ (c : Call) (t : Text),
    t = "isNull([A] or [B, C])".toList ∧ c.field = "A] or [B, C".toList ∧
    t <:+ "not isNull([A] or [B, C])".toList ∧ read? t = some (c, []) ∧ c.Delimited t ∧
    c.FieldUpTo fieldEnds t := by
  have hsuffix : "isNull([A] or [B, C])".toList <:+ "not isNull([A] or [B, C])".toList :=
    ⟨"not ".toList, rfl⟩
  have hread : read? "isNull([A] or [B, C])".toList =
      some (⟨.isNull, "isNull".toList, "A] or [B, C".toList, []⟩, []) := by decide +kernel
  have hdelimited :=
    (delimited_of_recognized "not isNull([A] or [B, C])".toList).1 _ _ _ hsuffix hread
  exact ⟨_, _, rfl, rfl, hsuffix, hread, hdelimited,
    hdelimited.first_end_iff_other.mpr (by decide +kernel)⟩

/-- `contains([A])` is no call, for it lacks a value. With a call behind it, the two and the
connective between them are read as one call, whose field goes on behind the first `])`. -/
theorem field_beyond_first_end : ∃ c : Call,
    c.field = "A]) and startswith([B".toList ∧
    whole? "contains([A])".toList = none ∧
    whole? "contains([A]) and startswith([B], 'x')".toList = some c ∧
    Token.ofText "contains([A]) and startswith([B], 'x')".toList =
      [⟨"contains([A]) and startswith([B], 'x')".toList⟩] ∧
    "])".toList <:+: c.field ∧
    ¬ c.FieldUpTo fieldEnds "contains([A]) and startswith([B], 'x')".toList := by
  have hwhole : whole? "contains([A]) and startswith([B], 'x')".toList = some ⟨.contains,
      "contains".toList, "A]) and startswith([B".toList, " 'x'".toList⟩ := by decide +kernel
  have hinside : "])".toList <:+: "A]) and startswith([B".toList :=
    ⟨['A'], " and startswith([B".toList, rfl⟩
  have hdelimited := Delimited.of_read? (whole?_eq_some_iff.mp hwhole)
  refine ⟨_, rfl, by decide +kernel, hwhole, by decide +kernel, hinside, fun hfield => ?_⟩
  exact hdelimited.first_end_iff_other.mp hfield hinside

end Call

end Criteria
