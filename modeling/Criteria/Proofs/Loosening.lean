/-
More white space makes no call. Whether a call can be read at a place depends on all the text that is
left, since the end of its field and the parenthesis that closes it are looked for across any white
space. So text that is far away may complete a call, and white space that is put in or changed might
bring the one thing that was missing.

It does not. What is looked for are delimiters, and none of them has white space in it. A delimiter in
the new text is made of characters that stood next to each other in the old one, and so it stood there
as well (`Loosened.exists_of_solid`). Between the delimiters anything may stand. Therefore a call that
can be read in the new text could be read at the same place of the old one, though perhaps another one
(`Call.isSome_read?_of_loosened`).
-/
import Criteria.Proofs.Calls

set_option autoImplicit false

namespace Criteria

/-! ## More white space -/

namespace Text

/-- `Loosened s t` says that the text `t` is `s` with white space put in anywhere, or put in the place
of other white space. None is taken out without any in its place. -/
inductive Loosened : Text → Text → Prop where
  | nil : Loosened [] []
  | char (c : Char) {s t : Text} : Loosened s t → Loosened (c :: s) (c :: t)
  | gap {g g' s t : Text} : g.isBlankText → g' ≠ [] → g'.isBlankText → Loosened s t →
      Loosened (g ++ s) (g' ++ t)

namespace Loosened

variable {s t : Text}

theorem append_left (h : Loosened s t) (w : Text) : Loosened (w ++ s) (w ++ t) := by
  induction w with
  | nil => exact h
  | cons c w ih => exact .char c ih

/-- Any white space may be put in front, also none. -/
theorem blank_append {g : Text} (hg : g.isBlankText) (h : Loosened s t) : Loosened s (g ++ t) := by
  by_cases hne : g = []
  · rw [hne]
    exact h
  · exact .gap (g := []) rfl hne hg h

/-- The text may be cut in two wherever its loosened form is. -/
theorem exists_of_append {u : Text} (h : Loosened s (u ++ t)) :
    ∃ v s', s = v ++ s' ∧ Loosened s' t := by
  generalize hw : u ++ t = w at h
  induction h generalizing u with
  | nil =>
    obtain ⟨-, rfl⟩ := List.append_eq_nil_iff.mp hw
    exact ⟨[], [], rfl, .nil⟩
  | @char c s w h ih =>
    cases u with
    | nil =>
      obtain rfl : t = c :: w := hw
      exact ⟨[], c :: s, rfl, .char c h⟩
    | cons d u =>
      obtain ⟨v, s', rfl, hs'⟩ := ih (List.cons.inj hw).2
      exact ⟨c :: v, s', rfl, hs'⟩
  | @gap g g' s w hg hne hg' h ih =>
    rcases List.append_eq_append_iff.mp hw with ⟨a, rfl, rfl⟩ | ⟨a, rfl, rfl⟩
    · -- The cut is inside the new white space, or at its end.
      by_cases ha : a = []
      · rw [ha]
        exact ⟨g, s, rfl, h⟩
      · exact ⟨[], g ++ s, rfl, .gap hg ha (isBlankText_append.mp hg').2 h⟩
    · obtain ⟨v, s', rfl, hs'⟩ := ih rfl
      exact ⟨g ++ v, s', by rw [List.append_assoc], hs'⟩

/-- What has no white space in it was not put together by white space. -/
theorem exists_of_solid {e : Text} (he : ∀ c ∈ e, isBlank c = false) (h : Loosened s (e ++ t)) :
    ∃ s', s = e ++ s' ∧ Loosened s' t := by
  induction e generalizing s with
  | nil => exact ⟨s, rfl, h⟩
  | cons c e ih =>
    rw [List.forall_mem_cons] at he
    generalize hw : c :: e ++ t = w at h
    cases h with
    | nil => cases hw
    | @char d s w h =>
      obtain ⟨rfl, rfl⟩ := List.cons.inj hw
      obtain ⟨s', rfl, hs'⟩ := ih he.2 h
      exact ⟨s', rfl, hs'⟩
    | @gap g g' s w _ hne hg' _ =>
      obtain ⟨d, g', rfl, hd⟩ := exists_blank_cons hne hg'
      obtain rfl : c = d := (List.cons.inj hw).1
      rw [hd] at he
      cases he.1

theorem mem {c : Char} (hc : isBlank c = false) (h : Loosened s t) (hmem : c ∈ t) : c ∈ s := by
  obtain ⟨u, t, rfl⟩ := List.append_of_mem hmem
  obtain ⟨v, s', rfl, hs'⟩ := h.exists_of_append
  obtain ⟨s', rfl, -⟩ := exists_of_solid (e := [c]) (List.forall_mem_singleton.mpr hc) hs'
  exact List.mem_append_right v List.mem_cons_self

end Loosened

/-! ## Delimiters within reach -/

/-- Where a separator stands, a text is split at the latest; so what follows the separator is behind
the place of the split. -/
theorem exists_before?_append {sep : Text} (hsep : sep ≠ []) (u t : Text) :
    ∃ w r, before? sep (u ++ (sep ++ t)) = some (w, r) ∧ t <:+ r := by
  induction u with
  | nil =>
    obtain ⟨c, sep', rfl⟩ := List.exists_cons_of_ne_nil hsep
    have hafter : after? (c :: sep') (c :: (sep' ++ t)) = some t := after?_eq_some_iff.mpr rfl
    refine ⟨[], t, ?_, List.suffix_rfl⟩
    rw [List.nil_append, List.cons_append, before?, hafter]
  | cons c u ih =>
    rw [List.cons_append, before?]
    cases hafter : after? sep (c :: (u ++ (sep ++ t))) with
    | some r =>
      have heq := after?_eq_some_iff.mp hafter
      have hlength := congrArg List.length heq
      simp only [List.length_cons, List.length_append] at hlength
      have htail : t <:+ sep ++ r := by
        rw [← heq]
        exact ⟨c :: u ++ sep, by simp⟩
      exact ⟨[], r, rfl,
        List.suffix_of_suffix_length_le htail (List.suffix_append sep r) (by omega)⟩
    | none =>
      obtain ⟨w, r, hsplit, hr⟩ := ih
      rw [hsplit]
      exact ⟨c :: w, r, rfl, hr⟩

end Text

namespace Call

theorem isBlank_fieldEnd (p : Predicate) : ∀ c ∈ p.fieldEnd, Text.isBlank c = false := by
  have hall : p.fieldEnd.all (fun c => !Text.isBlank c) = true := by cases p <;> decide
  simpa using List.all_eq_true.mp hall

/-- Behind the end of the field of a call with a value there is a closing parenthesis. -/
theorem exists_text_eq_closed (c : Call) : ∃ rest,
    c.text = c.name ++ "([".toList ++ (c.field ++ (c.predicate.fieldEnd ++ rest)) ∧
      (c.predicate.takesValue = true → ')' ∈ rest) := by
  unfold text Predicate.fieldEnd
  split
  · exact ⟨c.argument ++ ")".toList, by simp, fun _ => by simp⟩
  · rename_i hvalue
    exact ⟨[], by simp, fun h => absurd h hvalue⟩

/-- A call can be read where the name of its predicate and an opened bracket stand and, somewhere
behind them, what ends its field, with a closing parenthesis behind that if there is a value. -/
theorem exists_read? {p : Predicate} {n : Text} (hn : n.lower = p.name) (f : Text) {s : Text}
    (hs : p.takesValue = true → ')' ∈ s) :
    ∃ cut, read? (n ++ "([".toList ++ (f ++ (p.fieldEnd ++ s))) = some cut := by
  have hspelled : ∀ t, Text.spelled? p.name (n ++ t) = some (n, t) :=
    fun t => Text.spelled?_eq_some_iff.mpr ⟨rfl, hn⟩
  have hopen : ∀ t, Text.after? "([".toList ("([".toList ++ t) = some t :=
    fun t => Text.after?_eq_some_iff.mpr rfl
  have hread : ∃ cut, readOf? p (n ++ ("([".toList ++ (f ++ (p.fieldEnd ++ s)))) = some cut := by
    unfold readOf? Predicate.fieldEnd
    by_cases hvalue : p.takesValue = true
    · obtain ⟨w, r, hfield, hr⟩ :=
        Text.exists_before?_append (show "],".toList ≠ [] by decide) f s
      obtain ⟨a, b, rfl⟩ := List.append_of_mem (hr.subset (hs hvalue))
      obtain ⟨w', r', hargument, -⟩ :=
        Text.exists_before?_append (show ")".toList ≠ [] by decide) a b
      have hargument : Text.before? ")".toList (a ++ ')' :: b) = some (w', r') := hargument
      simp only [hspelled, hopen, hvalue, if_true, hfield, hargument, Option.bind_eq_bind,
        Option.bind_some]
      exact ⟨_, rfl⟩
    · obtain ⟨w, r, hfield, -⟩ :=
        Text.exists_before?_append (show "])".toList ≠ [] by decide) f s
      simp only [hspelled, hopen, if_neg hvalue, hfield, Option.bind_eq_bind, Option.bind_some]
      exact ⟨_, rfl⟩
  obtain ⟨⟨c, r⟩, hread⟩ := hread
  rw [List.append_assoc]
  exact ⟨(c, r), read?_of_readOf? hread⟩

/-- **White space that is put in brings no call into being.** -/
theorem isSome_read?_of_loosened {s t : Text} (h : Text.Loosened s t)
    (ht : (read? t).isSome) : (read? s).isSome := by
  obtain ⟨⟨c, r⟩, hread⟩ := Option.isSome_iff_exists.mp ht
  obtain ⟨hformed, rfl⟩ := read?_eq_some_iff.mp hread
  obtain ⟨rest, htext, hclosed⟩ := c.exists_text_eq_closed
  have hopen : "([".toList.all (fun x => !Text.isBlank x) = true := by decide
  have hstart : ∀ x ∈ c.name ++ "([".toList, Text.isBlank x = false := by
    refine List.forall_mem_append.mpr ⟨fun x hx => ?_, by simpa using List.all_eq_true.mp hopen⟩
    have hword := Text.isWord_of_mem hformed.name c.predicate.isLetter_name x hx
    exact Text.isBlank_eq_false_of_isWord hword
  rw [htext, List.append_assoc _ _ r, List.append_assoc c.field, List.append_assoc _ rest] at h
  -- Its parts in turn: the start, the field, the end of the field.
  obtain ⟨s₁, rfl, h₁⟩ := Text.Loosened.exists_of_solid hstart h
  obtain ⟨f, s₂, rfl, h₂⟩ := h₁.exists_of_append
  obtain ⟨s₃, rfl, h₃⟩ := Text.Loosened.exists_of_solid (isBlank_fieldEnd c.predicate) h₂
  refine Option.isSome_iff_exists.mpr (exists_read? hformed.name f fun hvalue => ?_)
  exact h₃.mem (by decide) (List.mem_append_left r (hclosed hvalue))

end Call

end Criteria
