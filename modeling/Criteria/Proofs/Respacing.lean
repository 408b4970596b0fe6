/-
White space outside of calls is free. A text is set anew (`Text.Respaced`) when runs of white space in
it that lie outside of calls give way to other runs, none of them empty, and when white space is put
around parentheses that are tokens and at both ends. What is a call and what is a parenthesis is said
of the old text alone, by the places of its tokens; all changes are made at once.

To compare the two divisions, the changes have to be seen from the pieces. A run that may be changed
lies within a piece of white space, since white space ends where such a piece ends and a call has none
at its ends; and a parenthesis that is a token is a piece. In every other piece no change is possible:
words have neither white space nor parentheses in them, and a call, which may have both, lies within no
other token (`Place.apart`). So the new text is made of the old pieces with other white space between
them, and the tokens stay what they were (`ofText_of_respaced`).
-/
import Criteria.Expr.Parser
import Criteria.Proofs.Loosening
import Criteria.Proofs.Places
import Criteria.Proofs.Spacing

set_option autoImplicit false

namespace Criteria

/-! ## Texts that are set anew -/

namespace Text

/-- `RespacedFrom s a r t` says that `t` is the text `r`, which stands behind `a` in the text `s`, with
other white space. -/
inductive RespacedFrom (s : Text) : Text → Text → Text → Prop where
  /-- At the end there may be any white space. -/
  | nil {a gap : Text} : gap.isBlankText → RespacedFrom s a [] gap
  /-- A character is kept. -/
  | char {a r t : Text} (c : Char) : RespacedFrom s (a ++ [c]) r t →
      RespacedFrom s a (c :: r) (c :: t)
  /-- A run of white space outside of calls gives way to another one. -/
  | run {a gap gap' r t : Text} : gap ≠ [] → gap.isBlankText → Token.OutsideCalls s a gap →
      gap' ≠ [] → gap'.isBlankText → RespacedFrom s (a ++ gap) r t →
      RespacedFrom s a (gap ++ r) (gap' ++ t)
  /-- White space is put before and behind a parenthesis that is a token. -/
  | paren {a before after r t : Text} (p : Paren) :
      ⟨byteSize a, ⟨[p.char]⟩⟩ ∈ Token.places s → before.isBlankText → after.isBlankText →
      RespacedFrom s (a ++ [p.char]) r t →
      RespacedFrom s a (p.char :: r) (before ++ p.char :: (after ++ t))

/-- `Respaced s t` says that `t` is the text `s` with other white space outside of calls: runs of it
give way to other runs, and more of it is put around parentheses and at both ends. -/
def Respaced (s t : Text) : Prop :=
  ∃ gap t', gap.isBlankText ∧ RespacedFrom s [] s t' ∧ t = gap ++ t'

end Text

/-! ## Places apart -/

/-- Of two tokens, the one that is not in an earlier piece is the other one or stands behind all of
it. -/
theorem Place.eq_or_stop_le {q q' : Place} {p p' : Piece} {ps zs us us' : List Piece}
    (hp : p.token? = some q.token) (hp' : p'.token? = some q'.token)
    (hstart : q.start = Text.byteSize (ps.flatMap Piece.text))
    (hstart' : q'.start = Text.byteSize ((ps ++ zs).flatMap Piece.text))
    (hzs : p :: us = zs ++ p' :: us') : q = q' ∨ q.stop ≤ q'.start := by
  cases zs with
  | nil =>
    obtain ⟨rfl, -⟩ := List.cons.inj hzs
    rw [List.append_nil, ← hstart] at hstart'
    obtain ⟨start, token⟩ := q
    obtain ⟨start', token'⟩ := q'
    obtain rfl : token = token' := Option.some.inj (hp.symm.trans hp')
    exact .inl (congrArg (Place.mk · token) hstart'.symm)
  | cons z zs =>
    obtain ⟨rfl, -⟩ := List.cons.inj hzs
    rw [List.flatMap_append, List.flatMap_cons, Piece.text_of_token? hp, Text.byteSize_append,
      Text.byteSize_append] at hstart'
    unfold Place.stop
    exact .inr (by omega)

/-- Two tokens share no byte. -/
theorem Place.apart {s : Text} {q q' : Place} (hq : q ∈ Token.places s) (hq' : q' ∈ Token.places s) :
    q = q' ∨ q.stop ≤ q'.start ∨ q'.stop ≤ q.start := by
  obtain ⟨ps, p, us, hps, hp, hstart⟩ := Token.mem_places_iff.mp hq
  obtain ⟨ps', p', us', hps', hp', hstart'⟩ := Token.mem_places_iff.mp hq'
  rcases List.append_eq_append_iff.mp (hps.symm.trans hps') with ⟨zs, rfl, hzs⟩ | ⟨zs, rfl, hzs⟩
  · exact (Place.eq_or_stop_le hp hp' hstart hstart' hzs).imp_right .inl
  · rcases Place.eq_or_stop_le hp' hp hstart' hstart hzs with heq | hstop
    · exact .inl heq.symm
    · exact .inr (.inr hstop)

namespace Text

/-! ## What is kept and what may change -/

variable {s a r t : Text}

/-- Any part of a text may be kept. -/
theorem RespacedFrom.append_left (w : Text) (h : RespacedFrom s (a ++ w) r t) :
    RespacedFrom s a (w ++ r) (w ++ t) := by
  induction w generalizing a with
  | nil =>
    rw [List.append_nil] at h
    exact h
  | cons c w ih =>
    rw [List.append_cons] at h
    exact .char c (ih h)

/-- White space is only put in or changed. -/
theorem RespacedFrom.loosened (h : RespacedFrom s a r t) : Loosened r t := by
  induction h with
  | nil hgap =>
    have hend := Loosened.nil.blank_append hgap
    rwa [List.append_nil] at hend
  | char c _ ih => exact .char c ih
  | run _ hgap _ hne' hgap' _ ih => exact .gap hgap hne' hgap' ih
  | paren p _ hbefore hafter _ ih => exact .blank_append hbefore (.char _ (.blank_append hafter ih))

/-- A text is kept if no run of white space in it is outside of calls, and no parenthesis in it is a
token. -/
theorem RespacedFrom.kept {w : Text} (h : RespacedFrom s a (w ++ r) t)
    (hkept : ∀ x c y, w = x ++ c :: y →
      (isBlank c = true → ∀ gap, gap ≠ [] → ¬ Token.OutsideCalls s (a ++ x) gap) ∧
      ∀ p, c = Paren.char p → ⟨byteSize (a ++ x), ⟨[p.char]⟩⟩ ∉ Token.places s) :
    ∃ t', t = w ++ t' ∧ RespacedFrom s (a ++ w) r t' := by
  induction w generalizing a t with
  | nil =>
    rw [List.append_nil]
    exact ⟨t, rfl, h⟩
  | cons c w ih =>
    obtain ⟨hblank, hparen⟩ := hkept [] c w rfl
    rw [List.append_nil] at hblank hparen
    generalize hu : c :: w ++ r = u at h
    cases h with
    | nil => cases hu
    | char d h =>
      obtain ⟨rfl, rfl⟩ := List.cons.inj hu
      obtain ⟨t', rfl, ht'⟩ := ih h fun x d y hw => by
        have hspot := hkept (c :: x) d y (by rw [hw, List.cons_append])
        rwa [List.append_cons] at hspot
      rw [List.append_assoc] at ht'
      exact ⟨t', rfl, ht'⟩
    | @run _ gap _ _ _ hne hgap hout _ _ _ =>
      obtain ⟨d, gap, rfl, hd⟩ := exists_blank_cons hne hgap
      obtain rfl : c = d := (List.cons.inj hu).1
      exact absurd hout (hblank hd _ hne)
    | paren p hp _ _ _ => exact absurd hp (hparen p (List.cons.inj hu).1)

/-- White space, up to where it ends, gives way to white space. -/
theorem RespacedFrom.exists_gap {gap : Text} (h : RespacedFrom s a (gap ++ r) t) (hne : gap ≠ [])
    (hgap : gap.isBlankText) (hr : r.head?.any isBlank = false) :
    ∃ gap' t', t = gap' ++ t' ∧ gap' ≠ [] ∧ gap'.isBlankText ∧
      RespacedFrom s (a ++ gap) r t' := by
  generalize hu : gap ++ r = u at h
  induction h generalizing gap with
  | nil => exact absurd (List.append_eq_nil_iff.mp hu).1 hne
  | @char a u t c h ih =>
    obtain ⟨d, gap, rfl⟩ := List.exists_cons_of_ne_nil hne
    obtain ⟨rfl, hrest⟩ := List.cons.inj hu
    obtain ⟨hd, hgap⟩ := isBlankText_cons.mp hgap
    by_cases hend : gap = []
    · obtain rfl : r = u := by rwa [hend] at hrest
      rw [hend]
      exact ⟨[d], t, rfl, List.cons_ne_nil d [], isBlankText_cons.mpr ⟨hd, rfl⟩, h⟩
    · obtain ⟨gap', t', rfl, -, hgap', ht'⟩ := ih hend hgap hrest
      rw [← List.append_cons] at ht'
      exact ⟨d :: gap', t', rfl, List.cons_ne_nil d gap', isBlankText_cons.mpr ⟨hd, hgap'⟩, ht'⟩
  | @run a run run' u t _ hrun _ hne' hrun' h ih =>
    rcases List.append_eq_append_iff.mp hu with ⟨z, rfl, rfl⟩ | ⟨z, rfl, rfl⟩
    · -- The run that gives way does not go on behind the white space.
      cases z with
      | nil =>
        rw [List.append_nil] at h
        exact ⟨run', t, rfl, hne', hrun', h⟩
      | cons d z =>
        have hd := (isBlankText_cons.mp (isBlankText_append.mp hrun).2).1
        rw [List.cons_append, List.head?_cons, Option.any_some, hd] at hr
        cases hr
    · by_cases hend : z = []
      · rw [hend, List.append_nil]
        rw [hend] at h
        exact ⟨run', t, rfl, hne', hrun', h⟩
      · obtain ⟨gap', t', rfl, -, hgap', ht'⟩ := ih hend (isBlankText_append.mp hgap).2 rfl
        rw [List.append_assoc] at ht'
        exact ⟨run' ++ gap', t', by rw [List.append_assoc],
          List.append_ne_nil_of_left_ne_nil hne' gap', isBlankText_append.mpr ⟨hrun', hgap'⟩, ht'⟩
  | paren p =>
    obtain ⟨d, gap, rfl, hd⟩ := exists_blank_cons hne hgap
    rw [(List.cons.inj hu).1, isBlank_paren] at hd
    cases hd

theorem RespacedFrom.exists_paren {p : Paren} (h : RespacedFrom s a (p.char :: r) t) :
    ∃ before after t' : Text, t = before ++ p.char :: (after ++ t') ∧ before.isBlankText ∧
      after.isBlankText ∧ RespacedFrom s (a ++ [p.char]) r t' := by
  generalize hu : p.char :: r = u at h
  cases h with
  | nil => cases hu
  | @char _ _ t c h =>
    obtain ⟨rfl, rfl⟩ := List.cons.inj hu
    exact ⟨[], [], t, rfl, rfl, rfl, h⟩
  | @run _ gap _ _ _ hne hgap _ _ _ _ =>
    obtain ⟨d, gap, rfl, hd⟩ := exists_blank_cons hne hgap
    obtain rfl : p.char = d := (List.cons.inj hu).1
    rw [isBlank_paren] at hd
    cases hd
  | @paren _ before after _ t q _ hbefore hafter h =>
    obtain ⟨hq, rfl⟩ := List.cons.inj hu
    rw [hq]
    exact ⟨before, after, t, rfl, hbefore, hafter, hq ▸ h⟩

end Text

/-! ## The pieces of a text that is set anew -/

/-- Words have neither white space nor parentheses in them. -/
theorem Text.RespacedFrom.kept_word {s a r t w : Text} (h : RespacedFrom s a (w ++ r) t)
    (hw : ∀ c ∈ w, isBlank c = false ∧ Paren.ofChar? c = none) :
    ∃ t', t = w ++ t' ∧ RespacedFrom s (a ++ w) r t' := by
  refine h.kept fun x c y hxy => ?_
  obtain ⟨hblank, hparen⟩ := hw c (by rw [hxy]; exact List.mem_append_right x List.mem_cons_self)
  constructor
  · intro hc
    rw [hblank] at hc
    cases hc
  · rintro p rfl
    rw [Paren.ofChar?_eq_some_iff.mpr rfl] at hparen
    cases hparen

/-- A call is inside no other token, and all that is inside it is inside a call. -/
theorem Text.RespacedFrom.kept_call {s a r t : Text} {k : Call}
    (h : RespacedFrom s a (k.text ++ r) t) (hk : Call.whole? k.text = some k)
    (hplace : ⟨byteSize a, ⟨k.text⟩⟩ ∈ Token.places s) :
    ∃ t', t = k.text ++ t' ∧ RespacedFrom s (a ++ k.text) r t' := by
  refine h.kept fun x c y hxy => ?_
  have hsize := congrArg byteSize hxy
  have hpos := byteSize_pos (List.cons_ne_nil c y)
  rw [byteSize_append] at hsize
  constructor
  · intro _ gap hgap hout
    have hgappos := byteSize_pos hgap
    have hapart := hout _ hplace (by rw [hk]; rfl)
    simp only [Place.stop, byteSize_append] at hapart
    omega
  · rintro p - hparen
    rcases Place.apart hplace hparen with heq | hapart
    · -- A call ends with a parenthesis, but it starts with a letter.
      obtain ⟨d, u, hd, hinitial⟩ := Call.exists_eq_cons_of_whole? hk
      have hword := Predicate.isWord_of_mem_initials hinitial
      have htext : k.text = [p.char] := congrArg (fun q : Place => q.token.text) heq
      rw [htext] at hd
      rw [← (List.cons.inj hd).1, isWord_paren] at hword
      cases hword
    · have hparenpos := byteSize_pos (List.cons_ne_nil p.char [])
      simp only [Place.stop, byteSize_append] at hapart
      omega

/-- **The new text is made of the old pieces.** -/
theorem Text.RespacedFrom.respaced {s t : Text} {ps qs : List Piece}
    (h : RespacedFrom s (ps.flatMap Piece.text) (qs.flatMap Piece.text) t)
    (hdivide : Piece.divide none s = ps ++ qs) :
    ∃ tail, tail.isBlankText ∧ Piece.Respaced tail qs t := by
  induction qs generalizing ps t with
  | nil =>
    generalize hu : ([] : List Piece).flatMap Piece.text = u at h
    cases h with
    | nil hgap => exact ⟨t, hgap, .nil⟩
    | char | paren => cases hu
    | run hne => exact absurd (List.append_eq_nil_iff.mp hu.symm).1 hne
  | cons p qs ih =>
    obtain ⟨prev, u, hrest⟩ : ∃ prev u, Piece.Divided prev u (p :: qs) := by
      have hdivided := Piece.divided_divide none s
      rw [hdivide] at hdivided
      exact ⟨_, _, hdivided.of_append⟩
    have ih : ∀ {t'}, RespacedFrom s (ps.flatMap Piece.text ++ p.text) (qs.flatMap Piece.text) t' →
        ∃ tail, tail.isBlankText ∧ Piece.Respaced tail qs t' := by
      intro t' ht'
      rw [← List.flatMap_singleton Piece.text p, ← List.flatMap_append] at ht'
      exact ih ht' (by rw [hdivide, List.append_assoc, List.singleton_append])
    rw [List.flatMap_cons] at h
    -- A piece that is kept is followed by the old text with other white space.
    have hkeep : (∃ t', t = p.text ++ t' ∧ RespacedFrom s (ps.flatMap Piece.text ++ p.text)
        (qs.flatMap Piece.text) t') → ∃ tail, tail.isBlankText ∧ Piece.Respaced tail (p :: qs) t := by
      rintro ⟨t', rfl, ht'⟩
      obtain ⟨tail, htail, hqs⟩ := ih ht'
      have hloosened := ht'.loosened
      exact ⟨tail, htail,
        .keep (fun y _ _ => Call.isSome_read?_of_loosened (hloosened.append_left y)) hqs⟩
    cases p with
    | blank gap =>
      cases hrest with
      | cut hcut hqs =>
        cases hcut with
        | blank hne hgap hend =>
          rw [← hqs.flatMap_text] at hend
          obtain ⟨gap', t', rfl, hne', hgap', ht'⟩ := h.exists_gap hne hgap hend
          obtain ⟨tail, htail, hqs⟩ := ih ht'
          exact ⟨tail, htail, .blank hne hgap hne' hgap' hqs⟩
    | paren q =>
      obtain ⟨before, after, t', rfl, hbefore, hafter, ht'⟩ := h.exists_paren
      obtain ⟨tail, htail, hqs⟩ := ih ht'
      exact ⟨tail, htail, .paren hbefore hafter hqs⟩
    | call k =>
      refine hkeep (h.kept_call hrest.read?_of_call.1 ?_)
      exact Token.mem_places_iff.mpr ⟨ps, .call k, qs, hdivide, rfl, rfl⟩
    | keyword c w => exact hkeep (h.kept_word hrest.forall_mem_keyword)
    | plain w => exact hkeep (h.kept_word hrest.forall_mem_plain)

namespace Token

/-- **White space outside of calls does not matter.** If a text is set anew, its tokens stay the same
and in the same order, and so they spell the same expression or give the same error. -/
theorem ofText_of_respaced {s t : Text} (h : Text.Respaced s t) :
    ofText t = ofText s ∧ Expr.ofTokens (ofText t) = Expr.ofTokens (ofText s) := by
  obtain ⟨gap, t, hgap, hfrom, rfl⟩ := h
  have hpieces : Text.RespacedFrom s ((([] : List Piece)).flatMap Piece.text)
      ((Piece.divide none s).flatMap Piece.text) t := by
    rw [Piece.flatMap_text_divide]
    exact hfrom
  obtain ⟨tail, htail, hrespaced⟩ := hpieces.respaced rfl
  have hblank : ∀ c ∈ tail.head?, Text.isBlank c = true :=
    fun c hc => List.all_eq_true.mp htail c (List.mem_of_head? hc)
  have htokens : ofText (gap ++ t) = ofText s :=
    calc ofText (gap ++ t)
        = Piece.tokens none t := Piece.tokens_gap_append hgap (fun _ => rfl) t
      _ = ofText s ++ ofText tail := hrespaced.tokens hblank (Piece.divided_divide none s) rfl
      _ = ofText s := by rw [ofText_eq_nil_iff.mpr htail, List.append_nil]
  exact ⟨htokens, by rw [htokens]⟩

/-- In `contains([A])`, which is no call, white space is put inside the parentheses, and the two spaces
that are added in front of `or` are wider than the tab that was there. The space in the field `B C` is
inside a call and stays. -/
theorem ofText_of_respaced_parens : ∃ s t : Text,
    s = "contains([A])\tor(isnull([B C]))".toList ∧
    t = " contains( [A] )\u3000\u2003or\n(isnull([B C]))\n".toList ∧ Text.Respaced s t ∧
    ofText t = ofText s ∧ Expr.ofTokens (ofText t) = Expr.ofTokens (ofText s) ∧
    (ofText t).map (String.ofList ∘ text) =
      ["contains", "(", "[A]", ")", "or", "(", "isnull([B C])", ")"] := by
  have hfrom : Text.RespacedFrom "contains([A])\tor(isnull([B C]))".toList []
      ("contains".toList ++ '(' :: ("[A]".toList ++ ')' :: ("\t".toList ++ ("or".toList ++
        '(' :: ("isnull([B C])".toList ++ [')'])))))
      ("contains".toList ++ ([] ++ '(' :: (" ".toList ++ ("[A]".toList ++ (" ".toList ++ ')' :: ([] ++
        ("\u3000\u2003".toList ++ ("or".toList ++ ("\n".toList ++ '(' :: ([] ++
          ("isnull([B C])".toList ++ ')' :: "\n".toList))))))))))) :=
    .append_left _ <| .paren .opening (by decide +kernel) (by decide) (by decide) <|
      .append_left _ <| .paren .closing (by decide +kernel) (by decide) (by decide) <|
      .run (by decide) (by decide) (by decide +kernel) (by decide) (by decide) <|
      .append_left _ <| .paren .opening (by decide +kernel) (by decide) (by decide) <|
      .append_left _ <| .char ')' <| .nil (by decide)
  have hrespaced : Text.Respaced "contains([A])\tor(isnull([B C]))".toList
      " contains( [A] )\u3000\u2003or\n(isnull([B C]))\n".toList :=
    ⟨" ".toList, _, by decide, hfrom, by decide⟩
  obtain ⟨htokens, hsame⟩ := ofText_of_respaced hrespaced
  exact ⟨_, _, rfl, rfl, hrespaced, htokens, hsame, by decide +kernel⟩

end Token

end Criteria
