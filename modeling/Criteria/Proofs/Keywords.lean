/-
Where connectives come from. A keyword is cut off only where it is a whole word. But a token is a
connective by its text alone, and plain text may spell a keyword too: what is left between two cuts
is not asked whether it is a word.

On the left this makes no difference. Whatever stands before plain text ends with no character of a
word, except for a keyword, and behind a keyword no word goes on. On the right there is one way out:
the name of a call may begin in the middle of a word, so in `andisnull([A])` the call is cut off and
`and` is left. These are all the connectives that are no whole words
(`connective_whole_word_iff`).
-/
import Criteria.Conversion
import Criteria.Proofs.Pieces

set_option autoImplicit false

namespace Criteria

/-! ## Words and white space at the start -/

theorem Connective.isWord_head {w : Text} {c : Connective} (h : ofText? w = some c) (r : Text) :
    (w ++ r).head?.any Text.isWord = true := by
  obtain ⟨hne, hword⟩ := isWord_of_ofText? h
  obtain ⟨x, w, rfl⟩ := List.exists_cons_of_ne_nil hne
  rw [List.cons_append, List.head?_cons, Option.any_some]
  exact hword x List.mem_cons_self

theorem Text.isWord_head_blank {gap : Text} (hne : gap ≠ []) (hgap : gap.isBlankText) (r : Text) :
    (gap ++ r).head?.any isWord = false := by
  obtain ⟨x, gap, rfl, hx⟩ := exists_blank_cons hne hgap
  exact isWord_eq_false_of_isBlank hx

theorem Text.isWord_last_blank {gap : Text} (hne : gap ≠ []) (hgap : gap.isBlankText) :
    gap.getLast?.any isWord = false := by
  rw [List.getLast?_eq_some_getLast hne, Option.any_some]
  exact isWord_eq_false_of_isBlank (List.all_eq_true.mp hgap _ (List.getLast_mem hne))

namespace Piece

/-! ## Borders of cuts -/

variable {prev : Option Char} {s r : Text} {p : Piece} {c : Connective}

/-- A word does not go on across the end of a cut. -/
theorem Cut.border (h : Cut prev s p r) :
    p.text.getLast?.any Text.isWord = false ∨ r.head?.any Text.isWord = false := by
  cases h with
  | keyword _ _ hnext => exact .inr hnext
  | paren q r => exact .inl (Text.isWord_paren q)
  | blank hne hgap _ => exact .inl (Text.isWord_last_blank hne hgap)
  | @call _ _ k _ =>
    left
    rw [text, k.getLast?_text]
    decide

/-- What is cut off where a character of a word stands is a keyword, with no such character before
it, or a call. -/
theorem Cut.of_isWord_head (h : Cut prev s p r) (hs : s.head?.any Text.isWord = true) :
    prev.any Text.isWord = false ∨ ∃ k, Call.read? s = some (k, r) := by
  cases h with
  | keyword _ hprev _ => exact .inl hprev
  | paren q r =>
    rw [List.head?_cons, Option.any_some, Text.isWord_paren] at hs
    cases hs
  | blank hne hgap _ =>
    rw [Text.isWord_head_blank hne hgap] at hs
    cases hs
  | call hread => exact .inr ⟨_, hread⟩

/-- A cut that spells a connective is the keyword. -/
theorem Cut.of_spelled (h : Cut prev s p r) (hc : Connective.ofText? p.text = some c) :
    prev.any Text.isWord = false ∧ r.head?.any Text.isWord = false := by
  obtain ⟨-, hword⟩ := Connective.isWord_of_ofText? hc
  cases h with
  | keyword _ hprev hnext => exact ⟨hprev, hnext⟩
  | paren q r =>
    have hparen := hword q.char List.mem_cons_self
    rw [Text.isWord_paren] at hparen
    cases hparen
  | blank hne hgap _ =>
    have hhead := Connective.isWord_head hc []
    rw [text, Text.isWord_head_blank hne hgap] at hhead
    cases hhead
  | @call _ _ k _ =>
    exact absurd (hword ')' (List.mem_of_getLast? k.getLast?_text)) (by decide)

/-! ## Neighbours of pieces -/

namespace Divided

variable {p₀ : Piece} {ps qs : List Piece}

/-- Behind any of its pieces a division goes on as a division. -/
theorem of_append (h : Divided prev s (ps ++ qs)) :
    Divided ((ps.flatMap text).getLast?.or prev) (qs.flatMap text) qs := by
  induction ps generalizing prev s with
  | nil =>
    rw [List.nil_append] at h
    rw [h.flatMap_text]
    exact h
  | cons p ps ih =>
    have hne := h.text_ne_nil p List.mem_cons_self
    have hrest : ∃ r, Divided p.text.getLast? r (ps ++ qs) := by
      cases h with
      | cut _ hps => exact ⟨_, hps⟩
      | plain _ _ _ hps => exact ⟨_, hps⟩
    obtain ⟨r, hrest⟩ := hrest
    have hlast : ((p :: ps).flatMap text).getLast?.or prev =
        (ps.flatMap text).getLast?.or p.text.getLast? := by
      rw [List.flatMap_cons, List.getLast?_append, Option.or_assoc,
        List.getLast?_eq_some_getLast hne, Option.some_or]
    rw [hlast]
    exact ih hrest

/-- Where a piece spells a connective a word starts. -/
theorem isWord_head (h : Divided prev s (p :: qs)) (hc : Connective.ofText? p.text = some c) :
    s.head?.any Text.isWord = true := by
  rw [← h.flatMap_text, List.flatMap_cons]
  exact Connective.isWord_head hc _

/-- Where a call can be read, the piece is that call. -/
theorem eq_call {k : Call} (h : Divided prev s (p :: qs)) (hread : Call.read? s = some (k, r)) :
    p = .call k := by
  have hcall := cut?_of_read? prev hread
  cases h with
  | cut hcut _ =>
    rw [cut?_eq_some_iff.mpr hcut] at hcall
    exact (Prod.mk.inj (Option.some.inj hcall)).1
  | @plain _ w r ps hw hnone _ _ =>
    have hstart : cut? prev (w ++ r) = none := hnone [] w rfl hw
    rw [hstart] at hcall
    cases hcall

/-- No character of a word stands before a piece that spells a connective, if there is one before
it: plain text and a word behind it would be one piece. -/
theorem last_of_spelled (h : Divided prev s (p₀ :: p :: qs))
    (hc : Connective.ofText? p.text = some c) : p₀.text.getLast?.any Text.isWord = false := by
  cases h with
  | cut hcut hps =>
    rcases hcut.border with hlast | hhead
    · exact hlast
    · rw [hps.isWord_head hc] at hhead
      cases hhead
  | @plain _ w r _ hw _ hnext hps =>
    have hhead := hps.isWord_head hc
    rcases hnext with rfl | ⟨p₁, r', hcut⟩
    · cases hhead
    · rcases hcut.of_isWord_head hhead with hlast | ⟨k, hread⟩
      · exact hlast
      · -- The piece is that call, and so it would be the keyword as well.
        obtain rfl := hps.eq_call hread
        exact ((Cut.call hread).of_spelled hc).1

/-- A word goes on behind a piece that spells a connective exactly where a call can be read. -/
theorem head_after_spelled_iff (h : Divided prev s (p :: qs))
    (hc : Connective.ofText? p.text = some c) :
    (qs.flatMap text).head?.any Text.isWord = false ↔ Call.read? (qs.flatMap text) = none := by
  constructor
  · intro hhead
    refine Option.eq_none_iff_forall_ne_some.mpr fun ⟨k, r⟩ hread => ?_
    obtain ⟨x, s', hs, hx⟩ := Call.exists_eq_cons_of_read? hread
    rw [hs, List.head?_cons, Option.any_some, Predicate.isWord_of_mem_initials hx] at hhead
    cases hhead
  · intro hread
    by_contra hhead
    rw [Bool.not_eq_false] at hhead
    cases h with
    | cut hcut hps =>
      rw [hps.flatMap_text, (hcut.of_spelled hc).2] at hhead
      cases hhead
    | @plain _ w r _ hw _ hnext hps =>
      rw [hps.flatMap_text] at hhead hread
      rcases hnext with rfl | ⟨p₁, r', hcut⟩
      · cases hhead
      · rcases hcut.of_isWord_head hhead with hlast | ⟨k, hcall⟩
        · -- Plain text that spells a connective ends with a character of a word.
          have hword := (Connective.isWord_of_ofText? hc).2 _ (List.getLast_mem hw)
          rw [List.getLast?_eq_some_getLast hw, Option.any_some, hword] at hlast
          cases hlast
        · rw [hcall] at hread
          cases hread

/-- No character of a word stands before a piece that spells a connective. -/
theorem last_before_spelled (h : Divided none s (ps ++ p :: qs))
    (hc : Connective.ofText? p.text = some c) :
    (ps.flatMap text).getLast?.any Text.isWord = false := by
  rcases List.eq_nil_or_concat' ps with rfl | ⟨ps, p₀, rfl⟩
  · rfl
  · have hne := h.text_ne_nil p₀ (by simp)
    rw [List.append_assoc] at h
    have hlast := h.of_append.last_of_spelled hc
    rw [List.flatMap_append, List.flatMap_singleton, List.getLast?_append,
      List.getLast?_eq_some_getLast hne, Option.some_or]
    rwa [List.getLast?_eq_some_getLast hne] at hlast

end Divided

end Piece

/-! ## Connectives are whole words, but for calls -/

namespace Token

/-- **Connectives are whole words, unless a call starts in the middle of the word.** A token that is
a connective is a piece of the text. No character of a word stands before that piece, and none stands
behind it exactly if no call can be read there. -/
theorem connective_whole_word_iff {s : Text} {ts us : List Token} {t : Token} {c : Connective}
    (h : ofText s = ts ++ t :: us) (hc : Connective.ofText? t.text = some c) :
    ∃ ps p qs, Piece.divide none s = ps ++ p :: qs ∧ ps.filterMap Piece.token? = ts ∧
      p.token? = some t ∧ qs.filterMap Piece.token? = us ∧
      s = ps.flatMap Piece.text ++ (t.text ++ qs.flatMap Piece.text) ∧
      (ps.flatMap Piece.text).getLast?.any Text.isWord = false ∧
      ((qs.flatMap Piece.text).head?.any Text.isWord = false ↔
        Call.read? (qs.flatMap Piece.text) = none) := by
  obtain ⟨ps, rest, hdivide, hps, hrest⟩ := List.filterMap_eq_append_iff.mp h
  obtain ⟨gap, p, qs, rfl, hgap, hp, hqs⟩ := List.filterMap_eq_cons_iff.mp hrest
  have htext := Piece.text_of_token? hp
  have hdivided := Piece.divided_divide none s
  rw [hdivide, ← List.append_assoc] at hdivided
  rw [← htext] at hc
  refine ⟨ps ++ gap, p, qs, ?_, ?_, hp, hqs, ?_, hdivided.last_before_spelled hc,
    hdivided.of_append.head_after_spelled_iff hc⟩
  · rw [hdivide, List.append_assoc]
  · rw [List.filterMap_append, hps, List.filterMap_eq_nil_iff.mpr hgap, List.append_nil]
  · have hs := Piece.flatMap_text_divide none s
    rw [hdivide, ← List.append_assoc, List.flatMap_append, List.flatMap_cons, htext] at hs
    exact hs.symm

/-- In `[A]or(isnull([B]))` the connective touches a bracket and a parenthesis. -/
theorem connective_whole_word_touching : ∃ (s : Text) (ts us : List Token) (t : Token),
    s = "[A]or(isnull([B]))".toList ∧ t.text = "or".toList ∧ ofText s = ts ++ t :: us ∧
    Connective.ofText? t.text = some .or ∧
    ∃ ps p qs, Piece.divide none s = ps ++ p :: qs ∧ ps.filterMap Piece.token? = ts ∧
      p.token? = some t ∧ qs.filterMap Piece.token? = us ∧
      s = ps.flatMap Piece.text ++ (t.text ++ qs.flatMap Piece.text) ∧
      (ps.flatMap Piece.text).getLast?.any Text.isWord = false ∧
      ((qs.flatMap Piece.text).head?.any Text.isWord = false ↔
        Call.read? (qs.flatMap Piece.text) = none) := by
  have htokens : ofText "[A]or(isnull([B]))".toList = [⟨"[A]".toList⟩] ++ ⟨"or".toList⟩ ::
      ["(", "isnull([B])", ")"].map (mk ∘ String.toList) := by decide +kernel
  have hor : Connective.ofText? "or".toList = some .or := by decide
  exact ⟨_, _, _, _, rfl, rfl, htokens, hor, connective_whole_word_iff htokens hor⟩

/-- In `[A] andisnull([B])` no word `and` stands, but a connective `and` comes out of it, with the
letter `i` right behind it, and it joins the two conditions. -/
theorem connective_not_whole_word :
    Piece.divide none "[A] andisnull([B])".toList =
      [.plain "[A]".toList, .blank " ".toList, .plain "and".toList,
        .call ⟨.isNull, "isnull".toList, ['B'], []⟩] ∧
    ofText "[A] andisnull([B])".toList =
      ["[A]", "and", "isnull([B])"].map (mk ∘ String.toList) ∧
    Connective.ofText? "and".toList = some .and ∧ Text.isWord 'i' = true ∧
    Expr.ofTokens (ofText "[A] andisnull([B])".toList) =
      .ok (.and (.atom (.field ['A'])) (.atom (.call ⟨.isNull, "isnull".toList, ['B'], []⟩))) := by
  have htokens : ofText "[A] andisnull([B])".toList =
      ["[A]", "and", "isnull([B])"].map (mk ∘ String.toList) := by decide +kernel
  refine ⟨by decide +kernel, htokens, by decide, by decide, ?_⟩
  rw [htokens]
  rfl

end Token

end Criteria
