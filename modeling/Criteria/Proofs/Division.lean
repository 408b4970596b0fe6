/-
A text that is set from lexemes divides into these lexemes again. The division goes from left to
right and looks at two things outside the piece that it cuts: the character before it, which
decides whether a keyword may start, and what follows, which decides where a word or plain text
ends. White space and parentheses are enough of a boundary on both sides, with one exception. A
plain word right before an opening parenthesis might be the name of a call. So lists of lexemes
are looked at in which an opening parenthesis stands right behind structure only; the grammar
derives no others.
-/
import Criteria.Proofs.Cuts
import Mathlib.Data.List.Chain

set_option autoImplicit false

namespace Criteria

namespace Piece

/-! ## Division piece by piece -/

theorem divide_of_cut? {prev : Option Char} {s r : Text} {p : Piece}
    (h : cut? prev s = some (p, r)) : divide prev s = p :: divide p.text.getLast? r := by
  cases s with
  | nil =>
    obtain ⟨hs, hne⟩ := isCut_of_cut? h
    exact absurd (List.append_eq_nil_iff.mp hs.symm).1 hne
  | cons c s =>
    rw [divide]
    split
    · rename_i p' r' hcut
      rw [h] at hcut
      obtain ⟨rfl, rfl⟩ := Prod.mk.inj (Option.some.inj hcut)
      rfl
    · rename_i hcut
      rw [h] at hcut
      cases hcut

theorem divide_of_cut?_eq_none {prev : Option Char} {c : Char} {s : Text}
    (h : cut? prev (c :: s) = none) : divide prev (c :: s) = prepend c (divide (some c) s) := by
  rw [divide]
  split
  · rename_i hcut
    rw [h] at hcut
    cases hcut
  · rfl

/-- Where plain text ends, no plain text follows that it could be joined to. -/
theorem prepend_divide_of_ends {r : Text} (hr : Ends r) (prev : Option Char) (c : Char) :
    prepend c (divide prev r) = .plain [c] :: divide prev r := by
  cases r with
  | nil =>
    rw [divide]
    rfl
  | cons x r =>
    rcases hr x rfl with hblank | rfl
    · rw [divide_of_cut? (cut?_of_isBlank hblank prev r)]
      rfl
    · rw [divide_of_cut? (cut?_paren prev .closing r)]
      rfl

/-- Plain text stays in one piece. The induction is on what is left of it; `a` is what has been
passed. -/
theorem divide_plain {y r : Text} (hy : y ≠ []) (hr : Ends r) {a : Text}
    (h : Text.Plain (a ++ y)) {prev : Option Char}
    (hprev : a.getLast?.any Text.isWord = true → prev.any Text.isWord = true) :
    divide prev (y ++ r) = .plain y :: divide y.getLast? r := by
  induction y generalizing a prev with
  | nil => exact absurd rfl hy
  | cons x y ih =>
    have hcut : cut? prev (x :: (y ++ r)) = none := cut?_plain h hy hprev hr
    rw [List.cons_append, divide_of_cut?_eq_none hcut]
    cases y with
    | nil => exact prepend_divide_of_ends hr (some x) x
    | cons x' y =>
      have h' : Text.Plain ((a ++ [x]) ++ x' :: y) := by
        rw [List.append_assoc]
        exact h
      rw [ih (List.cons_ne_nil x' y) h' (by simp)]
      rfl

theorem text_of_token? {p : Piece} {t : Token} (h : p.token? = some t) : p.text = t.text := by
  cases p with
  | blank => cases h
  | paren | keyword | call | plain => rw [← Option.some.inj h]

/-- The tokens of a text that stands after `prev`. -/
def tokens (prev : Option Char) (s : Text) : List Token := (divide prev s).filterMap token?

theorem tokens_of_cut? {prev : Option Char} {s r : Text} {p : Piece} {t : Token}
    (h : cut? prev s = some (p, r)) (ht : p.token? = some t) :
    tokens prev s = t :: tokens t.text.getLast? r := by
  rw [tokens, divide_of_cut? h, List.filterMap_cons_some ht, text_of_token? ht, tokens]

/-- White space is skipped, and behind it a keyword may start. -/
theorem tokens_blank_append (prev : Option Char) {gap s : Text} (hne : gap ≠ [])
    (hgap : gap.isBlankText) (hs : s.head?.any Text.isBlank = false) :
    ∃ prev', prev'.any Text.isWord = false ∧ tokens prev (gap ++ s) = tokens prev' s := by
  refine ⟨gap.getLast?, ?_, ?_⟩
  · rw [List.getLast?_eq_some_getLast hne, Option.any_some]
    exact Text.isWord_eq_false_of_isBlank (List.all_eq_true.mp hgap _ (List.getLast_mem hne))
  · rw [tokens, divide_of_cut? (cut?_blank prev hne hgap hs), List.filterMap_cons_none rfl, text,
      tokens]

end Piece

namespace Token

/-! ## Lexemes -/

/-- The shapes of lexemes. -/
inductive Shape : Token → Prop where
  | paren (p : Paren) : Shape ⟨[p.char]⟩
  | keyword {w : Text} {c : Connective} : Connective.ofText? w = some c → Shape ⟨w⟩
  | call {s : Text} {c : Call} : Call.whole? s = some c → Shape ⟨s⟩
  | plain {s : Text} : s.Plain → Shape ⟨s⟩

/-- An opening parenthesis stands right behind structure only. -/
def Opens (t u : Token) : Prop := u.text = [Paren.opening.char] → (Segment.structural? t).isSome

theorem isParen_iff {t : Token} : t.isParen = true ↔ ∃ p, t = ⟨[Paren.char p]⟩ := by
  obtain ⟨s⟩ := t
  rw [isParen, Option.isSome_iff_exists]
  simp only [Paren.ofText?_eq_some_iff, mk.injEq]

/-- A lexeme is not empty and does not start with white space. -/
theorem Shape.exists_cons {t : Token} (h : Shape t) :
    ∃ x s, t.text = x :: s ∧ Text.isBlank x = false := by
  cases h with
  | paren p => exact ⟨p.char, [], rfl, Text.isBlank_paren p⟩
  | @keyword w c hw =>
    obtain ⟨hne, hletters⟩ := Connective.isWord_of_ofText? hw
    obtain ⟨x, w, rfl⟩ := List.exists_cons_of_ne_nil hne
    exact ⟨x, w, rfl, Text.isBlank_eq_false_of_isWord (hletters x List.mem_cons_self)⟩
  | @call s c hs =>
    obtain ⟨x, s, rfl, hx⟩ := Call.exists_eq_cons_of_whole? hs
    exact ⟨x, s, rfl, Text.isBlank_eq_false_of_isWord (Predicate.isWord_of_mem_initials hx)⟩
  | @plain s hs =>
    obtain ⟨x, s, rfl⟩ := List.exists_cons_of_ne_nil hs.ne_nil
    exact ⟨x, s, rfl, hs.not_blank x List.mem_cons_self⟩

/-- What follows a lexeme other than a parenthesis: no character of a word, and if the lexeme is
no structure, something that ends plain text. -/
theorem Spaced.follow {t : Token} {ts : List Token} {s : Text} (h : Spaced (some t) ts s)
    (hopens : ∀ u ∈ ts.head?, Opens t u) (ht : t.isParen = false) :
    s.head?.any Text.isWord = false ∧ (Segment.structural? t = none → Piece.Ends s) := by
  -- White space does for both.
  have hblank : ∀ {gap : Text} (s : Text), gap.isBlankText → gap ≠ [] →
      (gap ++ s).head?.any Text.isWord = false ∧ Piece.Ends (gap ++ s) := by
    intro gap s hgap hne
    obtain ⟨x, gap, rfl, hx⟩ := Text.exists_blank_cons hne hgap
    refine ⟨Text.isWord_eq_false_of_isBlank hx, fun y hy => .inl ?_⟩
    obtain rfl : x = y := by simpa using hy
    exact hx
  cases h with
  | nil hgap =>
    by_cases hne : s = []
    · subst hne
      exact ⟨rfl, fun _ x hx => by cases hx⟩
    · obtain ⟨hword, hends⟩ := hblank [] hgap hne
      rw [List.append_nil] at hword hends
      exact ⟨hword, fun _ => hends⟩
  | @cons prev u us gap s hgap hjoin hs =>
    by_cases hne : gap = []
    · subst hne
      have hu : u.isParen = true := by
        rcases hjoin rfl with hu | hprev
        · exact hu
        · rw [hprev t rfl] at ht
          cases ht
      obtain ⟨p, rfl⟩ := isParen_iff.mp hu
      refine ⟨Text.isWord_paren p, fun hnone x hx => ?_⟩
      obtain rfl : p.char = x := by simpa using hx
      cases p with
      | closing => exact .inr rfl
      | opening =>
        -- Only structure stands right before an opening parenthesis.
        have := hopens _ rfl rfl
        rw [hnone] at this
        cases this
    · obtain ⟨hword, hends⟩ := hblank (u.text ++ s) hgap hne
      exact ⟨hword, fun _ => hends⟩

theorem structural?_of_plain {s : Text} (h : s.Plain) : Segment.structural? ⟨s⟩ = none := by
  refine Segment.structural?_eq_none_iff.mpr ⟨?_, ?_⟩
  · refine Option.eq_none_iff_forall_ne_some.mpr fun p hp => ?_
    have hs : s = [p.char] := Paren.ofText?_eq_some_iff.mp hp
    have hchar := h.not_paren p.char (by simp [hs])
    rw [Paren.ofChar?_eq_some_iff.mpr rfl] at hchar
    cases hchar
  · refine Option.eq_none_iff_forall_ne_some.mpr fun c hc => ?_
    rcases h.not_keyword [] s [] (by simp) (by rw [hc]; rfl) with hlast | hhead
    · cases hlast
    · cases hhead

/-- **A lexeme is cut off as one token**, between any two boundaries. -/
theorem Shape.tokens_append {t : Token} (h : Shape t) {prev : Option Char} {s : Text}
    (hprev : t.isParen = true ∨ prev.any Text.isWord = false)
    (hfollow : t.isParen = false →
      s.head?.any Text.isWord = false ∧ (Segment.structural? t = none → Piece.Ends s)) :
    Piece.tokens prev (t.text ++ s) = t :: Piece.tokens t.text.getLast? s := by
  cases h with
  | paren p => exact Piece.tokens_of_cut? (Piece.cut?_paren prev p s) rfl
  | @keyword w c hw =>
    have hnot : isParen ⟨w⟩ = false := by
      rw [isParen, Paren.ofText?_eq_none_of_connective hw]
      rfl
    rcases hprev with hprev | hprev
    · rw [hnot] at hprev
      cases hprev
    · exact Piece.tokens_of_cut? (Piece.cut?_keyword hw hprev (hfollow hnot).1) rfl
  | @call s' c hs =>
    obtain rfl := Call.text_of_whole? hs
    exact Piece.tokens_of_cut? (Piece.cut?_call prev hs s) rfl
  | @plain s' hs =>
    have hnone := structural?_of_plain hs
    have hnot : isParen ⟨s'⟩ = false := by
      rw [isParen, (Segment.structural?_eq_none_iff.mp hnone).1]
      rfl
    rw [Piece.tokens, Piece.divide_plain hs.ne_nil ((hfollow hnot).2 hnone) (a := []) hs (by simp)]
    rfl

/-- **Lexemes with white space around them are divided into these lexemes again.** -/
theorem tokens_of_spaced {last : Option Token} {ts : List Token} {s : Text}
    (h : Spaced last ts s) (hshape : ∀ t ∈ ts, Shape t) (hopens : ts.IsChain Opens)
    {prev : Option Char}
    (hprev : (∀ p ∈ last, p.isParen = true) → prev.any Text.isWord = false) :
    Piece.tokens prev s = ts := by
  induction h generalizing prev with
  | @nil last gap hgap =>
    by_cases hne : gap = []
    · subst hne
      rw [Piece.tokens, Piece.divide]
      rfl
    · obtain ⟨prev', -, htokens⟩ := Piece.tokens_blank_append prev hne hgap (s := []) rfl
      rw [List.append_nil] at htokens
      rw [htokens, Piece.tokens, Piece.divide]
      rfl
  | @cons last t ts gap s hgap hjoin hs ih =>
    rw [List.forall_mem_cons] at hshape
    rw [List.isChain_cons] at hopens
    -- If the lexeme is a parenthesis, a keyword may start right behind it.
    have hrest : Piece.tokens t.text.getLast? s = ts := by
      refine ih hshape.2 hopens.2 fun hparen => ?_
      obtain ⟨p, rfl⟩ := isParen_iff.mp (hparen t rfl)
      exact Text.isWord_paren p
    have hstep : ∀ {prev}, (t.isParen = true ∨ prev.any Text.isWord = false) →
        Piece.tokens prev (t.text ++ s) = t :: ts := by
      intro prev hprev
      rw [hshape.1.tokens_append hprev (hs.follow hopens.1), hrest]
    by_cases hne : gap = []
    · -- Two lexemes touch, so one of them is a parenthesis.
      rw [hne, List.nil_append]
      exact hstep ((hjoin hne).imp_right hprev)
    · obtain ⟨x, s', hx, hblank⟩ := hshape.1.exists_cons
      have hhead : (t.text ++ s).head?.any Text.isBlank = false := by
        rw [hx]
        exact hblank
      obtain ⟨prev', hprev', htokens⟩ := Piece.tokens_blank_append prev hne hgap hhead
      rw [htokens]
      exact hstep (.inr hprev')

end Token

end Criteria
