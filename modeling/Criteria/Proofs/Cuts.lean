/-
Where a piece is cut. Keywords and the names of predicates are runs of word characters, and
neither white space nor a parenthesis is a word character. So the run of word characters at the
start of a text decides whether a keyword or a call can be read there, and which one
(`keyword?_eq_some_iff`, `Call.read?_append`).

For each kind of piece there is one lemma that says that the piece is cut off and what may follow
it, and one lemma says where nothing is cut off (`cut?_plain`).
-/
import Criteria.Expr.Printed
import Criteria.Piece
import Criteria.Proofs.Shapes

set_option autoImplicit false

namespace Criteria

/-! ## Characters of words -/

namespace Text

/-- The letters of the literals that are read in any letter case. -/
def isLetter (l : Char) : Bool := 97 ≤ l.toNat && l.toNat ≤ 122

theorem toNat_of_isLetter_toLower {c : Char} (h : isLetter c.toLower = true) :
    (65 ≤ c.toNat ∧ c.toNat ≤ 90) ∨ (97 ≤ c.toNat ∧ c.toNat ≤ 122) := by
  rw [isLetter, Bool.and_eq_true, decide_eq_true_iff, decide_eq_true_iff] at h
  unfold Char.toLower at h
  split at h
  · rename_i hupper
    exact .inl ⟨UInt32.le_iff_toNat_le.mp hupper.1, UInt32.le_iff_toNat_le.mp hupper.2⟩
  · exact .inr h

/-- A letter in either case is part of a word. -/
theorem isWord_of_isLetter_toLower {c : Char} (h : isLetter c.toLower = true) :
    isWord c = true := by
  -- The table starts with the digits and the two cases of the letters.
  obtain ⟨rs, hrs⟩ : ∃ rs, alphanumericRanges = (48, 57) :: (65, 90) :: (97, 122) :: rs := ⟨_, rfl⟩
  rw [isWord, hrs, Ranges.has, Ranges.has, Ranges.has]
  rcases toNat_of_isLetter_toLower h with ⟨hlo, hhi⟩ | ⟨hlo, hhi⟩
  · simp [hhi, Nat.not_lt.mpr hlo, show ¬ c.toNat < 48 by omega]
  · simp [hhi, Nat.not_lt.mpr hlo, show ¬ c.toNat < 48 by omega, show ¬ c.toNat < 65 by omega]

/-- A spelling of a literal that has only letters is a run of word characters. -/
theorem isWord_of_mem {w lit : Text} (hw : lower w = lit) (hlit : lit.all isLetter = true) :
    ∀ c ∈ w, isWord c = true := by
  intro c hc
  refine isWord_of_isLetter_toLower (List.all_eq_true.mp hlit _ ?_)
  rw [← hw]
  exact List.mem_map_of_mem hc

set_option maxRecDepth 8192 in
/-- The two tables have no character in common. -/
theorem isWord_eq_false_of_isBlank {c : Char} (h : isBlank c = true) : isWord c = false := by
  have hne : (c == '_') = false := by
    rw [beq_eq_false_iff_ne]
    rintro rfl
    exact absurd h (by decide)
  have hcodes : ∀ n ∈ blankRanges.codes, alphanumericRanges.has n = false := by decide +kernel
  rw [isWord, hne, Bool.false_or]
  exact hcodes _ (Ranges.mem_codes_of_has (show blankRanges.ascendsFrom 0 by decide) h)

theorem isBlank_eq_false_of_isWord {c : Char} (h : isWord c = true) : isBlank c = false := by
  refine Bool.eq_false_iff.mpr fun hblank => ?_
  rw [isWord_eq_false_of_isBlank hblank] at h
  cases h

theorem isWord_paren (p : Paren) : isWord p.char = false := by cases p <;> decide

theorem isBlank_paren (p : Paren) : isBlank p.char = false := by cases p <;> decide

/-- The longest run of characters that satisfy `p`, and what it leaves. -/
theorem span_append {p : Char → Bool} {w r : Text} (hw : ∀ c ∈ w, p c = true)
    (hr : r.head?.any p = false) :
    (w ++ r).takeWhile p = w ∧ (w ++ r).dropWhile p = r := by
  rw [List.takeWhile_append_of_pos hw, List.dropWhile_append_of_pos hw]
  cases r with
  | nil => simp
  | cons c r =>
    have hc : ¬ p c = true := by
      rw [show p c = false from hr]
      exact Bool.false_ne_true
    rw [List.takeWhile_cons_of_neg hc, List.dropWhile_cons_of_neg hc, List.append_nil]
    exact ⟨rfl, rfl⟩

theorem isBlankText_append {g h : Text} :
    isBlankText (g ++ h) ↔ g.isBlankText ∧ h.isBlankText := by
  rw [isBlankText, List.all_append, Bool.and_eq_true]
  rfl

theorem isBlankText_cons {c : Char} {g : Text} :
    isBlankText (c :: g) ↔ isBlank c = true ∧ g.isBlankText := by
  rw [isBlankText, List.all_cons, Bool.and_eq_true]
  rfl

theorem exists_blank_cons {g : Text} (hne : g ≠ []) (hg : g.isBlankText) :
    ∃ c g', g = c :: g' ∧ isBlank c = true := by
  obtain ⟨c, g', rfl⟩ := List.exists_cons_of_ne_nil hne
  exact ⟨c, g', rfl, (isBlankText_cons.mp hg).1⟩

end Text

/-- If all that a reader of a list finds is `b`, and it finds it somewhere, it finds `b`. -/
theorem findSome?_eq_some_of_forall {α β : Type} {f : α → Option β} {xs : List α} {x : α} {b : β}
    (hx : x ∈ xs) (hb : f x = some b) (h : ∀ y ∈ xs, ∀ b', f y = some b' → b' = b) :
    xs.findSome? f = some b := by
  cases hfound : xs.findSome? f with
  | none =>
    rw [List.findSome?_eq_none_iff.mp hfound x hx] at hb
    cases hb
  | some b' =>
    obtain ⟨y, hy, hb'⟩ := List.exists_of_findSome?_eq_some hfound
    rw [h y hy b' hb']

/-! ## Keywords -/

theorem Connective.isLetter_keyword (c : Connective) : c.keyword.all Text.isLetter = true := by
  cases c <;> rfl

/-- A word of a connective is a run of word characters, and it is not empty. -/
theorem Connective.isWord_of_ofText? {w : Text} {c : Connective} (h : ofText? w = some c) :
    w ≠ [] ∧ ∀ x ∈ w, Text.isWord x = true := by
  have hlower := ofText?_eq_some_iff.mp h
  refine ⟨?_, Text.isWord_of_mem hlower c.isLetter_keyword⟩
  rintro rfl
  cases c <;> exact absurd hlower (by decide)

namespace Piece

theorem readKeyword?_eq_some_iff {s r : Text} {p : Piece} {c : Connective} :
    readKeyword? s c = some (p, r) ↔ ∃ w, p = .keyword c w ∧ s = w ++ r ∧
      Connective.ofText? w = some c ∧ r.head?.any Text.isWord = false := by
  unfold readKeyword?
  constructor
  · intro h
    split at h
    · rename_i w r' hspelled
      obtain ⟨hs, hlower⟩ := Text.spelled?_eq_some_iff.mp hspelled
      split at h
      · cases h
      · rename_i hnext
        obtain ⟨rfl, rfl⟩ := Prod.mk.inj (Option.some.inj h)
        exact ⟨w, rfl, hs, Connective.ofText?_eq_some_iff.mpr hlower, by simpa using hnext⟩
    · cases h
  · rintro ⟨w, rfl, hs, hw, hnext⟩
    rw [Text.spelled?_eq_some_iff.mpr ⟨hs, Connective.ofText?_eq_some_iff.mp hw⟩]
    simp [hnext]

/-- A keyword is cut off where the word that a text starts with is one, as a whole. -/
theorem keyword?_eq_some_iff {prev : Option Char} {s r : Text} {p : Piece} :
    keyword? prev s = some (p, r) ↔ ∃ c w, p = .keyword c w ∧ s = w ++ r ∧
      Connective.ofText? w = some c ∧ prev.any Text.isWord = false ∧
      r.head?.any Text.isWord = false := by
  unfold keyword?
  constructor
  · intro h
    split at h
    · cases h
    · rename_i hprev
      obtain ⟨c, _, hc⟩ := List.exists_of_findSome?_eq_some h
      obtain ⟨w, hp, hs, hw, hnext⟩ := readKeyword?_eq_some_iff.mp hc
      exact ⟨c, w, hp, hs, hw, by simpa using hprev, hnext⟩
  · rintro ⟨c, w, rfl, hs, hw, hprev, hnext⟩
    rw [if_neg (by simp [hprev])]
    refine findSome?_eq_some_of_forall c.mem_all
      (readKeyword?_eq_some_iff.mpr ⟨w, rfl, hs, hw, hnext⟩) ?_
    rintro c' - ⟨p', r'⟩ hc'
    obtain ⟨w', rfl, hs', hw', hnext'⟩ := readKeyword?_eq_some_iff.mp hc'
    -- Both words are the run of word characters at the start.
    obtain ⟨htake, hdrop⟩ := Text.span_append (Connective.isWord_of_ofText? hw).2 hnext
    obtain ⟨htake', hdrop'⟩ := Text.span_append (Connective.isWord_of_ofText? hw').2 hnext'
    rw [← hs] at htake hdrop
    rw [← hs'] at htake' hdrop'
    obtain rfl : w' = w := htake'.symm.trans htake
    obtain rfl : r' = r := hdrop'.symm.trans hdrop
    rw [hw] at hw'
    rw [Option.some.inj hw']

/-- No keyword starts with a character that is not of a word. -/
theorem keyword?_eq_none_of_cons {x : Char} (hx : Text.isWord x = false) (prev : Option Char)
    (s : Text) : keyword? prev (x :: s) = none := by
  refine Option.eq_none_iff_forall_ne_some.mpr fun ⟨p, r⟩ h => ?_
  obtain ⟨c, w, -, hs, hw, -⟩ := keyword?_eq_some_iff.mp h
  obtain ⟨hne, hword⟩ := Connective.isWord_of_ofText? hw
  obtain ⟨y, w', rfl⟩ := List.exists_cons_of_ne_nil hne
  rw [(List.cons.inj hs).1, hword y List.mem_cons_self] at hx
  cases hx

end Piece

/-! ## Calls -/

namespace Text

theorem spelled?_append {lit s w r : Text} (h : spelled? lit s = some (w, r)) (t : Text) :
    spelled? lit (s ++ t) = some (w, r ++ t) := by
  obtain ⟨rfl, hw⟩ := spelled?_eq_some_iff.mp h
  exact spelled?_eq_some_iff.mpr ⟨List.append_assoc w r t, hw⟩

theorem after?_append {lit s r : Text} (h : after? lit s = some r) (t : Text) :
    after? lit (s ++ t) = some (r ++ t) := by
  rw [after?_eq_some_iff.mp h]
  exact after?_eq_some_iff.mpr (List.append_assoc lit r t)

/-- The first occurrence stays the first one when more text follows. -/
theorem before?_append {sep s w r : Text} (h : before? sep s = some (w, r)) (t : Text) :
    before? sep (s ++ t) = some (w, r ++ t) := by
  induction s generalizing w with
  | nil => cases h
  | cons c s ih =>
    rw [List.cons_append, before?]
    cases hafter : after? sep (c :: s) with
    | some r' =>
      rw [before?, hafter] at h
      obtain ⟨rfl, rfl⟩ := Prod.mk.inj (Option.some.inj h)
      rw [← List.cons_append, after?_append hafter]
    | none =>
      have hs := eq_of_before? h
      rw [before?, hafter] at h
      obtain ⟨⟨w', r'⟩, hrec, heq⟩ := Option.map_eq_some_iff.mp h
      obtain ⟨rfl, rfl⟩ := Prod.mk.inj heq
      -- The separator occurs in the text, so it is not too long to be found within it.
      have hnone : after? sep (c :: (s ++ t)) = none := by
        refine Option.eq_none_iff_forall_ne_some.mpr fun r₁ h₁ => ?_
        have hlonger : sep <+: c :: s ++ t := ⟨r₁, (after?_eq_some_iff.mp h₁).symm⟩
        have hlength : sep.length ≤ (c :: s).length := by
          rw [hs, List.length_append, List.length_append]
          omega
        have hprefix := List.prefix_of_prefix_length_le hlonger (List.prefix_append _ _) hlength
        obtain ⟨r₂, h₂⟩ := hprefix
        rw [after?_eq_some_iff.mpr h₂.symm] at hafter
        cases hafter
      rw [hnone, ih hrec]
      rfl

end Text

theorem Predicate.isLetter_name (p : Predicate) : p.name.all Text.isLetter = true := by
  cases p <;> rfl

/-- A call starts with a character of a word. -/
theorem Predicate.isWord_of_mem_initials {x : Char} (h : x.toLower ∈ initials) :
    Text.isWord x = true := by
  have hletters : initials.all Text.isLetter = true := rfl
  exact Text.isWord_of_isLetter_toLower (List.all_eq_true.mp hletters _ h)

theorem Predicate.name_ne_keyword (p : Predicate) (c : Connective) : p.name ≠ c.keyword := by
  cases p <;> cases c <;> decide

theorem Predicate.eq_of_name_eq {p q : Predicate} (h : p.name = q.name) : p = q := by
  revert h
  cases p <;> cases q <;> decide

namespace Call

/-- The text of a call is its name, a parenthesis, and more. -/
theorem exists_text_eq (c : Call) : ∃ s, c.text = c.name ++ '(' :: s := by
  unfold text
  split
  · exact ⟨'[' :: (c.field ++ "],".toList ++ c.argument ++ ")".toList), by simp⟩
  · exact ⟨'[' :: (c.field ++ "])".toList), by simp⟩

theorem readOf?_append {p : Predicate} {s r : Text} {c : Call} (h : readOf? p s = some (c, r))
    (t : Text) : readOf? p (s ++ t) = some (c, r ++ t) := by
  simp only [readOf?, Option.bind_eq_bind, Option.bind_eq_some_iff, Prod.exists] at h
  obtain ⟨name, s₁, hname, s₂, hopen, h⟩ := h
  simp only [readOf?, Option.bind_eq_bind, Text.spelled?_append hname, Option.bind_some,
    Text.after?_append hopen]
  split at h
  · rename_i hvalue
    simp only [Option.bind_eq_some_iff, Prod.exists, Option.some.injEq, Prod.mk.injEq] at h
    obtain ⟨field, s₃, hfield, argument, s₄, hargument, rfl, rfl⟩ := h
    simp only [if_pos hvalue, Text.before?_append hfield, Option.bind_some,
      Text.before?_append hargument]
  · rename_i hvalue
    simp only [Option.bind_eq_some_iff, Prod.exists, Option.some.injEq, Prod.mk.injEq] at h
    obtain ⟨field, s₃, hfield, rfl, rfl⟩ := h
    simp only [if_neg hvalue, Text.before?_append hfield, Option.bind_some]

/-- The run of word characters at the start of a text that a call is read from is its name. -/
theorem takeWhile_of_readOf? {p : Predicate} {s r : Text} {c : Call}
    (h : readOf? p s = some (c, r)) : Text.lower (s.takeWhile Text.isWord) = p.name := by
  obtain ⟨rfl, -, hname⟩ := text_append_of_readOf? h
  obtain ⟨u, hu⟩ := c.exists_text_eq
  rw [hu, List.append_assoc]
  have hspan := Text.span_append (r := '(' :: u ++ r)
    (Text.isWord_of_mem hname p.isLetter_name) (Text.isWord_paren .opening)
  rw [hspan.1, hname]

/-- A call that the reader of its predicate finds is found by no other reader. -/
theorem read?_of_readOf? {p : Predicate} {s r : Text} {c : Call}
    (h : readOf? p s = some (c, r)) : read? s = some (c, r) := by
  refine findSome?_eq_some_of_forall p.mem_all h fun q _ cut hcut => ?_
  obtain ⟨c', r'⟩ := cut
  -- Both readings see the same run of word characters, so it is the same predicate.
  have hname := takeWhile_of_readOf? h
  rw [takeWhile_of_readOf? hcut] at hname
  obtain rfl := Predicate.eq_of_name_eq hname
  rw [h] at hcut
  exact (Option.some.inj hcut).symm

/-- A call that is read from a text is read from every longer text, whatever follows. -/
theorem read?_append {s r : Text} {c : Call} (h : read? s = some (c, r)) (t : Text) :
    read? (s ++ t) = some (c, r ++ t) := by
  obtain ⟨p, _, hread⟩ := List.exists_of_findSome?_eq_some h
  exact read?_of_readOf? (readOf?_append hread t)

end Call

namespace Piece

/-- A predicate is no keyword. -/
theorem keyword?_eq_none_of_read? {s r : Text} {c : Call} (h : Call.read? s = some (c, r))
    (prev : Option Char) : keyword? prev s = none := by
  obtain ⟨p, _, hread⟩ := List.exists_of_findSome?_eq_some h
  refine Option.eq_none_iff_forall_ne_some.mpr fun ⟨q, r'⟩ hcut => ?_
  obtain ⟨k, w, -, hs, hw, -, hnext⟩ := keyword?_eq_some_iff.mp hcut
  have hname := Call.takeWhile_of_readOf? hread
  rw [hs, (Text.span_append (Connective.isWord_of_ofText? hw).2 hnext).1,
    Connective.ofText?_eq_some_iff.mp hw] at hname
  exact p.name_ne_keyword k hname.symm

/-! ## What is cut off -/

theorem cut?_keyword {prev : Option Char} {w s : Text} {c : Connective}
    (hw : Connective.ofText? w = some c) (hprev : prev.any Text.isWord = false)
    (hnext : s.head?.any Text.isWord = false) :
    cut? prev (w ++ s) = some (.keyword c w, s) := by
  rw [cut?, keyword?_eq_some_iff.mpr ⟨c, w, rfl, rfl, hw, hprev, hnext⟩]

theorem paren?_eq_none_of_cons {x : Char} (hx : Paren.ofChar? x = none) (s : Text) :
    paren? (x :: s) = none := by
  rw [paren?, hx]
  rfl

theorem blank?_eq_none_of_cons {x : Char} (hx : Text.isBlank x = false) (s : Text) :
    blank? (x :: s) = none := by
  rw [blank?, if_neg (by simp [hx])]

theorem cut?_paren (prev : Option Char) (p : Paren) (s : Text) :
    cut? prev (p.char :: s) = some (.paren p, s) := by
  rw [cut?, keyword?_eq_none_of_cons (Text.isWord_paren p), paren?,
    Paren.ofChar?_eq_some_iff.mpr rfl]
  rfl

theorem cut?_of_isBlank {x : Char} (hx : Text.isBlank x = true) (prev : Option Char) (s : Text) :
    cut? prev (x :: s) =
      some (.blank (x :: s.takeWhile Text.isBlank), s.dropWhile Text.isBlank) := by
  have hparen : Paren.ofChar? x = none := by
    refine Option.eq_none_iff_forall_ne_some.mpr fun p hp => ?_
    rw [Paren.ofChar?_eq_some_iff.mp hp, Text.isBlank_paren] at hx
    cases hx
  rw [cut?, keyword?_eq_none_of_cons (Text.isWord_eq_false_of_isBlank hx),
    paren?_eq_none_of_cons hparen, blank?, if_pos hx]

/-- White space is cut off up to where it ends. -/
theorem cut?_blank (prev : Option Char) {gap s : Text} (hne : gap ≠ []) (hgap : gap.isBlankText)
    (hs : s.head?.any Text.isBlank = false) : cut? prev (gap ++ s) = some (.blank gap, s) := by
  obtain ⟨x, gap, rfl⟩ := List.exists_cons_of_ne_nil hne
  rw [Text.isBlankText, List.all_cons, Bool.and_eq_true, List.all_eq_true] at hgap
  obtain ⟨htake, hdrop⟩ := Text.span_append hgap.2 hs
  rw [List.cons_append, cut?_of_isBlank hgap.1, htake, hdrop]

/-- A call is cut off wherever one can be read. -/
theorem cut?_of_read? (prev : Option Char) {s r : Text} {c : Call}
    (h : Call.read? s = some (c, r)) : cut? prev s = some (.call c, r) := by
  obtain ⟨x, s', hs, hx⟩ := Call.exists_eq_cons_of_read? h
  have hword := Predicate.isWord_of_mem_initials hx
  have hparen : Paren.ofChar? x = none := by
    refine Option.eq_none_iff_forall_ne_some.mpr fun p hp => ?_
    rw [Paren.ofChar?_eq_some_iff.mp hp, Text.isWord_paren] at hword
    cases hword
  rw [cut?, keyword?_eq_none_of_read? h, hs, paren?_eq_none_of_cons hparen,
    blank?_eq_none_of_cons (Text.isBlank_eq_false_of_isWord hword), ← hs, call?, h]
  rfl

/-- A whole call is cut off whatever follows. -/
theorem cut?_call (prev : Option Char) {s : Text} {c : Call} (h : Call.whole? s = some c)
    (t : Text) : cut? prev (s ++ t) = some (.call c, t) :=
  cut?_of_read? prev (Call.read?_append (Call.whole?_eq_some_iff.mp h) t)

/-! ## What is not cut off -/

/-- Where plain text may end: before white space, before a closing parenthesis, and at the end. -/
def Ends (r : Text) : Prop := ∀ x ∈ r.head?, Text.isBlank x = true ∨ x = Paren.closing.char

theorem Ends.isWord_eq_false {x : Char} {r : Text} (h : Ends (x :: r)) :
    Text.isWord x = false := by
  rcases h x rfl with hblank | rfl
  · exact Text.isWord_eq_false_of_isBlank hblank
  · exact Text.isWord_paren .closing

/-- A run of word characters that a plain text and more starts with ends in the plain text. -/
theorem Ends.exists_append {w y s r : Text} (hr : Ends r) (hw : ∀ x ∈ w, Text.isWord x = true)
    (h : y ++ r = w ++ s) : ∃ b, y = w ++ b ∧ s = b ++ r := by
  rcases List.append_eq_append_iff.mp h with ⟨b, rfl, hb⟩ | ⟨b, hb, hs⟩
  · cases b with
    | nil => exact ⟨[], by simp, by simpa using hb.symm⟩
    | cons x b =>
      rw [hb, List.cons_append] at hr
      have := hw x (by simp)
      rw [hr.isWord_eq_false] at this
      cases this
  · exact ⟨b, hb, hs⟩

/-- **Nothing is cut out of plain text**, neither at its start nor further on. Here `a` is the
part of the text that stands before `prev` and up to it. -/
theorem cut?_plain {prev : Option Char} {a y r : Text} (h : Text.Plain (a ++ y)) (hy : y ≠ [])
    (hprev : a.getLast?.any Text.isWord = true → prev.any Text.isWord = true) (hr : Ends r) :
    cut? prev (y ++ r) = none := by
  have hkeyword : keyword? prev (y ++ r) = none := by
    refine Option.eq_none_iff_forall_ne_some.mpr fun ⟨p, s⟩ hcut => ?_
    obtain ⟨c, w, -, hs, hw, hstart, hnext⟩ := keyword?_eq_some_iff.mp hcut
    obtain ⟨b, rfl, rfl⟩ := hr.exists_append (Connective.isWord_of_ofText? hw).2 hs
    rcases h.not_keyword a w b (by rw [List.append_assoc]) (by rw [hw]; rfl) with hlast | hhead
    · rw [hprev hlast] at hstart
      cases hstart
    · cases b with
      | nil => cases hhead
      | cons x b =>
        rw [List.cons_append, List.head?_cons] at hnext
        rw [List.head?_cons, hnext] at hhead
        cases hhead
  have hcall : call? (y ++ r) = none := by
    refine Option.map_eq_none_iff.mpr (Option.eq_none_iff_forall_ne_some.mpr fun ⟨c, s⟩ hread => ?_)
    obtain ⟨p, _, hp⟩ := List.exists_of_findSome?_eq_some hread
    obtain ⟨hs, -, hname⟩ := Call.text_append_of_readOf? hp
    obtain ⟨u, hu⟩ := c.exists_text_eq
    rw [hu, List.append_assoc] at hs
    obtain ⟨b, rfl, hb⟩ :=
      hr.exists_append (Text.isWord_of_mem hname p.isLetter_name) hs
    -- The parenthesis of the call is neither in the plain text nor right behind it.
    cases b with
    | nil =>
      rw [List.nil_append] at hb
      rw [← hb] at hr
      rcases hr '(' rfl with hblank | hparen
      · exact absurd hblank (by decide)
      · exact absurd hparen (by decide)
    | cons x b =>
      obtain rfl := (List.cons.inj hb).1
      have := h.not_paren '(' (by simp)
      exact absurd this (by decide)
  obtain ⟨x, y, rfl⟩ := List.exists_cons_of_ne_nil hy
  have hmem : x ∈ a ++ x :: y := by simp
  rw [cut?, hkeyword, List.cons_append, paren?_eq_none_of_cons (h.not_paren x hmem),
    blank?_eq_none_of_cons (h.not_blank x hmem), ← List.cons_append, hcall]

end Piece

end Criteria
