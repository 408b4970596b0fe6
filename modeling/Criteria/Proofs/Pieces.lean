/-
The division seen piece by piece. The division itself goes character by character: where nothing
is cut off, the character is put in front of the plain text behind it. So a plain piece is known
only when the rest of the text has been divided, and what makes it plain is a fact about each
place inside it. `Divided` says this in one rule for each kind of piece: a cut is a cut, and plain
text goes on up to the next place where something is cut off. Every division is one in this sense
(`divided_divide`), and what is to be proved of pieces is proved by cases on these rules.

The first result that is proved in this way is that the tokens lose nothing of the text: between
them there is white space, and none of them has white space at its ends.
-/
import Criteria.Proofs.Division

set_option autoImplicit false

namespace Criteria

namespace Piece

/-! ## Cuts -/

/-- `Cut prev s p r` says that the piece `p` stands at the start of the text `s`, which stands
after `prev`, and that it leaves `r`. -/
inductive Cut (prev : Option Char) : Text → Piece → Text → Prop where
  /-- A keyword with no character of a word on either side. -/
  | keyword {c : Connective} {w r : Text} :
      Connective.ofText? w = some c → prev.any Text.isWord = false →
      r.head?.any Text.isWord = false → Cut prev (w ++ r) (.keyword c w) r
  /-- A parenthesis. -/
  | paren (p : Paren) (r : Text) : Cut prev (p.char :: r) (.paren p) r
  /-- All the white space that stands here. -/
  | blank {gap r : Text} :
      gap ≠ [] → gap.isBlankText → r.head?.any Text.isBlank = false →
      Cut prev (gap ++ r) (.blank gap) r
  /-- A call that can be read. -/
  | call {s r : Text} {c : Call} : Call.read? s = some (c, r) → Cut prev s (.call c) r

theorem Cut.of_blank? {prev : Option Char} {s r : Text} {p : Piece}
    (h : blank? s = some (p, r)) : Cut prev s p r := by
  cases s with
  | nil => simp [blank?] at h
  | cons x s =>
    rw [blank?] at h
    split at h
    · rename_i hx
      obtain ⟨rfl, rfl⟩ := Prod.mk.inj (Option.some.inj h)
      have hgap : Text.isBlankText (x :: s.takeWhile Text.isBlank) :=
        Text.isBlankText_cons.mpr ⟨hx, List.all_takeWhile⟩
      have hrest := Text.head?_dropWhile Text.isBlank s
      have hcut : Cut prev _ (.blank _) _ := .blank (List.cons_ne_nil _ _) hgap hrest
      rwa [List.cons_append, List.takeWhile_append_dropWhile] at hcut
    · cases h

/-- A piece is cut off exactly where it stands. -/
theorem cut?_eq_some_iff {prev : Option Char} {s r : Text} {p : Piece} :
    cut? prev s = some (p, r) ↔ Cut prev s p r := by
  constructor
  · intro h
    unfold cut? at h
    split at h
    · rename_i cut hkeyword
      obtain rfl := Option.some.inj h
      obtain ⟨c, w, rfl, rfl, hw, hprev, hnext⟩ := keyword?_eq_some_iff.mp hkeyword
      exact .keyword hw hprev hnext
    · split at h
      · rename_i cut hparen
        obtain rfl := Option.some.inj h
        cases s with
        | nil => cases hparen
        | cons x s =>
          obtain ⟨q, hq, heq⟩ := Option.map_eq_some_iff.mp hparen
          obtain ⟨rfl, rfl⟩ := Prod.mk.inj heq
          rw [Paren.ofChar?_eq_some_iff.mp hq]
          exact .paren q s
      · split at h
        · rename_i cut hblank
          obtain rfl := Option.some.inj h
          exact .of_blank? hblank
        · obtain ⟨⟨c, r'⟩, hread, heq⟩ := Option.map_eq_some_iff.mp h
          obtain ⟨rfl, rfl⟩ := Prod.mk.inj heq
          exact .call hread
  · intro h
    cases h with
    | keyword hw hprev hnext => exact cut?_keyword hw hprev hnext
    | paren q r => exact cut?_paren prev q r
    | blank hne hgap hr => exact cut?_blank prev hne hgap hr
    | call hread => exact cut?_of_read? prev hread

/-! ## Divisions -/

/-- `Divided prev s ps` says that the text `s`, which stands after `prev`, is the pieces `ps`: each
of them is cut off where it starts, or it is plain text, in which nothing is cut off, up to the end
or to the next cut. -/
inductive Divided : Option Char → Text → List Piece → Prop where
  | nil {prev : Option Char} : Divided prev [] []
  | cut {prev : Option Char} {s r : Text} {p : Piece} {ps : List Piece} :
      Cut prev s p r → Divided p.text.getLast? r ps → Divided prev s (p :: ps)
  | plain {prev : Option Char} {w r : Text} {ps : List Piece} :
      w ≠ [] → (∀ a b, w = a ++ b → b ≠ [] → cut? (a.getLast?.or prev) (b ++ r) = none) →
      (r = [] ∨ ∃ p r', Cut w.getLast? r p r') → Divided w.getLast? r ps →
      Divided prev (w ++ r) (.plain w :: ps)

/-- One more character in front, where nothing is cut off. -/
theorem Divided.prepend {prev : Option Char} {c : Char} {s : Text} {ps : List Piece}
    (hcut : cut? prev (c :: s) = none) (h : Divided (some c) s ps) :
    Divided prev (c :: s) (Piece.prepend c ps) := by
  -- Alone, the character is a plain piece in which nothing is cut off.
  have hsingle : ∀ a b, [c] = a ++ b → b ≠ [] → cut? (a.getLast?.or prev) (b ++ s) = none := by
    intro a b hab hb
    rcases List.append_eq_singleton_iff.mp hab.symm with ⟨rfl, rfl⟩ | ⟨_, rfl⟩
    · exact hcut
    · exact absurd rfl hb
  cases h with
  | nil => exact .plain (List.cons_ne_nil c []) hsingle (.inl rfl) .nil
  | @cut _ _ r p ps hp hps =>
    have hplain := Divided.plain (List.cons_ne_nil c []) hsingle (.inr ⟨p, r, hp⟩) (.cut hp hps)
    cases hp with
    | keyword | paren | blank | call => exact hplain
  | @plain _ w r ps hw hnone hnext hps =>
    obtain ⟨x, w, rfl⟩ := List.exists_cons_of_ne_nil hw
    refine .plain (w := c :: x :: w) (List.cons_ne_nil _ _) ?_ hnext hps
    intro a b hab hb
    cases a with
    | nil =>
      rw [← show c :: x :: w = b from hab]
      exact hcut
    | cons y a =>
      obtain rfl : c = y := (List.cons.inj hab).1
      have hlast : (c :: a).getLast?.or prev = a.getLast?.or (some c) := by
        rw [List.getLast?_cons, Option.some_or]
        cases a.getLast? <;> rfl
      rw [hlast]
      exact hnone a b (List.cons.inj hab).2 hb

/-- **The division is one piece by piece.** -/
theorem divided_divide (prev : Option Char) (s : Text) : Divided prev s (divide prev s) := by
  fun_induction divide prev s with
  | case1 => exact .nil
  | case2 prev c s p r hcut _ ih => exact .cut (cut?_eq_some_iff.mp hcut) ih
  | case3 prev c s hcut ih => exact ih.prepend hcut

namespace Divided

variable {prev : Option Char} {s : Text} {ps qs : List Piece}

theorem text_ne_nil (h : Divided prev s ps) : ∀ p ∈ ps, p.text ≠ [] := by
  induction h with
  | nil => exact List.forall_mem_nil _
  | cut hcut _ ih =>
    exact List.forall_mem_cons.mpr ⟨(isCut_of_cut? (cut?_eq_some_iff.mpr hcut)).2, ih⟩
  | plain hw _ _ _ ih => exact List.forall_mem_cons.mpr ⟨hw, ih⟩

theorem flatMap_text (h : Divided prev s ps) : ps.flatMap text = s := by
  induction h with
  | nil => rfl
  | cut hcut _ ih =>
    rw [List.flatMap_cons, ih]
    exact (isCut_of_cut? (cut?_eq_some_iff.mpr hcut)).1.symm
  | plain _ _ _ _ ih =>
    rw [List.flatMap_cons, ih]
    rfl

end Divided

end Piece

/-! ## Edges of pieces -/

/-- A text that has characters, and no white space at its ends. -/
structure Text.Trimmed (s : Text) : Prop where
  ne_nil : s ≠ []
  head : s.head?.any isBlank = false
  last : s.getLast?.any isBlank = false

theorem Text.Trimmed.of_forall {s : Text} (hne : s ≠ []) (h : ∀ c ∈ s, isBlank c = false) :
    Trimmed s where
  ne_nil := hne
  head := by
    rw [List.head?_eq_some_head hne, Option.any_some]
    exact h _ (List.head_mem hne)
  last := by
    rw [List.getLast?_eq_some_getLast hne, Option.any_some]
    exact h _ (List.getLast_mem hne)

theorem Call.getLast?_text (c : Call) : c.text.getLast? = some ')' := by
  unfold text
  split
  · exact List.getLast?_concat
  · rw [show "])".toList = [']'] ++ [')'] from rfl, ← List.append_assoc]
    exact List.getLast?_concat

namespace Piece

/-- White space is white space, and every other piece has none at its ends. -/
def Sound : Piece → Prop
  | .blank gap => gap.isBlankText
  | p => p.text.Trimmed

theorem Cut.sound {prev : Option Char} {s r : Text} {p : Piece} (h : Cut prev s p r) :
    p.Sound := by
  cases h with
  | keyword hw _ _ =>
    obtain ⟨hne, hletters⟩ := Connective.isWord_of_ofText? hw
    exact .of_forall hne fun x hx => Text.isBlank_eq_false_of_isWord (hletters x hx)
  | paren q r =>
    exact .of_forall (List.cons_ne_nil _ _) (List.forall_mem_singleton.mpr (Text.isBlank_paren q))
  | blank _ hgap _ => exact hgap
  | @call _ _ c hread =>
    have hne := c.text_ne_nil
    refine ⟨hne, ?_, ?_⟩
    · -- The first letter of its name.
      obtain ⟨x, s', hs, hx⟩ := Call.exists_eq_cons_of_read? hread
      obtain ⟨y, t, ht⟩ := List.exists_cons_of_ne_nil hne
      rw [Call.text_append_of_read? hread, ht] at hs
      obtain rfl : y = x := (List.cons.inj hs).1
      rw [text, ht, List.head?_cons, Option.any_some]
      exact Text.isBlank_eq_false_of_isWord (Predicate.isWord_of_mem_initials hx)
    · rw [text, c.getLast?_text]
      decide

/-- There is no white space in plain text, since it would have been cut off. -/
theorem isBlank_eq_false_of_plain {prev : Option Char} {w r : Text}
    (h : ∀ a b, w = a ++ b → b ≠ [] → cut? (a.getLast?.or prev) (b ++ r) = none) :
    ∀ x ∈ w, Text.isBlank x = false := by
  intro x hx
  obtain ⟨a, b, rfl⟩ := List.append_of_mem hx
  have hnone := h a (x :: b) rfl (List.cons_ne_nil x b)
  by_contra hblank
  rw [Bool.not_eq_false] at hblank
  rw [List.cons_append, cut?_of_isBlank hblank] at hnone
  cases hnone

theorem sound_of_mem_divide {prev : Option Char} {s : Text} :
    ∀ p ∈ divide prev s, p.Sound := by
  have h := divided_divide prev s
  generalize divide prev s = ps at h
  induction h with
  | nil => exact List.forall_mem_nil _
  | cut hcut _ ih => exact List.forall_mem_cons.mpr ⟨hcut.sound, ih⟩
  | plain hw hnone _ _ ih =>
    exact List.forall_mem_cons.mpr ⟨.of_forall hw (isBlank_eq_false_of_plain hnone), ih⟩

/-- A piece that is a token has no white space at its ends. -/
theorem Sound.trimmed {p : Piece} {t : Token} (h : p.Sound) (ht : p.token? = some t) :
    t.text.Trimmed := by
  rw [← text_of_token? ht]
  cases p with
  | blank gap => cases ht
  | paren | keyword | call | plain => exact h

/-- A piece that is no token is white space. -/
theorem Sound.isBlankText {p : Piece} (h : p.Sound) (ht : p.token? = none) :
    p.text.isBlankText := by
  cases p with
  | blank gap => exact h
  | paren | keyword | call | plain => cases ht

/-- Pieces are tokens with gaps of white space around them: a first gap, and one behind each
token. -/
theorem exists_gaps {ps : List Piece} (h : ∀ p ∈ ps, p.Sound) :
    ∃ (first : Text) (gaps : List Text), gaps.length = (ps.filterMap token?).length ∧
      first.isBlankText ∧ (∀ gap ∈ gaps, gap.isBlankText) ∧
      ps.flatMap text =
        first ++ ((ps.filterMap token?).zip gaps).flatMap fun p => p.1.text ++ p.2 := by
  induction ps with
  | nil => exact ⟨[], [], rfl, rfl, List.forall_mem_nil _, rfl⟩
  | cons p ps ih =>
    rw [List.forall_mem_cons] at h
    obtain ⟨first, gaps, hlength, hfirst, hgaps, htext⟩ := ih h.2
    cases ht : p.token? with
    | none =>
      -- The piece joins the gap behind it.
      refine ⟨p.text ++ first, gaps, ?_, ?_, hgaps, ?_⟩
      · rw [List.filterMap_cons_none ht, hlength]
      · exact Text.isBlankText_append.mpr ⟨h.1.isBlankText ht, hfirst⟩
      · rw [List.filterMap_cons_none ht, List.flatMap_cons, htext, List.append_assoc]
    | some t =>
      -- The gap that was the first one now stands behind this token.
      refine ⟨[], first :: gaps, ?_, rfl, List.forall_mem_cons.mpr ⟨hfirst, hgaps⟩, ?_⟩
      · rw [List.filterMap_cons_some ht, List.length_cons, List.length_cons, hlength]
      · rw [List.filterMap_cons_some ht, List.flatMap_cons, htext, text_of_token? ht,
          List.zip_cons_cons, List.flatMap_cons, List.nil_append, List.append_assoc]

end Piece

/-! ## Tokens and gaps -/

namespace Token

theorem trimmed_of_mem_ofText {s : Text} : ∀ t ∈ ofText s, t.text.Trimmed := by
  intro t ht
  obtain ⟨p, hp, hpt⟩ := List.mem_filterMap.mp ht
  exact (Piece.sound_of_mem_divide p hp).trimmed hpt

/-- The text is its tokens with gaps of white space around them. -/
theorem exists_gaps_ofText (s : Text) :
    ∃ (first : Text) (gaps : List Text), gaps.length = (ofText s).length ∧
      first.isBlankText ∧ (∀ gap ∈ gaps, gap.isBlankText) ∧
      s = first ++ ((ofText s).zip gaps).flatMap fun p => p.1.text ++ p.2 := by
  have hsound : ∀ p ∈ Piece.divide none s, p.Sound := Piece.sound_of_mem_divide
  have hgaps := Piece.exists_gaps hsound
  rwa [Piece.flatMap_text_divide] at hgaps

/-- There are no tokens exactly in white space. -/
theorem ofText_eq_nil_iff {s : Text} : ofText s = [] ↔ s.isBlankText := by
  obtain ⟨first, gaps, hlength, hfirst, -, hs⟩ := exists_gaps_ofText s
  constructor
  · intro hnil
    rw [hnil, List.zip_nil_left, List.flatMap_nil, List.append_nil] at hs
    rw [hs]
    exact hfirst
  · intro hblank
    by_contra hne
    obtain ⟨t, ts, hts⟩ := List.exists_cons_of_ne_nil hne
    have htrimmed := trimmed_of_mem_ofText t (hts ▸ List.mem_cons_self)
    obtain ⟨x, w, hx⟩ := List.exists_cons_of_ne_nil htrimmed.ne_nil
    -- The first character of the first token is in the text.
    have hmem : x ∈ s := by
      rw [hts, List.length_cons] at hlength
      obtain ⟨gap, gaps, rfl⟩ := List.exists_cons_of_length_eq_add_one hlength
      have hxt : x ∈ t.text := hx ▸ List.mem_cons_self
      rw [hs, hts, List.zip_cons_cons, List.flatMap_cons]
      exact List.mem_append_right _ (List.mem_append_left _ (List.mem_append_left gap hxt))
    have hhead := htrimmed.head
    rw [hx, List.head?_cons, Option.any_some, List.all_eq_true.mp hblank x hmem] at hhead
    cases hhead

/-- **The tokens lose nothing of the text.** The text is its tokens in order with gaps around them
that hold nothing but white space; no token is empty or has white space at its ends; and so there
are no tokens exactly if the text is all white space. -/
theorem ofText_conserves (s : Text) :
    (∃ (first : Text) (gaps : List Text), gaps.length = (ofText s).length ∧
      first.isBlankText ∧ (∀ gap ∈ gaps, gap.isBlankText) ∧
      s = first ++ ((ofText s).zip gaps).flatMap fun p => p.1.text ++ p.2) ∧
    (∀ t ∈ ofText s, t.text ≠ [] ∧ t.text.head?.any Text.isBlank = false ∧
      t.text.getLast?.any Text.isBlank = false) ∧
    (ofText s = [] ↔ s.isBlankText) := by
  refine ⟨exists_gaps_ofText s, fun t ht => ?_, ofText_eq_nil_iff⟩
  have htrimmed := trimmed_of_mem_ofText t ht
  exact ⟨htrimmed.ne_nil, htrimmed.head, htrimmed.last⟩

/-- Wide white space at both ends, a call over two lines, and a keyword that touches its
neighbours: the five gaps take up whatever the four tokens leave. -/
theorem ofText_conserves_touching : ∃ (s first : Text) (gaps : List Text),
    s = "\u3000NOT isnull([A\nB])and[C]\u2028 ".toList ∧
    (ofText s).map (String.ofList ∘ text) = ["NOT", "isnull([A\nB])", "and", "[C]"] ∧
    gaps.length = 4 ∧ first.isBlankText ∧ (∀ gap ∈ gaps, gap.isBlankText) ∧
    s = first ++ ((ofText s).zip gaps).flatMap fun p => p.1.text ++ p.2 := by
  obtain ⟨⟨first, gaps, hlength, hfirst, hgaps, hs⟩, -, -⟩ :=
    ofText_conserves "\u3000NOT isnull([A\nB])and[C]\u2028 ".toList
  have htokens : ofText "\u3000NOT isnull([A\nB])and[C]\u2028 ".toList =
      ["NOT", "isnull([A\nB])", "and", "[C]"].map (mk ∘ String.toList) := by decide +kernel
  refine ⟨_, first, gaps, rfl, ?_, ?_, hfirst, hgaps, hs⟩
  · rw [htokens]
    rfl
  · rw [hlength, htokens]
    rfl

end Token

end Criteria
