/-
Where the tokens of a text stand. The tokens do not say it themselves, since white space has none, so
the pieces are gone through once more with the number of bytes before each of them (`Token.places`).
With places one can ask of any spot of a text what the division has made of it.

A call is recognized twice: in the text, where the division cuts it off, and later on the token
alone. The two agree (`Token.existsUnique_hasForm`). What is cut off is read again from its own text,
since a reading depends on nothing behind it; and plain text is never read as a call afterwards,
since a call ends with a parenthesis and plain text holds none.

Nor does plain text hide anything else. A spot lies in exactly one piece, and if that piece is plain
text, nothing is cut off there: no parenthesis, and no keyword that stands as a whole word.
-/
import Criteria.Proofs.Calls
import Criteria.Proofs.Keywords

set_option autoImplicit false

namespace Criteria

/-! ## Places -/

/-- A token and where it stands. -/
structure Place where
  /-- The number of bytes before the token. -/
  start : Nat
  /-- The token that stands there. -/
  token : Token
  deriving DecidableEq

/-- The number of bytes up to the end of the token. -/
def Place.stop (q : Place) : Nat := q.start + q.token.text.byteSize

/-- The places of the tokens among some pieces, of which the first stands behind `n` bytes. -/
def Piece.places (n : Nat) : List Piece → List Place
  | [] => []
  | p :: ps => (p.token?.map (Place.mk n)).toList ++ places (n + p.text.byteSize) ps

/-- The tokens of a text and where they stand. -/
def Token.places (s : Text) : List Place := Piece.places 0 (Piece.divide none s)

namespace Piece

theorem map_token_places (n : Nat) (ps : List Piece) :
    (places n ps).map Place.token = ps.filterMap token? := by
  induction ps generalizing n with
  | nil => rfl
  | cons p ps ih =>
    rw [places, List.map_append, ih]
    cases h : p.token? with
    | none =>
      rw [List.filterMap_cons_none h]
      rfl
    | some t =>
      rw [List.filterMap_cons_some h]
      rfl

/-- A token stands behind the pieces before its own. -/
theorem mem_places_iff {n : Nat} {ps : List Piece} {q : Place} :
    q ∈ places n ps ↔ ∃ ps₁ p ps₂, ps = ps₁ ++ p :: ps₂ ∧ p.token? = some q.token ∧
      q.start = n + Text.byteSize (ps₁.flatMap text) := by
  induction ps generalizing n with
  | nil => simp [places]
  | cons p ps ih =>
    rw [places, List.mem_append, Option.mem_toList, Option.map_eq_some_iff, ih]
    constructor
    · rintro (⟨t, ht, rfl⟩ | ⟨ps₁, p', ps₂, rfl, ht, hstart⟩)
      · exact ⟨[], p, ps, rfl, ht, rfl⟩
      · refine ⟨p :: ps₁, p', ps₂, rfl, ht, ?_⟩
        rw [hstart, List.flatMap_cons, Text.byteSize_append, Nat.add_assoc]
    · rintro ⟨ps₁, p', ps₂, hps, ht, hstart⟩
      cases ps₁ with
      | nil =>
        obtain ⟨rfl, rfl⟩ := List.cons.inj hps
        exact .inl ⟨q.token, ht, by rw [← show q.start = n from hstart]⟩
      | cons p₁ ps₁ =>
        obtain ⟨rfl, rfl⟩ := List.cons.inj hps
        refine .inr ⟨ps₁, p', ps₂, rfl, ht, ?_⟩
        rw [hstart, List.flatMap_cons, Text.byteSize_append, Nat.add_assoc]

/-- Every spot lies in a piece: `x` is what stands before it in the piece, and `y` the rest. -/
theorem exists_piece_at {ps : List Piece} {a b : Text} (h : ps.flatMap text = a ++ b)
    (hb : b ≠ []) : ∃ ps₁ p ps₂ x y, ps = ps₁ ++ p :: ps₂ ∧ p.text = x ++ y ∧ y ≠ [] ∧
      a = ps₁.flatMap text ++ x ∧ b = y ++ ps₂.flatMap text := by
  induction ps generalizing a with
  | nil => exact absurd (List.append_eq_nil_iff.mp h.symm).2 hb
  | cons p ps ih =>
    rw [List.flatMap_cons] at h
    by_cases hlength : a.length < p.text.length
    · -- The spot is in the first piece.
      have hprefix : a <+: p.text := List.prefix_of_prefix_length_le
        ⟨b, h.symm⟩ (List.prefix_append p.text _) (Nat.le_of_lt hlength)
      obtain ⟨y, hy⟩ := hprefix
      rw [← hy, List.append_assoc, List.append_cancel_left_eq] at h
      refine ⟨[], p, ps, a, y, rfl, hy.symm, ?_, rfl, h.symm⟩
      rintro rfl
      rw [← hy, List.append_nil] at hlength
      exact Nat.lt_irrefl _ hlength
    · -- The first piece is before it.
      have hprefix : p.text <+: a := List.prefix_of_prefix_length_le
        (List.prefix_append p.text _) ⟨b, h.symm⟩ (Nat.le_of_not_lt hlength)
      obtain ⟨a, rfl⟩ := hprefix
      rw [List.append_assoc, List.append_cancel_left_eq] at h
      obtain ⟨ps₁, p', ps₂, x, y, rfl, hp', hy, rfl, hrest⟩ := ih h
      refine ⟨p :: ps₁, p', ps₂, x, y, rfl, hp', hy, ?_, hrest⟩
      rw [List.flatMap_cons, List.append_assoc]

/-- A call that is cut off is read from the text there, and it is read again from its own text, since
a reading depends on nothing behind it. -/
theorem Divided.read?_of_call {prev : Option Char} {s : Text} {c : Call} {qs : List Piece}
    (h : Divided prev s (.call c :: qs)) :
    Call.whole? c.text = some c ∧ Call.read? s = some (c, qs.flatMap text) := by
  cases h with
  | cut hcut hqs =>
    cases hcut with
    | call hread =>
      have hformed := (Call.read?_eq_some_iff.mp hread).1
      rw [hqs.flatMap_text]
      refine ⟨Call.whole?_eq_some_iff.mpr ?_, hread⟩
      exact Call.read?_eq_some_iff.mpr ⟨hformed, (List.append_nil _).symm⟩

/-- There is no parenthesis in plain text, since it would have been cut off. -/
theorem ofChar?_eq_none_of_plain {prev : Option Char} {w r : Text}
    (h : ∀ a b, w = a ++ b → b ≠ [] → cut? (a.getLast?.or prev) (b ++ r) = none) :
    ∀ x ∈ w, Paren.ofChar? x = none := by
  intro x hx
  refine Option.eq_none_iff_forall_ne_some.mpr fun p hp => ?_
  obtain ⟨a, b, rfl⟩ := List.append_of_mem hx
  have hnone := h a (x :: b) rfl (List.cons_ne_nil x b)
  rw [Paren.ofChar?_eq_some_iff.mp hp, List.cons_append, cut?_paren] at hnone
  cases hnone

end Piece

theorem Text.byteSize_pos {s : Text} (h : s ≠ []) : 0 < byteSize s := by
  obtain ⟨x, s, rfl⟩ := List.exists_cons_of_ne_nil h
  have hx := Char.utf8Size_pos x
  rw [byteSize]
  omega

theorem Text.ofChar?_eq_none_of_isWord {x : Char} (h : isWord x = true) :
    Paren.ofChar? x = none := by
  refine Option.eq_none_iff_forall_ne_some.mpr fun p hp => ?_
  rw [Paren.ofChar?_eq_some_iff.mp hp, isWord_paren] at h
  cases h

namespace Piece.Divided

variable {prev : Option Char} {s w : Text} {qs : List Piece}

/-- A keyword has neither white space nor parentheses in it. -/
theorem forall_mem_keyword {c : Connective} (h : Divided prev s (.keyword c w :: qs)) :
    ∀ x ∈ w, Text.isBlank x = false ∧ Paren.ofChar? x = none := by
  intro x hx
  cases h with
  | cut hcut _ =>
    cases hcut with
    | keyword hw _ _ =>
      have hword := (Connective.isWord_of_ofText? hw).2 x hx
      exact ⟨Text.isBlank_eq_false_of_isWord hword, Text.ofChar?_eq_none_of_isWord hword⟩

/-- Nor has plain text. -/
theorem forall_mem_plain (h : Divided prev s (.plain w :: qs)) :
    ∀ x ∈ w, Text.isBlank x = false ∧ Paren.ofChar? x = none := by
  intro x hx
  cases h with
  | cut hcut _ => cases hcut
  | plain _ hnone _ _ =>
    exact ⟨isBlank_eq_false_of_plain hnone x hx, ofChar?_eq_none_of_plain hnone x hx⟩

end Piece.Divided

/-- A text without parentheses is no call. -/
theorem Call.whole?_eq_none_of_forall {s : Text} (h : ∀ x ∈ s, Paren.ofChar? x = none) :
    whole? s = none := by
  refine Option.eq_none_iff_forall_ne_some.mpr fun c hc => ?_
  have hlast := c.getLast?_text
  rw [← text_of_whole? hc] at hlast
  exact absurd (h ')' (List.mem_of_getLast? hlast)) (by decide)

namespace Token

/-! ## The three forms of tokens -/

/-- The forms in which tokens come out of a text. -/
inductive Form where
  | paren
  | call
  | word
  deriving DecidableEq, Repr

/-- Whether a token, behind which the text `r` follows, has a form. A call is the same call when it
is read from the text there as when it is read from the token alone, and it is all of the token. A
word has no white space and no parenthesis in it, and it is no call. -/
def HasForm (t : Token) (r : Text) : Form → Prop
  | .paren => ∃ p, t.text = [Paren.char p]
  | .call => ∃ c, Call.whole? t.text = some c ∧ Call.read? (t.text ++ r) = some (c, r)
  | .word =>
    (∀ x ∈ t.text, Text.isBlank x = false ∧ Paren.ofChar? x = none) ∧ Call.whole? t.text = none

theorem not_hasForm_word_of_mem {t : Token} {r : Text} (p : Paren) (h : p.char ∈ t.text) :
    ¬ t.HasForm r .word := by
  rintro ⟨hchars, -⟩
  have hnone := (hchars p.char h).2
  rw [Paren.ofChar?_eq_some_iff.mpr rfl] at hnone
  cases hnone

/-- No token has two forms. -/
theorem HasForm.unique {t : Token} {r : Text} {f g : Form} (hf : t.HasForm r f)
    (hg : t.HasForm r g) : f = g := by
  -- A parenthesis is no call: a call starts with a letter.
  have hparen : t.HasForm r .paren → ¬ t.HasForm r .call := by
    rintro ⟨p, hp⟩ ⟨c, hc, -⟩
    obtain ⟨x, s, hs, hx⟩ := Call.exists_eq_cons_of_whole? hc
    have hword := Predicate.isWord_of_mem_initials hx
    rw [hp] at hs
    rw [← (List.cons.inj hs).1, Text.isWord_paren] at hword
    cases hword
  have hword : t.HasForm r .paren → ¬ t.HasForm r .word := by
    rintro ⟨p, hp⟩
    refine not_hasForm_word_of_mem p ?_
    rw [hp]
    exact List.mem_singleton_self p.char
  have hcall : t.HasForm r .call → ¬ t.HasForm r .word := by
    rintro ⟨c, hc, -⟩ ⟨-, hnone⟩
    rw [hc] at hnone
    cases hnone
  cases f with
  | paren =>
    cases g with
    | paren => rfl
    | call => exact absurd hg (hparen hf)
    | word => exact absurd hg (hword hf)
  | call =>
    cases g with
    | paren => exact absurd hf (hparen hg)
    | call => rfl
    | word => exact absurd hg (hcall hf)
  | word =>
    cases g with
    | paren => exact absurd hf (hword hg)
    | call => exact absurd hf (hcall hg)
    | word => rfl

theorem hasForm_word {t : Token} {r : Text}
    (h : ∀ x ∈ t.text, Text.isBlank x = false ∧ Paren.ofChar? x = none) : t.HasForm r .word :=
  ⟨h, Call.whole?_eq_none_of_forall fun x hx => (h x hx).2⟩

/-- The token of a piece has one of the forms, whatever the piece is. -/
theorem existsUnique_hasForm {prev : Option Char} {s : Text} {p : Piece} {qs : List Piece}
    {t : Token} (h : Piece.Divided prev s (p :: qs)) (ht : p.token? = some t) :
    ∃! f, t.HasForm (qs.flatMap Piece.text) f := by
  have hform : ∃ f, t.HasForm (qs.flatMap Piece.text) f := by
    have htext := Piece.text_of_token? ht
    cases p with
    | blank gap => cases ht
    | paren q => exact ⟨.paren, q, htext.symm⟩
    | call c =>
      obtain ⟨hwhole, hread⟩ := h.read?_of_call
      have hs := h.flatMap_text
      rw [List.flatMap_cons, htext] at hs
      rw [show c.text = t.text from htext] at hwhole
      rw [← hs] at hread
      exact ⟨.call, c, hwhole, hread⟩
    | keyword c w =>
      refine ⟨.word, hasForm_word ?_⟩
      rw [← htext]
      exact h.forall_mem_keyword
    | plain w =>
      refine ⟨.word, hasForm_word ?_⟩
      rw [← htext]
      exact h.forall_mem_plain
  obtain ⟨f, hf⟩ := hform
  exact ⟨f, hf, fun g hg => hg.unique hf⟩

/-! ## What stands outside of calls -/

theorem map_token_places (s : Text) : (places s).map Place.token = ofText s :=
  Piece.map_token_places 0 _

/-- A token stands behind the text of the pieces before its own. -/
theorem mem_places_iff {s : Text} {q : Place} :
    q ∈ places s ↔ ∃ ps p qs, Piece.divide none s = ps ++ p :: qs ∧ p.token? = some q.token ∧
      q.start = Text.byteSize (ps.flatMap Piece.text) := by
  rw [places, Piece.mem_places_iff]
  simp only [Nat.zero_add]

/-- `OutsideCalls s a w`: the text `w`, which stands behind `a` in `s`, shares no byte with a call
among the tokens of `s`. -/
def OutsideCalls (s a w : Text) : Prop :=
  ∀ q ∈ places s, (Call.whole? q.token.text).isSome →
    q.stop ≤ Text.byteSize a ∨ Text.byteSize (a ++ w) ≤ q.start

instance (s a w : Text) : Decidable (OutsideCalls s a w) :=
  inferInstanceAs (Decidable (∀ q ∈ places s, (Call.whole? q.token.text).isSome →
    q.stop ≤ Text.byteSize a ∨ Text.byteSize (a ++ w) ≤ q.start))

/-- Around a spot outside of calls there is a piece of another kind: `x` is what stands before the
spot in the piece, and `y` the rest. -/
theorem OutsideCalls.exists_piece {s a w r : Text} (h : OutsideCalls s a w) (hs : s = a ++ (w ++ r))
    (hw : w ≠ []) : ∃ ps p qs x y s', Piece.divide none s = ps ++ p :: qs ∧
      Piece.Divided (ps.flatMap Piece.text).getLast? s' (p :: qs) ∧ (∀ c, p ≠ .call c) ∧
      p.text = x ++ y ∧ y ≠ [] ∧ a = ps.flatMap Piece.text ++ x ∧
      w ++ r = y ++ qs.flatMap Piece.text := by
  have hdivided := Piece.divided_divide none s
  have hne : w ++ r ≠ [] := fun hnil => hw (List.append_eq_nil_iff.mp hnil).1
  obtain ⟨ps, p, qs, x, y, hps, hp, hy, ha, hb⟩ :=
    Piece.exists_piece_at (hdivided.flatMap_text.trans hs) hne
  rw [hps] at hdivided
  have hrest := hdivided.of_append
  rw [Option.or_none] at hrest
  refine ⟨ps, p, qs, x, y, _, hps, hrest, ?_, hp, hy, ha, hb⟩
  -- A call there would share the first byte of `w`.
  rintro c rfl
  have hmem : (⟨Text.byteSize (ps.flatMap Piece.text), ⟨c.text⟩⟩ : Place) ∈ places s :=
    mem_places_iff.mpr ⟨ps, .call c, qs, hps, rfl, rfl⟩
  have hwhole := hrest.read?_of_call.1
  have hapart := h _ hmem (by rw [hwhole]; rfl)
  have hsize : Text.byteSize c.text = Text.byteSize x + Text.byteSize y := by
    rw [← Text.byteSize_append, ← hp]
    rfl
  have hypos := Text.byteSize_pos hy
  have hwpos := Text.byteSize_pos hw
  simp only [Place.stop, ha, Text.byteSize_append, hsize] at hapart
  omega

/-- A parenthesis outside of calls is a token. -/
theorem OutsideCalls.paren_mem_places {s a r : Text} {p : Paren} (h : OutsideCalls s a [p.char])
    (hs : s = a ++ ([p.char] ++ r)) : ⟨Text.byteSize a, ⟨[p.char]⟩⟩ ∈ places s := by
  obtain ⟨ps, q, qs, x, y, s', hps, hdivided, hcall, hq, hy, ha, hb⟩ :=
    h.exists_piece hs (List.cons_ne_nil p.char [])
  obtain ⟨z, y, rfl⟩ := List.exists_cons_of_ne_nil hy
  obtain rfl : p.char = z := (List.cons.inj hb).1
  have hmem : p.char ∈ q.text := by
    rw [hq]
    exact List.mem_append_right x List.mem_cons_self
  cases q with
  | blank gap =>
    cases hdivided with
    | cut hcut _ =>
      have hblank := List.all_eq_true.mp hcut.sound p.char hmem
      rw [Text.isBlank_paren] at hblank
      cases hblank
  | paren q =>
    obtain ⟨rfl, hy'⟩ : x = [] ∧ p.char :: y = [q.char] := by
      rcases List.append_eq_singleton_iff.mp hq.symm with hleft | ⟨_, hright⟩
      · exact hleft
      · cases hright
    rw [List.append_nil] at ha
    refine mem_places_iff.mpr ⟨ps, .paren q, qs, hps, ?_, by rw [ha]⟩
    rw [(List.cons.inj hy').1]
    rfl
  | keyword c w =>
    cases hdivided with
    | cut hcut _ =>
      cases hcut with
      | keyword hw _ _ =>
        have hword := (Connective.isWord_of_ofText? hw).2 p.char hmem
        rw [Text.isWord_paren] at hword
        cases hword
  | call c => exact absurd rfl (hcall c)
  | plain w =>
    cases hdivided with
    | cut hcut _ => cases hcut
    | plain _ hnone _ _ =>
      have hparen := Piece.ofChar?_eq_none_of_plain hnone p.char hmem
      rw [Paren.ofChar?_eq_some_iff.mpr rfl] at hparen
      cases hparen

/-- A keyword outside of calls that stands as a whole word is a token. -/
theorem OutsideCalls.keyword_mem_places {s a w r : Text} {c : Connective} (h : OutsideCalls s a w)
    (hs : s = a ++ (w ++ r)) (hw : Connective.ofText? w = some c)
    (hlast : a.getLast?.any Text.isWord = false) (hnext : r.head?.any Text.isWord = false) :
    ⟨Text.byteSize a, ⟨w⟩⟩ ∈ places s := by
  obtain ⟨hne, hletters⟩ := Connective.isWord_of_ofText? hw
  obtain ⟨ps, q, qs, x, y, s', hps, hdivided, hcall, hq, hy, ha, hb⟩ := h.exists_piece hs hne
  have hs' := hdivided.flatMap_text
  -- The first letter of the keyword is in the piece.
  have hhead : y.head?.any Text.isWord = true := by
    have hstart := Connective.isWord_head hw r
    rwa [hb, List.head?_append_of_ne_nil y hy] at hstart
  cases q with
  | blank gap =>
    cases hdivided with
    | cut hcut _ =>
      have hgap : Text.isBlankText y := by
        have hblank : Text.isBlankText (x ++ y) := hq ▸ hcut.sound
        exact (Text.isBlankText_append.mp hblank).2
      have hnot := Text.isWord_head_blank hy hgap []
      rw [List.append_nil, hhead] at hnot
      cases hnot
  | paren q =>
    have hpiece : y = [q.char] := by
      rcases List.append_eq_singleton_iff.mp hq.symm with ⟨_, hright⟩ | ⟨_, hright⟩
      · exact hright
      · exact absurd hright hy
    rw [hpiece, List.head?_cons, Option.any_some, Text.isWord_paren] at hhead
    cases hhead
  | keyword c' v =>
    cases hdivided with
    | cut hcut hqs =>
      cases hcut with
      | keyword hv _ hend =>
        have hletters' := (Connective.isWord_of_ofText? hv).2
        -- Nothing of the piece stands before the spot, for that would be a character of a word.
        have hx : x = [] := by
          by_contra hx
          have hword : Text.isWord (x.getLast hx) = true := by
            apply hletters'
            rw [show v = x ++ y from hq]
            exact List.mem_append_left y (List.getLast_mem hx)
          rw [ha, List.getLast?_append, List.getLast?_eq_some_getLast hx, Option.some_or,
            Option.any_some, hword] at hlast
          cases hlast
        subst hx
        rw [List.append_nil] at ha
        -- Both words are the run of word characters that starts here.
        rw [hqs.flatMap_text, ← show v = y from hq] at hb
        have hrun := (Text.span_append hletters hnext).1
        rw [hb, (Text.span_append hletters' hend).1] at hrun
        refine mem_places_iff.mpr ⟨ps, .keyword c' v, qs, hps, ?_, by rw [ha]⟩
        rw [← hrun]
        rfl
  | call c' => exact absurd rfl (hcall c')
  | plain v =>
    cases hdivided with
    | cut hcut _ => cases hcut
    | @plain _ _ r' _ _ hnone _ hqs =>
      -- The keyword would have been cut off.
      have hspot := hnone x y hq hy
      have hprev : x.getLast?.or (ps.flatMap Piece.text).getLast? = a.getLast? := by
        rw [ha, List.getLast?_append]
      rw [hprev, ← hqs.flatMap_text, ← hb, Piece.cut?_keyword hw hlast hnext] at hspot
      cases hspot

/-- **The division and the reading of tokens see the same calls, and no token hides anything.** Each
token has exactly one of three forms where it stands: it is a parenthesis; or it is a call, and the
same one read from the text there as read from the token; or it is a word, which has no white space
and no parenthesis in it and is no call. Outside of calls every parenthesis is a token, and so is
every keyword with no character of a word on either side. -/
theorem places_exact (s : Text) :
    (places s).map Place.token = ofText s ∧
    (∀ q ∈ places s, ∃ a r, s = a ++ (q.token.text ++ r) ∧ Text.byteSize a = q.start ∧
      ∃! f, q.token.HasForm r f) ∧
    (∀ a p r, s = a ++ ([Paren.char p] ++ r) → OutsideCalls s a [p.char] →
      ⟨Text.byteSize a, ⟨[p.char]⟩⟩ ∈ places s) ∧
    (∀ a w r c, s = a ++ (w ++ r) → Connective.ofText? w = some c →
      a.getLast?.any Text.isWord = false → r.head?.any Text.isWord = false →
      OutsideCalls s a w → ⟨Text.byteSize a, ⟨w⟩⟩ ∈ places s) := by
  refine ⟨map_token_places s, fun q hq => ?_, fun a p r hs h => h.paren_mem_places hs,
    fun a w r c hs hw hlast hnext h => h.keyword_mem_places hs hw hlast hnext⟩
  obtain ⟨ps, p, qs, hps, hp, hstart⟩ := mem_places_iff.mp hq
  have hdivided := Piece.divided_divide none s
  rw [hps] at hdivided
  have htext := hdivided.flatMap_text
  rw [List.flatMap_append, List.flatMap_cons, Piece.text_of_token? hp] at htext
  exact ⟨_, _, htext.symm, hstart.symm, existsUnique_hasForm hdivided.of_append hp⟩

/-- In `[é-and-y]OR(isnull([A and (B)]))` the first `and` stands as a whole word behind four bytes
and is cut out of the brackets; the second one is inside a call, which is one token. -/
theorem places_exact_in_brackets : ∃ (s r : Text) (q : Place),
    s = "[é-and-y]OR(isnull([A and (B)]))".toList ∧ s = "[é-".toList ++ ("and".toList ++ r) ∧
    OutsideCalls s "[é-".toList "and".toList ∧ ⟨4, ⟨"and".toList⟩⟩ ∈ places s ∧
    q = ⟨13, ⟨"isnull([A and (B)])".toList⟩⟩ ∧ q ∈ places s ∧
    (∃ a r, s = a ++ (q.token.text ++ r) ∧ Text.byteSize a = q.start ∧
      ∃! f, q.token.HasForm r f) ∧
    ¬ OutsideCalls s "[é-and-y]OR(isnull([A ".toList "and".toList := by
  obtain ⟨-, hform, -, hkeyword⟩ := places_exact "[é-and-y]OR(isnull([A and (B)]))".toList
  have hout : OutsideCalls "[é-and-y]OR(isnull([A and (B)]))".toList "[é-".toList "and".toList := by
    decide +kernel
  have hmem := hkeyword "[é-".toList "and".toList "-y]OR(isnull([A and (B)]))".toList .and
    (by decide +kernel) (by decide) (by decide +kernel) (by decide +kernel) hout
  have hcall : ⟨13, ⟨"isnull([A and (B)])".toList⟩⟩ ∈
      places "[é-and-y]OR(isnull([A and (B)]))".toList := by decide +kernel
  exact ⟨_, _, _, rfl, rfl, hout, hmem, rfl, hcall, hform _ hcall, by decide +kernel⟩

end Token

end Criteria
