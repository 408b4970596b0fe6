/-
White space between tokens. Two texts that hold the same pieces and differ in the white space between
them are divided into the same tokens, but nothing in the division says so by itself. Whether a keyword
stands at a place depends on the characters on both sides of it, and what is plain text must not become
part of a call.

For keywords the answer is near at hand. It depends on the run of word characters at the place, and
white space is put only where such a run has ended (`Respaced.takeWhile_isWord`). For calls the matter
is not local, so it is asked for: in no piece that is kept may a call come to stand (`Respaced.keep`).
The two texts are then followed side by side, piece by piece (`Respaced.tokens`), where the division of
the new text is known as soon as its pieces are, since a text has one division only
(`Divided.eq_divide`).

What follows the last piece may be any text behind white space. Hence a text with white space in it is
divided as its two parts are, unless the second part completes a call that the first one has begun
(`ofText_append_of_separated`).
-/
import Criteria.Proofs.Calls
import Criteria.Proofs.Keywords
import Mathlib.Data.List.Infix

set_option autoImplicit false

namespace Criteria

namespace Piece

variable {prev prev' : Option Char} {s r t tail : Text} {p : Piece} {ps : List Piece}

/-! ## The character before -/

/-- Of the character before a text it is only asked whether it is part of a word. -/
theorem cut?_congr (h : prev.any Text.isWord = prev'.any Text.isWord) (s : Text) :
    cut? prev s = cut? prev' s := by
  rw [cut?, cut?, keyword?, keyword?, h]

theorem divide_congr (h : prev.any Text.isWord = prev'.any Text.isWord) (s : Text) :
    divide prev s = divide prev' s := by
  cases s with
  | nil => rw [divide, divide]
  | cons c s =>
    cases hcut : cut? prev (c :: s) with
    | none =>
      have hcut' := hcut
      rw [cut?_congr h] at hcut'
      rw [divide_of_cut?_eq_none hcut, divide_of_cut?_eq_none hcut']
    | some cut =>
      have hcut' := hcut
      rw [cut?_congr h] at hcut'
      rw [divide_of_cut? hcut, divide_of_cut? hcut']

theorem tokens_congr (h : prev.any Text.isWord = prev'.any Text.isWord) (s : Text) :
    tokens prev s = tokens prev' s := by
  rw [tokens, tokens, divide_congr h]

/-- White space at the start has no part in the tokens, and behind it the text is divided as if it
stood alone. -/
theorem tokens_eq_dropWhile
    (h : prev.any Text.isWord = false ∨ ∀ c ∈ s.head?, Text.isBlank c = true) :
    tokens prev s = tokens none (s.dropWhile Text.isBlank) := by
  by_cases hgap : s.takeWhile Text.isBlank = []
  · cases s with
    | nil => rw [List.dropWhile_nil, tokens, tokens, divide, divide]
    | cons c s =>
      have hc : ¬ Text.isBlank c = true := by
        intro hc
        rw [List.takeWhile_cons_of_pos hc] at hgap
        cases hgap
      have hprev : prev.any Text.isWord = false := h.resolve_right fun hhead => hc (hhead c rfl)
      rw [List.dropWhile_cons_of_neg hc]
      exact tokens_congr hprev _
  · obtain ⟨prev', hprev', htokens⟩ :=
      tokens_blank_append prev hgap List.all_takeWhile (Text.head?_dropWhile Text.isBlank s)
    rw [List.takeWhile_append_dropWhile] at htokens
    rw [htokens]
    exact tokens_congr hprev' _

theorem tokens_of_blank_head (h : ∀ c ∈ s.head?, Text.isBlank c = true) :
    tokens prev s = tokens none s := by
  rw [tokens_eq_dropWhile (.inr h)]
  exact (tokens_eq_dropWhile (.inl rfl)).symm

theorem tokens_gap_append {gap : Text} (hgap : gap.isBlankText)
    (h : gap = [] → prev.any Text.isWord = false) (s : Text) :
    tokens prev (gap ++ s) = tokens none s := by
  cases gap with
  | nil => exact tokens_congr (h rfl) s
  | cons c gap =>
    have hdrop : (c :: gap ++ s).dropWhile Text.isBlank = s.dropWhile Text.isBlank :=
      List.dropWhile_append_of_pos (List.all_eq_true.mp hgap)
    have hhead : ∀ d ∈ (c :: gap ++ s).head?, Text.isBlank d = true := by
      intro d hd
      obtain rfl : c = d := Option.some.inj hd
      exact (Text.isBlankText_cons.mp hgap).1
    rw [tokens_eq_dropWhile (.inr hhead), hdrop]
    exact (tokens_eq_dropWhile (.inl rfl)).symm

theorem tokens_paren_append {before after : Text} (hbefore : before.isBlankText)
    (hafter : after.isBlankText) (p : Paren) (t : Text) :
    tokens prev (before ++ p.char :: (after ++ t)) = ⟨[p.char]⟩ :: tokens none t := by
  have hparen : ∀ prev, tokens prev (p.char :: (after ++ t)) = ⟨[p.char]⟩ :: tokens none t := by
    intro prev
    have hword : [p.char].getLast?.any Text.isWord = false := Text.isWord_paren p
    rw [tokens_of_cut? (t := ⟨[p.char]⟩) (cut?_paren prev p _) rfl,
      tokens_gap_append hafter fun _ => hword]
  by_cases hne : before = []
  · rw [hne]
    exact hparen prev
  · rw [tokens_gap_append hbefore fun hnil => absurd hnil hne]
    exact hparen none

/-! ## One division only -/

/-- Plain text in which nothing is cut off is one piece, if something is cut off behind it. -/
theorem divide_plain_append {w : Text} (hw : w ≠ [])
    (hnone : ∀ a b, w = a ++ b → b ≠ [] → cut? (a.getLast?.or prev) (b ++ r) = none)
    (hnext : r = [] ∨ ∃ p r', Cut w.getLast? r p r') :
    divide prev (w ++ r) = .plain w :: divide w.getLast? r := by
  -- The induction is on the plain text; each character joins what is plain behind it.
  induction w generalizing prev with
  | nil => exact absurd rfl hw
  | cons c w ih =>
    have hcut : cut? prev (c :: (w ++ r)) = none := hnone [] (c :: w) rfl hw
    rw [List.cons_append, divide_of_cut?_eq_none hcut]
    cases w with
    | nil =>
      rcases hnext with rfl | ⟨p, r', hp⟩
      · rw [List.append_nil, divide, List.getLast?_singleton, divide]
        rfl
      · rw [List.getLast?_singleton] at hp
        rw [List.nil_append, List.getLast?_singleton, divide_of_cut? (cut?_eq_some_iff.mpr hp)]
        cases hp with
        | keyword | paren | blank | call => rfl
    | cons d w =>
      rw [List.getLast?_cons_cons] at hnext ⊢
      rw [ih (List.cons_ne_nil d w) ?_ hnext]
      · rfl
      · intro a b hab hb
        have hspot := hnone (c :: a) b (by rw [hab, List.cons_append]) hb
        rw [List.getLast?_cons] at hspot
        cases hlast : a.getLast? with
        | none => simpa [hlast] using hspot
        | some x => simpa [hlast] using hspot

theorem tokens_plain_append {w : Text} (hw : w ≠ [])
    (hnone : ∀ a b, w = a ++ b → b ≠ [] → cut? (a.getLast?.or prev) (b ++ r) = none)
    (hnext : r = [] ∨ ∃ p r', Cut w.getLast? r p r') :
    tokens prev (w ++ r) = ⟨w⟩ :: tokens w.getLast? r := by
  rw [tokens, divide_plain_append hw hnone hnext]
  rfl

/-- **A text has one division only.** -/
theorem Divided.eq_divide (h : Divided prev s ps) : divide prev s = ps := by
  induction h with
  | nil => rw [divide]
  | cut hcut _ ih => rw [divide_of_cut? (cut?_eq_some_iff.mpr hcut), ih]
  | plain hw hnone hnext _ ih => rw [divide_plain_append hw hnone hnext, ih]

/-! ## Where something is cut off -/

/-- A keyword stands where the run of word characters is one. -/
theorem isSome_keyword?_iff : (keyword? prev s).isSome ↔
    prev.any Text.isWord = false ∧ (Connective.ofText? (s.takeWhile Text.isWord)).isSome := by
  rw [Option.isSome_iff_exists, Option.isSome_iff_exists]
  constructor
  · rintro ⟨⟨p, r⟩, h⟩
    obtain ⟨c, w, -, rfl, hw, hprev, hnext⟩ := keyword?_eq_some_iff.mp h
    rw [(Text.span_append (Connective.isWord_of_ofText? hw).2 hnext).1]
    exact ⟨hprev, c, hw⟩
  · rintro ⟨hprev, c, hw⟩
    have hnext := Text.head?_dropWhile Text.isWord s
    have hs : s = s.takeWhile Text.isWord ++ s.dropWhile Text.isWord :=
      List.takeWhile_append_dropWhile.symm
    exact ⟨_, keyword?_eq_some_iff.mpr ⟨c, _, rfl, hs, hw, hprev, hnext⟩⟩

/-- What is cut off where the character `c` stands depends on the rest of the text by the word and
the call that start there only. -/
theorem isSome_cut?_cons_iff {c : Char} : (cut? prev (c :: s)).isSome ↔
    (keyword? prev (c :: s)).isSome ∨ (Paren.ofChar? c).isSome ∨ Text.isBlank c = true ∨
      (Call.read? (c :: s)).isSome := by
  rw [cut?, paren?, blank?, call?]
  cases keyword? prev (c :: s) with
  | some cut => simp
  | none =>
    cases Paren.ofChar? c with
    | some q => simp
    | none =>
      by_cases hc : Text.isBlank c = true
      · simp [hc]
      · simp [hc]

/-! ## Two texts side by side -/

/-- `Respaced tail ps t` says that the text `t` is the pieces `ps` with other white space between them
and with the text `tail` behind them. White space may be put around a parenthesis, and white space may
stand in the place of other white space. Any piece may be kept, if no call can be read in it that could
not be read there before. -/
inductive Respaced (tail : Text) : List Piece → Text → Prop where
  | nil : Respaced tail [] tail
  | blank {gap gap' : Text} {ps : List Piece} {t : Text} :
      gap ≠ [] → gap.isBlankText → gap' ≠ [] → gap'.isBlankText → Respaced tail ps t →
      Respaced tail (.blank gap :: ps) (gap' ++ t)
  | paren {p : Paren} {before after : Text} {ps : List Piece} {t : Text} :
      before.isBlankText → after.isBlankText → Respaced tail ps t →
      Respaced tail (.paren p :: ps) (before ++ p.char :: (after ++ t))
  | keep {p : Piece} {ps : List Piece} {t : Text} :
      (∀ y, y <:+ p.text → y ≠ [] → (Call.read? (y ++ t)).isSome →
        (Call.read? (y ++ ps.flatMap text)).isSome) →
      Respaced tail ps t → Respaced tail (p :: ps) (p.text ++ t)

theorem takeWhile_isWord_blank {gap : Text} (hne : gap ≠ []) (hgap : gap.isBlankText) (s : Text) :
    (gap ++ s).takeWhile Text.isWord = [] := by
  obtain ⟨c, gap, rfl, hc⟩ := Text.exists_blank_cons hne hgap
  exact List.takeWhile_cons_of_neg (Bool.eq_false_iff.mp (Text.isWord_eq_false_of_isBlank hc))

theorem takeWhile_isWord_paren (p : Paren) (s : Text) :
    (p.char :: s).takeWhile Text.isWord = [] :=
  List.takeWhile_cons_of_neg (Bool.eq_false_iff.mp (Text.isWord_paren p))

/-- The words stay the same: white space is put only where there is none. -/
theorem Respaced.takeWhile_isWord (h : Respaced tail ps t)
    (htail : ∀ c ∈ tail.head?, Text.isBlank c = true) :
    t.takeWhile Text.isWord = (ps.flatMap text).takeWhile Text.isWord := by
  induction h with
  | nil =>
    cases tail with
    | nil => rfl
    | cons c tail =>
      exact takeWhile_isWord_blank (List.cons_ne_nil c [])
        (Text.isBlankText_cons.mpr ⟨htail c rfl, rfl⟩) tail
  | blank hne hgap hne' hgap' _ _ =>
    rw [List.flatMap_cons, takeWhile_isWord_blank hne' hgap']
    exact (takeWhile_isWord_blank hne hgap _).symm
  | @paren p before after ps t hbefore _ _ _ =>
    have hpieces : ((Piece.paren p :: ps).flatMap text).takeWhile Text.isWord = [] :=
      takeWhile_isWord_paren p _
    rw [hpieces]
    by_cases hne : before = []
    · rw [hne]
      exact takeWhile_isWord_paren p _
    · exact takeWhile_isWord_blank hne hbefore _
  | keep _ _ ih => rw [List.flatMap_cons, List.takeWhile_append, List.takeWhile_append, ih]

/-- A piece that is cut off is cut off also where other text follows, if the words stay the same. -/
theorem Cut.append_of_takeWhile (h : Cut prev s p r) (hp : ∀ gap, p ≠ .blank gap)
    (hprev : prev'.any Text.isWord = prev.any Text.isWord)
    (hword : t.takeWhile Text.isWord = r.takeWhile Text.isWord) : Cut prev' (p.text ++ t) p t := by
  cases h with
  | keyword hw hstart hnext =>
    refine .keyword hw (hprev.trans hstart) ?_
    cases t with
    | nil => rfl
    | cons c t =>
      have hr : r.takeWhile Text.isWord = [] := by
        cases r with
        | nil => rfl
        | cons d r => exact List.takeWhile_cons_of_neg (Bool.eq_false_iff.mp hnext)
      rw [hr, List.takeWhile_cons] at hword
      by_contra hc
      rw [List.head?_cons, Option.any_some, Bool.not_eq_false] at hc
      rw [if_pos hc] at hword
      cases hword
  | paren q r => exact .paren q t
  | blank => exact absurd rfl (hp _)
  | call hread =>
    exact .call (Call.read?_eq_some_iff.mpr ⟨(Call.read?_eq_some_iff.mp hread).1, rfl⟩)

/-- Where something was cut off, or the text was at its end, that is so afterwards. -/
theorem Respaced.isSome_cut? (h : Respaced tail ps t)
    (htail : ∀ c ∈ tail.head?, Text.isBlank c = true) (hdivided : Divided prev r ps)
    (hcut : r = [] ∨ ∃ p r', Cut prev r p r') : t = [] ∨ ∃ p t', Cut prev t p t' := by
  have hblank : ∀ {c : Char} {s : Text}, Text.isBlank c = true → ∃ p t', Cut prev (c :: s) p t' :=
    fun hc => ⟨_, _, cut?_eq_some_iff.mp (cut?_of_isBlank hc prev _)⟩
  cases h with
  | nil =>
    cases t with
    | nil => exact .inl rfl
    | cons c t => exact .inr (hblank (htail c rfl))
  | @blank _ gap' _ _ _ _ hne' hgap' _ =>
    obtain ⟨c, gap', rfl, hc⟩ := Text.exists_blank_cons hne' hgap'
    exact .inr (hblank hc)
  | @paren p before _ _ _ hbefore _ _ =>
    cases before with
    | nil => exact .inr ⟨_, _, .paren p _⟩
    | cons c before => exact .inr (hblank (Text.isBlankText_cons.mp hbefore).1)
  | @keep p ps t _ hps =>
    cases hdivided with
    | cut hp hrest =>
      by_cases hgap : ∃ gap, p = .blank gap
      · obtain ⟨gap, rfl⟩ := hgap
        cases hp with
        | blank hne hgap _ =>
          obtain ⟨c, gap, rfl, hc⟩ := Text.exists_blank_cons hne hgap
          exact .inr (hblank hc)
      · have hword := hps.takeWhile_isWord htail
        rw [hrest.flatMap_text] at hword
        refine .inr ⟨p, t, hp.append_of_takeWhile (fun gap hp => hgap ⟨gap, hp⟩) rfl hword⟩
    | @plain _ w r _ hw hnone _ _ =>
      -- Nothing is cut off at the start of plain text.
      rcases hcut with hnil | ⟨q, r', hq⟩
      · exact absurd (List.append_eq_nil_iff.mp hnil).1 hw
      · have hstart : cut? prev (w ++ r) = none := hnone [] w rfl hw
        rw [cut?_eq_some_iff.mpr hq] at hstart
        cases hstart

/-- Plain text stays plain. -/
theorem Respaced.cut?_eq_none (h : Respaced tail ps t)
    (htail : ∀ c ∈ tail.head?, Text.isBlank c = true) {y : Text} (hy : y ≠ [])
    (hcall : (Call.read? (y ++ t)).isSome → (Call.read? (y ++ ps.flatMap text)).isSome)
    (hprev : prev'.any Text.isWord = prev.any Text.isWord)
    (hnone : cut? prev (y ++ ps.flatMap text) = none) : cut? prev' (y ++ t) = none := by
  obtain ⟨c, y, rfl⟩ := List.exists_cons_of_ne_nil hy
  have hword : (c :: y ++ t).takeWhile Text.isWord =
      (c :: y ++ ps.flatMap text).takeWhile Text.isWord := by
    rw [List.takeWhile_append, List.takeWhile_append, h.takeWhile_isWord htail]
  have hsome : (cut? prev' (c :: y ++ t)).isSome →
      (cut? prev (c :: y ++ ps.flatMap text)).isSome := by
    rw [List.cons_append, List.cons_append, isSome_cut?_cons_iff, isSome_cut?_cons_iff,
      isSome_keyword?_iff, isSome_keyword?_iff, ← List.cons_append, ← List.cons_append, hword, hprev]
    exact Or.imp_right (Or.imp_right (Or.imp_right hcall))
  cases hcut : cut? prev' (c :: y ++ t) with
  | none => rfl
  | some cut =>
    have hsome := hsome (by rw [hcut]; rfl)
    rw [hnone] at hsome
    cases hsome

/-- **Other white space leaves the tokens as they are**, and what follows behind white space is divided
by itself. -/
theorem Respaced.tokens (h : Respaced tail ps t)
    (htail : ∀ c ∈ tail.head?, Text.isBlank c = true) (hdivided : Divided prev s ps)
    (hprev : prev'.any Text.isWord = prev.any Text.isWord) :
    tokens prev' t = ps.filterMap token? ++ tokens none tail := by
  -- The induction is on the new text; the division of the old one gives what each piece is.
  induction h generalizing prev prev' s with
  | nil => exact tokens_of_blank_head htail
  | blank hne hgap hne' hgap' _ ih =>
    cases hdivided with
    | cut _ hrest =>
      rw [tokens_gap_append hgap' fun hnil => absurd hnil hne', List.filterMap_cons_none rfl]
      exact ih hrest (Text.isWord_last_blank hne hgap).symm
  | @paren p _ _ _ _ hbefore hafter _ ih =>
    cases hdivided with
    | cut _ hrest =>
      have hlast : (none : Option Char).any Text.isWord = [p.char].getLast?.any Text.isWord :=
        (Text.isWord_paren p).symm
      rw [tokens_paren_append hbefore hafter, ih hrest hlast]
      rfl
  | @keep p ps t hcalls hps ih =>
    cases hdivided with
    | @cut _ _ r _ _ hp hrest =>
      by_cases hgap : ∃ gap, p = .blank gap
      · obtain ⟨gap, rfl⟩ := hgap
        cases hp with
        | blank hne hgap _ =>
          rw [text, tokens_gap_append hgap fun hnil => absurd hnil hne,
            List.filterMap_cons_none rfl]
          exact ih hrest (Text.isWord_last_blank hne hgap).symm
      · have hword := hps.takeWhile_isWord htail
        rw [hrest.flatMap_text] at hword
        have hcut := hp.append_of_takeWhile (fun gap hp => hgap ⟨gap, hp⟩) hprev hword
        obtain ⟨u, hu⟩ : ∃ u, p.token? = some u := by
          cases p with
          | blank gap => exact absurd ⟨gap, rfl⟩ hgap
          | paren | keyword | call | plain => exact ⟨_, rfl⟩
        rw [tokens_of_cut? (cut?_eq_some_iff.mpr hcut) hu, List.filterMap_cons_some hu,
          ← text_of_token? hu, ih hrest rfl, List.cons_append]
    | @plain _ w r _ hw hnone hnext hrest =>
      have hpieces := hrest.flatMap_text
      have hplain : ∀ a b, w = a ++ b → b ≠ [] → cut? (a.getLast?.or prev') (b ++ t) = none := by
        intro a b hab hb
        have hspot := hnone a b hab hb
        rw [← hpieces] at hspot
        refine hps.cut?_eq_none htail hb (hcalls b ⟨a, hab.symm⟩ hb) ?_ hspot
        cases a.getLast? with
        | none => exact hprev
        | some x => rfl
      have hend := hps.isSome_cut? htail hrest hnext
      rw [text, tokens_plain_append hw hplain hend, ih hrest rfl]
      rfl

/-- All pieces may be kept, if no call in them is completed by what follows. -/
theorem Respaced.of_forall
    (h : ∀ y, y <:+ ps.flatMap text → y ≠ [] → (Call.read? (y ++ tail)).isSome →
      (Call.read? y).isSome) : Respaced tail ps (ps.flatMap text ++ tail) := by
  induction ps with
  | nil => exact .nil
  | cons p ps ih =>
    have hrest : Respaced tail ps (ps.flatMap text ++ tail) :=
      ih fun y hy => h y (hy.trans (List.suffix_append p.text _))
    rw [List.flatMap_cons, List.append_assoc]
    refine .keep (fun y hy hne hread => ?_) hrest
    obtain ⟨x, hx⟩ := hy
    refine h (y ++ ps.flatMap text) ⟨x, ?_⟩ (List.append_ne_nil_of_left_ne_nil hne _) ?_
    · rw [List.flatMap_cons, ← hx, List.append_assoc]
    · rwa [List.append_assoc]

end Piece

/-! ## White space divides -/

namespace Token

/-- **A text is divided at white space in it.** Let no call that starts in `a` be completed only by
the text behind `a`. Then the tokens of `a`, white space and `b` are those of `a` and those of `b`. -/
theorem ofText_append_of_separated {a w b : Text} (hne : w ≠ []) (hw : w.isBlankText)
    (hcalls : ∀ y, y <:+ a → y ≠ [] → (Call.read? (y ++ (w ++ b))).isSome →
      (Call.read? y).isSome) : ofText (a ++ (w ++ b)) = ofText a ++ ofText b := by
  have ha : (Piece.divide none a).flatMap Piece.text = a := Piece.flatMap_text_divide none a
  have hblank : ∀ c ∈ (w ++ b).head?, Text.isBlank c = true := by
    obtain ⟨c, w, rfl, hc⟩ := Text.exists_blank_cons hne hw
    intro d hd
    obtain rfl : c = d := Option.some.inj hd
    exact hc
  have hkept : Piece.Respaced (w ++ b) (Piece.divide none a) (a ++ (w ++ b)) := by
    rw [← ha] at hcalls
    have hall := Piece.Respaced.of_forall hcalls
    rwa [ha] at hall
  calc ofText (a ++ (w ++ b))
      = ofText a ++ Piece.tokens none (w ++ b) :=
        hkept.tokens hblank (Piece.divided_divide none a) rfl
    _ = ofText a ++ ofText b := by
        rw [Piece.tokens_gap_append hw fun hnil => absurd hnil hne]
        rfl

/-- In `contains([A]) or` a call is begun that lacks a value. The text behind it holds `])`, but no
`],`, so it does not complete the call, and its first word is a token of its own. -/
theorem ofText_append_of_separated_begun : ∃ a w b : Text,
    a = "contains([A]) or".toList ∧ w = "\u3000\n".toList ∧ b = " not(isnull([B]))and[C] ".toList ∧
    w.isBlankText ∧
    (∀ y, y <:+ a → y ≠ [] → (Call.read? (y ++ (w ++ b))).isSome → (Call.read? y).isSome) ∧
    ofText (a ++ (w ++ b)) = ofText a ++ ofText b ∧
    (ofText (a ++ (w ++ b))).map (String.ofList ∘ text) =
      ["contains", "(", "[A]", ")", "or", "not", "(", "isnull([B])", ")", "and", "[C]"] := by
  have hcalls : ∀ y, y <:+ "contains([A]) or".toList → y ≠ [] →
      (Call.read? (y ++ ("\u3000\n".toList ++ " not(isnull([B]))and[C] ".toList))).isSome →
      (Call.read? y).isSome := by
    have htails : ∀ y ∈ "contains([A]) or".toList.tails, y ≠ [] →
        (Call.read? (y ++ ("\u3000\n".toList ++ " not(isnull([B]))and[C] ".toList))).isSome →
        (Call.read? y).isSome := by decide +kernel
    exact fun y hy => htails y ((List.mem_tails y _).mpr hy)
  have hsplit := ofText_append_of_separated (List.cons_ne_nil _ _)
    (show Text.isBlankText "\u3000\n".toList by decide) hcalls
  exact ⟨_, _, _, rfl, rfl, rfl, by decide, hcalls, hsplit, by decide +kernel⟩

end Token

end Criteria
