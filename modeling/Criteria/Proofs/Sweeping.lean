/-
A sweep over the bytes of a criterion is never at fault, and it finds the tokens of the criterion.

Between two parts of a text the cuts of the sweep are the cuts of the division (`Cut.next_between`): the
sweep looks for the same pieces in the same order, with offsets in place of texts, and an offset that it
hands on is always the number of bytes of a piece. So before each turn the text falls into three parts:
what ends with the last cut, plain text that has been passed since, and what lies ahead (`Sweep.Stage`).
A turn keeps this division and takes something from the third part (`Sweep.Stage.exists_turn`). From
this follow the safety of every turn, the end of the loop and the tokens that it returns.
-/
import Criteria.Proofs.Offsets
import Criteria.Proofs.Pieces
import Criteria.Sweep

set_option autoImplicit false

namespace Criteria

open Text (Fault Cursor)

/-! ## Readers in a row -/

/-- If a reader of bytes finds what a reader of texts finds, and the two go on in the same way from
there, then they find the same in the end. -/
theorem bind_eq_ok {α α' β β' : Type} {x : Except Fault (Option α)} {o : Option α'} {f : α' → α}
    {g : Option α → Except Fault (Option β)} {h : α' → Option β'} {j : β' → β}
    (hx : x = .ok (o.map f)) (hnone : g none = .ok none)
    (hsome : ∀ y, o = some y → g (some (f y)) = .ok ((h y).map j)) :
    (x >>= g) = .ok ((o >>= h).map j) := by
  rw [hx, Text.ok_bind]
  cases o with
  | none => exact hnone
  | some y => exact hsome y rfl

/-- If a reader of bytes finds what a reader of texts finds whatever it looks for, then so it does
when it looks for one thing after another. -/
theorem findSomeM?_eq_ok {α β β' : Type} {g : α → Except Fault (Option β)} {h : α → Option β'}
    {j : β' → β} (hg : ∀ x, g x = .ok ((h x).map j)) (xs : List α) :
    xs.findSomeM? g = .ok ((xs.findSome? h).map j) := by
  rw [show g = fun x => pure ((h x).map j) from funext hg, List.findSomeM?_pure, List.map_findSome?]
  rfl

/-! ## Lengths and edges -/

namespace Text

/-- A part of a text is as long as the way between its two ends. -/
theorem byteSize_append_sub (a w : Text) : byteSize (a ++ w) - byteSize a = byteSize w := by
  rw [byteSize_append, Nat.add_sub_cancel_left]

theorem dropWhile_eq_self {p : Char → Bool} {s : Text} (h : s.head?.any p = false) :
    s.dropWhile p = s := by
  cases s with
  | nil => rfl
  | cons c s =>
    have hc : p c = false := h
    exact List.dropWhile_cons_of_neg (Bool.eq_false_iff.mp hc)

theorem trim_dropWhile (p : Char → Bool) (s : Text) : trim p (s.dropWhile p) = s.trim p := by
  rw [trim, dropWhile_eq_self (head?_dropWhile p s), trim]

theorem Trimmed.trim_eq {s : Text} (h : s.Trimmed) : s.trim isBlank = s := by
  rw [trim, dropWhile_eq_self h.head]
  refine trimEnd_eq_self fun c hc => ?_
  have hlast := h.last
  rwa [hc] at hlast

/-- Before a separator that does not start with white space, white space can be skipped. -/
theorem before?_dropWhile {l : Char} (hl : isBlank l = false) (lit s : Text) :
    before? (l :: lit) (s.dropWhile isBlank) =
      (before? (l :: lit) s).map fun p => (p.1.dropWhile isBlank, p.2) := by
  induction s with
  | nil => rfl
  | cons c s ih =>
    by_cases hc : isBlank c = true
    · have hne : c ≠ l := by
        rintro rfl
        rw [hl] at hc
        cases hc
      rw [List.dropWhile_cons_of_pos hc, ih, before?_cons_of_ne hne, Option.map_map]
      congr 1
      funext p
      exact congrArg (·, p.2) (List.dropWhile_cons_of_pos hc).symm
    · rw [List.dropWhile_cons_of_neg hc, before?]
      cases after? (l :: lit) (c :: s) with
      | some r => rfl
      | none =>
        simp only [Option.map_map]
        congr 1
        funext p
        exact congrArg (·, p.2) (List.dropWhile_cons_of_neg hc).symm

/-- The white space that is skipped in front is part of what stands before the separator. -/
theorem takeWhile_append_of_before? {l : Char} (hl : isBlank l = false) {lit s w r : Text}
    (h : before? (l :: lit) s = some (w, r)) : s.takeWhile isBlank ++ w.dropWhile isBlank = w := by
  have hdrop := before?_dropWhile hl lit s
  rw [h] at hdrop
  have hs : s.takeWhile isBlank ++ (w.dropWhile isBlank ++ l :: lit ++ r) = w ++ l :: lit ++ r := by
    rw [← eq_of_before? hdrop, ← eq_of_before? h, List.takeWhile_append_dropWhile]
  rw [← List.append_assoc, ← List.append_assoc] at hs
  exact List.append_cancel_right (List.append_cancel_right hs)

end Text

/-! ## Calls -/

namespace Found

open Text

/-- What is found of a call. -/
def ofCall (c : Call) : Found := ⟨c.predicate, c.field, c.value, c.text.byteSize⟩

theorem bare_between {p : Predicate} (hvalue : p.takesValue = false) (a name b : Text) :
    bare p (byteSize a) (.between (a ++ name ++ "([".toList) b) =
      .ok ((before? "])".toList b).map fun q => ofCall ⟨p, name, q.1, []⟩) := by
  have hbracket : Literal "])".toList := rfl
  rw [bare, Cursor.captureUntil_between hbracket (by decide), ok_bind]
  cases before? "])".toList b with
  | none => rfl
  | some q =>
    simp only [Option.map_some, Cursor.orStay_consume hbracket, ok_bind]
    have hstop : a ++ name ++ "([".toList ++ q.1 ++ "])".toList =
        a ++ (Call.mk p name q.1 []).text := by
      rw [Call.text, if_neg (Bool.eq_false_iff.mp hvalue)]
      simp only [List.append_assoc]
    rw [hstop]
    exact congrArg (fun n => Except.ok (some (Found.mk p q.1 [] n))) (byteSize_append_sub a _)

/-- The white space that is skipped is trimmed off the value in any case, and it counts for the length
as part of the argument. -/
theorem valued_between {p : Predicate} (hvalue : p.takesValue = true) (a name b : Text) :
    valued p (byteSize a) (.between (a ++ name ++ "([".toList) b) =
      .ok (before? "],".toList b >>= fun q =>
        (before? ")".toList q.2).map fun q' => ofCall ⟨p, name, q.1, q'.1⟩) := by
  have hcomma : Literal "],".toList := rfl
  have hclosing : Literal [')'] := rfl
  have hblank : isBlank ')' = false := by decide
  rw [valued, Cursor.captureUntil_between hcomma (by decide), ok_bind,
    show ")".toList = [')'] from rfl]
  cases before? "],".toList b with
  | none => rfl
  | some q =>
    simp only [Option.map_some, Cursor.orStay_consume hcomma, ok_bind, Cursor.skipBlank_between,
      Cursor.captureUntil_between hclosing (List.cons_ne_nil ')' []), before?_dropWhile hblank]
    show _ = Except.ok (Option.map _ (before? [')'] q.2))
    cases hargument : before? [')'] q.2 with
    | none => rfl
    | some q' =>
      simp only [Option.map_some, List.singleton_append, Cursor.orStay_consumeChar, ok_bind,
        trim_dropWhile]
      have hstop : a ++ name ++ "([".toList ++ q.1 ++ "],".toList ++ q'.1 ++ [')'] =
          a ++ (Call.mk p name q.1 q'.1).text := by
        rw [Call.text, if_pos hvalue]
        simp only [List.append_assoc]
        rfl
      rw [List.append_assoc _ (List.takeWhile _ _), takeWhile_append_of_before? hblank hargument,
        hstop]
      exact congrArg (fun n => Except.ok (some (Found.mk p q.1 _ n))) (byteSize_append_sub a _)

theorem literal_name (p : Predicate) : Literal p.name := by cases p <;> rfl

/-- Between two parts of a text, a form is found where a call of it can be read. -/
theorem form_between (p : Predicate) (a b : Text) :
    form (.between a b) p = .ok ((Call.readOf? p b).map fun q => ofCall q.1) := by
  refine bind_eq_ok (Cursor.consume_between (literal_name p) a b) rfl fun (name, s₁) _ => ?_
  have hbracket : Literal "([".toList := rfl
  have hopening := Cursor.consume_between hbracket (a ++ name) s₁
  rw [spelled?_eq_after? (by decide), Option.map_map] at hopening
  refine bind_eq_ok hopening rfl fun s₂ _ => ?_
  dsimp only [Function.comp_apply]
  split
  · rename_i hvalue
    refine (valued_between hvalue a name s₂).trans ?_
    cases before? "],".toList s₂ with
    | none => rfl
    | some q =>
      show Except.ok (Option.map _ (before? ")".toList q.2)) =
        Except.ok (Option.map _ (Option.bind (before? ")".toList q.2) _))
      cases before? ")".toList q.2 <;> rfl
  · rename_i hvalue
    refine (bare_between (Bool.eq_false_iff.mpr hvalue) a name s₂).trans ?_
    cases before? "])".toList s₂ <;> rfl

theorem call_between (a b : Text) :
    call (.between a b) = .ok ((Call.read? b).map fun q => ofCall q.1) :=
  findSomeM?_eq_ok (fun p => form_between p a b) Predicate.all

end Found

/-! ## Cuts -/

namespace Cut

open Text

/-- The cut that a piece is. -/
def ofPiece : Piece → Cut
  | .blank run => .separator run.byteSize
  | p => .token p.text.byteSize

theorem length_ofPiece (p : Piece) : (ofPiece p).length = p.text.byteSize := by cases p <;> rfl

theorem literal_keyword (c : Connective) : Literal c.keyword := by cases c <;> rfl

theorem keywordOf_between (a b : Text) (c : Connective) :
    keywordOf (.between a b) c =
      .ok ((Piece.readKeyword? b c).map fun q => q.1.text.byteSize) := by
  rw [keywordOf, Cursor.peek_between (literal_keyword c), ok_bind, Piece.readKeyword?]
  cases hread : spelled? c.keyword b with
  | none => rfl
  | some q =>
    obtain ⟨w, r⟩ := q
    obtain ⟨rfl, hw⟩ := spelled?_eq_some_iff.mp hread
    have hsize : byteSize c.keyword = byteSize w := by rw [← hw, byteSize_lower]
    have hslice : slice (w ++ r) (byteSize w) (byteSize (w ++ r)) = .ok r := by
      have hbehind := slice_append w r []
      rwa [List.append_nil, ← byteSize_append] at hbehind
    simp only [Option.isSome_some, if_true, Cursor.rest_between, ok_bind, hsize, hslice]
    split <;> rfl

theorem keyword_between (a b : Text) :
    keyword (.between a b) = .ok ((Piece.keyword? a.getLast? b).map fun q => q.1.text.byteSize) := by
  rw [keyword, Cursor.previous_between, ok_bind, Piece.keyword?]
  split
  · rfl
  · exact findSomeM?_eq_ok (keywordOf_between a b) Connective.all

/-- **Between two parts of a text, the sweep cuts where the division cuts.** -/
theorem next_between (a b : Text) :
    next (.between a b) = .ok ((Piece.cut? a.getLast? b).map fun q => ofPiece q.1) := by
  rw [next, keyword_between, ok_bind, Piece.cut?]
  cases hkeyword : Piece.keyword? a.getLast? b with
  | some q =>
    obtain ⟨p, r⟩ := q
    obtain ⟨c, w, rfl, -⟩ := Piece.keyword?_eq_some_iff.mp hkeyword
    rfl
  | none =>
    simp only [Option.map_none, Cursor.next_between, ok_bind]
    cases b with
    | nil => rfl
    | cons c s =>
      simp only [List.head?_cons]
      cases hparen : Paren.ofChar? c with
      | some p =>
        have hsize : byteSize [p.char] = 1 := by cases p <;> rfl
        rw [Piece.paren?, hparen, Option.isSome_some, if_pos rfl]
        show _ = Except.ok (some (Cut.token (byteSize [p.char])))
        rw [hsize]
        rfl
      | none =>
        rw [Piece.paren?_eq_none_of_cons hparen, Option.isSome_none, if_neg Bool.false_ne_true]
        by_cases hblank : isBlank c = true
        · rw [if_pos hblank, Piece.blank?, if_pos hblank, Cursor.skipBlank_between, ok_bind,
            List.takeWhile_cons_of_pos hblank]
          exact congrArg (fun n => Except.ok (some (Cut.separator n))) (byteSize_append_sub a _)
        · rw [if_neg hblank, Piece.blank?, if_neg hblank, Found.call_between, ok_bind, Piece.call?,
            Option.map_map, Option.map_map]
          rfl

end Cut

/-! ## Plain text that has been passed -/

namespace Piece

/-- The pieces that plain text is by itself. -/
def passed (w : Text) : List Piece := if w = [] then [] else [.plain w]

/-- Characters that are put in front of anything but plain text become a piece of their own. -/
theorem foldr_prepend {ps : List Piece} (h : ∀ t, ps.head? ≠ some (.plain t)) (w : Text) :
    w.foldr prepend ps = passed w ++ ps := by
  induction w with
  | nil => rfl
  | cons c w ih =>
    rw [List.foldr_cons, ih]
    cases w with
    | cons x w => rfl
    | nil =>
      cases ps with
      | nil => rfl
      | cons p ps =>
        cases p with
        | plain t => exact absurd rfl (h t)
        | blank | paren | keyword | call => rfl

theorem Cut.ne_plain {prev : Option Char} {s r : Text} {p : Piece} (h : Cut prev s p r) (t : Text) :
    p ≠ .plain t := by
  rintro rfl
  cases h

end Piece

namespace Sweep

open Text

theorem push_of_trimmed {w : Text} (h : w.Trimmed) (ts : List Token) : push ts w = ts ++ [⟨w⟩] := by
  rw [push, h.trim_eq, if_neg h.ne_nil]

/-- Plain text that has been passed is pushed as its token. -/
theorem push_passed {w : Text} (h : ∀ c ∈ w, isBlank c = false) (ts : List Token) :
    push ts w = ts ++ (Piece.passed w).filterMap Piece.token? := by
  by_cases hw : w = []
  · subst hw
    exact (List.append_nil ts).symm
  · rw [push_of_trimmed (.of_forall hw h), Piece.passed, if_neg hw]
    rfl

/-- What is cut off is pushed as its token, if it has one. -/
theorem push_token? {p : Piece} (h : p.Sound) (a r : Text) (ts : List Token) :
    ∃ piece, (Cut.ofPiece p).piece (.between a (p.text ++ r)) = .ok piece ∧
      push ts piece = ts ++ p.token?.toList := by
  have hslice : (Cut.token p.text.byteSize).piece (.between a (p.text ++ r)) = .ok p.text :=
    slice_append a p.text r
  cases p with
  | blank run => exact ⟨[], rfl, (List.append_nil ts).symm⟩
  | paren | keyword | call | plain => exact ⟨_, hslice, push_of_trimmed h ts⟩

/-! ## Turns -/

/-- Where a sweep is before a turn: the text `a` ends with the last cut, the text `w` that follows is
plain and has been passed, and `b` is to be read. -/
structure Stage (s : Text) (st : Sweep) (a w b : Text) : Prop where
  text : s = a ++ w ++ b
  cursor : st.cursor = .between (a ++ w) b
  pending : st.pending = byteSize a
  solid : ∀ c ∈ w, isBlank c = false
  tokens : Token.ofText s =
    st.tokens ++ (w.foldr Piece.prepend (Piece.divide (a ++ w).getLast? b)).filterMap Piece.token?

namespace Stage

variable {s : Text} {st : Sweep} {a w b : Text}

theorem start (s : Text) : Stage s (.start s) [] [] s where
  text := rfl
  cursor := rfl
  pending := rfl
  solid := List.forall_mem_nil _
  tokens := rfl

theorem text_eq (h : Stage s st a w b) : st.cursor.text = s := by
  rw [h.cursor, h.text]
  rfl

theorem pos_eq (h : Stage s st a w b) : st.cursor.pos = byteSize (a ++ w) := by
  rw [h.cursor]
  rfl

theorem size_eq (h : Stage s st a w b) : byteSize s = st.cursor.pos + byteSize b := by
  rw [h.pos_eq, ← byteSize_append, ← h.text]

theorem atEnd_iff (h : Stage s st a w b) : st.cursor.atEnd = true ↔ b = [] := by
  rw [Cursor.atEnd, decide_eq_true_iff, h.text_eq, h.size_eq]
  constructor
  · intro hle
    by_contra hb
    have hpos : 0 < byteSize b := byteSize_pos hb
    omega
  · rintro rfl
    exact Nat.le_refl _

theorem ne_nil (h : Stage s st a w b) (hend : st.cursor.atEnd = false) : b ≠ [] := by
  intro hb
  rw [h.atEnd_iff.mpr hb] at hend
  cases hend

/-- Where nothing is cut off, the next character is passed. -/
theorem pass {c : Char} (h : Stage s st a w (c :: b))
    (hcut : Piece.cut? (a ++ w).getLast? (c :: b) = none) :
    ∃ next, st.turn = .ok next ∧ Stage s next a (w ++ [c]) b := by
  have hturn : st.turn = .ok ⟨.between (a ++ w ++ [c]) b, st.pending, st.tokens⟩ := by
    simp only [turn, h.cursor, Cut.next_between, hcut, Option.map_none, ok_bind, Cursor.orStay_bump]
    rfl
  -- White space would have been cut off.
  have hc : isBlank c = false := by
    by_contra hblank
    rw [Bool.not_eq_false] at hblank
    rw [Piece.cut?_of_isBlank hblank] at hcut
    cases hcut
  refine ⟨_, hturn, ?_, ?_, h.pending, ?_, ?_⟩
  · rw [h.text]
    simp only [List.append_assoc, List.singleton_append]
  · rw [← List.append_assoc]
  · exact List.forall_mem_append.mpr ⟨h.solid, List.forall_mem_singleton.mpr hc⟩
  · rw [h.tokens, Piece.divide_of_cut?_eq_none hcut, List.foldr_append, ← List.append_assoc,
      List.getLast?_concat]
    rfl

/-- Where a piece is cut off, the text that has been passed ends. -/
theorem cut {p : Piece} {r : Text} (h : Stage s st a w b)
    (hcut : Piece.cut? (a ++ w).getLast? b = some (p, r)) :
    ∃ next, st.turn = .ok next ∧ Stage s next (a ++ w ++ p.text) [] r := by
  have hp := Piece.cut?_eq_some_iff.mp hcut
  have hne : p.text ≠ [] := (Piece.isCut_of_cut? hcut).2
  obtain rfl : b = p.text ++ r := (Piece.isCut_of_cut? hcut).1
  have hpassed : slice (a ++ w ++ (p.text ++ r)) st.pending (byteSize (a ++ w)) = .ok w := by
    rw [h.pending, byteSize_append, List.append_assoc, slice_append]
  obtain ⟨piece, hpiece, hpush⟩ := push_token? hp.sound (a ++ w) r (push st.tokens w)
  have hturn : st.turn = .ok ⟨.between (a ++ w ++ p.text) r, byteSize (a ++ w ++ p.text),
      push (push st.tokens w) piece⟩ := by
    simp only [turn, h.cursor, Cut.next_between, hcut, Option.map_some, ok_bind, hpiece,
      Cut.length_ofPiece, Cursor.advance_between]
    show (slice (a ++ w ++ (p.text ++ r)) st.pending (byteSize (a ++ w)) >>= _) = _
    rw [hpassed]
    rfl
  refine ⟨_, hturn, ?_, ?_, rfl, List.forall_mem_nil _, ?_⟩
  · rw [h.text, List.append_nil, List.append_assoc _ p.text]
  · rw [List.append_nil]
  · have hplain : ∀ t, (p :: Piece.divide p.text.getLast? r).head? ≠ some (.plain t) := by
      intro t ht
      exact hp.ne_plain t (Option.some.inj ht)
    rw [h.tokens, Piece.divide_of_cut? hcut, Piece.foldr_prepend hplain, hpush, push_passed h.solid,
      List.append_nil, List.getLast?_append_of_ne_nil _ hne, List.filterMap_append,
      List.filterMap_cons]
    cases p.token? with
    | none => simp
    | some t => simp

/-- **A turn keeps the division and moves the cursor forward.** -/
theorem exists_turn (h : Stage s st a w b) (hb : b ≠ []) :
    ∃ next, st.turn = .ok next ∧ (∃ a' w' b', Stage s next a' w' b') ∧
      st.cursor.pos < next.cursor.pos := by
  cases hcut : Piece.cut? (a ++ w).getLast? b with
  | none =>
    obtain ⟨c, b, rfl⟩ := List.exists_cons_of_ne_nil hb
    obtain ⟨next, hturn, hnext⟩ := h.pass hcut
    refine ⟨next, hturn, ⟨_, _, _, hnext⟩, ?_⟩
    have hc : 0 < byteSize [c] := byteSize_pos (List.cons_ne_nil c [])
    rw [h.pos_eq, hnext.pos_eq, ← List.append_assoc, byteSize_append _ [c]]
    omega
  | some q =>
    obtain ⟨p, r⟩ := q
    obtain ⟨next, hturn, hnext⟩ := h.cut hcut
    refine ⟨next, hturn, ⟨_, _, _, hnext⟩, ?_⟩
    have hp : 0 < byteSize p.text := byteSize_pos (Piece.isCut_of_cut? hcut).2
    rw [h.pos_eq, hnext.pos_eq, List.append_nil, byteSize_append _ p.text]
    omega

/-- What is cut off has a length, and a boundary behind it. -/
theorem boundary_of_cut? {p : Piece} {r : Text} (h : Stage s st a w b)
    (hcut : Piece.cut? (a ++ w).getLast? b = some (p, r)) :
    1 ≤ (Cut.ofPiece p).length ∧ s.Boundary (st.cursor.pos + (Cut.ofPiece p).length) := by
  obtain ⟨hb, hne⟩ := Piece.isCut_of_cut? hcut
  rw [Cut.length_ofPiece]
  refine ⟨byteSize_pos hne, a ++ w ++ p.text, r, ?_, ?_⟩
  · rw [h.text, hb, ← List.append_assoc]
  · rw [byteSize_append _ p.text, h.pos_eq]

/-- At the end, what has been passed is the last token. -/
theorem finish (h : Stage s st a w []) : st.finish = .ok (Token.ofText s) := by
  have hpassed : slice (a ++ w ++ []) st.pending (byteSize (a ++ w ++ [])) = .ok w := by
    rw [h.pending, List.append_nil, byteSize_append]
    simpa using slice_append a w []
  have hplain : ∀ t, ([] : List Piece).head? ≠ some (.plain t) := fun t ht => by cases ht
  rw [h.tokens, Piece.divide, Piece.foldr_prepend hplain, List.append_nil, ← push_passed h.solid,
    Sweep.finish, h.cursor]
  show (slice (a ++ w ++ []) st.pending (byteSize (a ++ w ++ [])) >>= _) = _
  rw [hpassed]
  rfl

/-- **From every stage on, the sweep ends, and it ends with the tokens of the text.** The induction is
on what is left to be read. -/
theorem run (h : Stage s st a w b) : st.run = .ok (Token.ofText s) := by
  induction hn : st.cursor.left using Nat.strongRecOn generalizing st a w b with
  | ind n ih =>
    rw [Sweep.run]
    by_cases hb : b = []
    · subst hb
      rw [if_pos (h.atEnd_iff.mpr rfl), h.finish]
    · rw [if_neg (mt h.atEnd_iff.mp hb)]
      obtain ⟨next, hturn, ⟨a', w', b', hnext⟩, hpos⟩ := h.exists_turn hb
      have hleft : next.cursor.left < st.cursor.left := by
        have hsize := h.size_eq
        have hsize' := hnext.size_eq
        rw [Cursor.left, Cursor.left, h.text_eq, hnext.text_eq]
        omega
      simp only [hturn, hleft, if_true]
      exact ih _ (hn ▸ hleft) hnext rfl

end Stage

theorem Reached.exists_stage {s : Text} {st : Sweep} (h : Reached s st) :
    ∃ a w b, Stage s st a w b := by
  induction h with
  | start => exact ⟨_, _, _, .start s⟩
  | turn _ hend hturn ih =>
    obtain ⟨a, w, b, hstage⟩ := ih
    obtain ⟨next, hturn', hnext, -⟩ := hstage.exists_turn (hstage.ne_nil hend)
    rw [hturn'] at hturn
    exact Except.ok.inj hturn ▸ hnext

/-! ## Safety -/

/-- What makes a state of a sweep over the text `s` safe. -/
structure Safe (s : Text) (st : Sweep) : Prop where
  text : st.cursor.text = s
  /-- The offset behind the last cut is not past the cursor, and the cursor is not past the end. -/
  pending_le : st.pending ≤ st.cursor.pos
  pos_le : st.cursor.pos ≤ s.byteSize
  /-- Both offsets are boundaries. -/
  pending_boundary : s.Boundary st.pending
  pos_boundary : s.Boundary st.cursor.pos
  /-- No reader is at fault here. -/
  keyword : ∃ n, Cut.keyword st.cursor = .ok n
  form : ∀ p, ∃ found, Found.form st.cursor p = .ok found
  /-- A cut has a length, and it ends at a boundary in the text. -/
  cut : ∃ cut, Cut.next st.cursor = .ok cut ∧ ∀ c ∈ cut, 1 ≤ c.length ∧
    st.cursor.pos + c.length ≤ s.byteSize ∧ s.Boundary (st.cursor.pos + c.length)
  /-- The next turn is not at fault, and it moves the cursor forward. -/
  turn : st.cursor.atEnd = false → ∃ next, st.turn = .ok next ∧ st.cursor.pos < next.cursor.pos
  /-- At the end nothing is at fault either. -/
  finish : st.cursor.atEnd = true → ∃ ts, st.finish = .ok ts

theorem Stage.safe {s : Text} {st : Sweep} {a w b : Text} (h : Stage s st a w b) : Safe s st where
  text := h.text_eq
  pending_le := by
    rw [h.pending, h.pos_eq, byteSize_append]
    exact Nat.le_add_right _ _
  pos_le := by
    rw [h.size_eq]
    exact Nat.le_add_right _ _
  pending_boundary := ⟨a, w ++ b, by rw [h.text, List.append_assoc], h.pending.symm⟩
  pos_boundary := ⟨a ++ w, b, h.text, h.pos_eq.symm⟩
  keyword := ⟨_, h.cursor ▸ Cut.keyword_between (a ++ w) b⟩
  form := fun p => ⟨_, h.cursor ▸ Found.form_between p (a ++ w) b⟩
  cut := by
    refine ⟨_, h.cursor ▸ Cut.next_between (a ++ w) b, fun c hc => ?_⟩
    obtain ⟨⟨p, r⟩, hcut, rfl⟩ := Option.map_eq_some_iff.mp hc
    obtain ⟨hpos, hend⟩ := h.boundary_of_cut? hcut
    exact ⟨hpos, hend.le, hend⟩
  turn := by
    intro hend
    obtain ⟨next, hturn, -, hpos⟩ := h.exists_turn (h.ne_nil hend)
    exact ⟨next, hturn, hpos⟩
  finish := by
    intro hend
    obtain rfl := h.atEnd_iff.mp hend
    exact ⟨_, h.finish⟩

end Sweep

namespace Token

/-- **A sweep is safe, and it finds the tokens.** Of every text, the sweep comes to its end without a
fault and returns the tokens of the text. In every state on the way the offsets are boundaries in the
text and stand the right way round, no reader is at fault, whatever is cut off has a length and ends at
a boundary, and the turn moves the cursor forward. -/
theorem sweep_safe (s : Text) :
    sweep s = .ok (ofText s) ∧ ∀ st, Sweep.Reached s st → Sweep.Safe s st := by
  refine ⟨(Sweep.Stage.start s).run, fun st hst => ?_⟩
  obtain ⟨a, w, b, hstage⟩ := hst.exists_stage
  exact hstage.safe

/-- Characters of two bytes before a space and in a call, and white space of three bytes before a
keyword: the first turn passes both bytes of the first character. -/
theorem sweep_safe_wide : ∃ (s : Text) (st : Sweep), s = "é isnull([ñ])\u3000AND".toList ∧
    ¬ s.Boundary 1 ∧ st.cursor.pos = 2 ∧ Sweep.Reached s st ∧ Sweep.Safe s st ∧
    sweep s = .ok (["é", "isnull([ñ])", "AND"].map (mk ∘ String.toList)) := by
  have hturn : (Sweep.start "é isnull([ñ])\u3000AND".toList).turn =
      .ok ⟨⟨"é isnull([ñ])\u3000AND".toList, 2⟩, 0, []⟩ := by decide +kernel
  have htokens : ofText "é isnull([ñ])\u3000AND".toList =
      ["é", "isnull([ñ])", "AND"].map (mk ∘ String.toList) := by decide +kernel
  have hreached : Sweep.Reached "é isnull([ñ])\u3000AND".toList _ := .turn .start (by decide) hturn
  obtain ⟨hsweep, hsafe⟩ := sweep_safe "é isnull([ñ])\u3000AND".toList
  exact ⟨_, _, rfl, by decide, rfl, hreached, hsafe _ hreached, htokens ▸ hsweep⟩

end Token

end Criteria
