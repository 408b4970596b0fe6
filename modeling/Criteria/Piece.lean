/-
The division of a criterion into pieces, and its tokens.

From left to right, four kinds of piece are cut out of the text wherever they start: a keyword
that stands as a whole word, a parenthesis, a run of white space, and a predicate call. What lies
between two cuts is plain text. At a place where several could start the order above decides.
Whether a keyword is a whole word depends on the character before it, which may belong to a piece
that is already cut off, so the division carries that character along.

Every piece keeps the text it was cut from. Hence the pieces give the text back
(`flatMap_text_divide`). The tokens are the pieces other than white space.
-/
import Criteria.Text.Word
import Criteria.Token

set_option autoImplicit false

namespace Criteria

/-- A piece of a criterion. -/
inductive Piece where
  | blank (run : Text)
  | paren (p : Paren)
  | keyword (c : Connective) (word : Text)
  | call (c : Call)
  | plain (text : Text)
  deriving DecidableEq

namespace Piece

/-- The text of a piece. -/
def text : Piece → Text
  | .blank run => run
  | .paren p => [p.char]
  | .keyword _ word => word
  | .call c => c.text
  | .plain text => text

/-- The token of a piece; white space has none. -/
def token? : Piece → Option Token
  | .blank _ => none
  | p => some ⟨p.text⟩

/-! ## Cuts -/

/-- Reads a keyword that is followed by no character of a word. -/
def readKeyword? (s : Text) (c : Connective) : Option (Piece × Text) :=
  match Text.spelled? c.keyword s with
  | some (word, r) => if r.head?.any Text.isWord then none else some (.keyword c word, r)
  | none => none

/-- Cuts a keyword off the start of a text, unless the character before it belongs to a word. -/
def keyword? (prev : Option Char) (s : Text) : Option (Piece × Text) :=
  if prev.any Text.isWord then none else Connective.all.findSome? (readKeyword? s)

/-- Cuts a parenthesis off the start of a text. -/
def paren? : Text → Option (Piece × Text)
  | [] => none
  | c :: s => (Paren.ofChar? c).map fun p => (.paren p, s)

/-- Cuts the longest run of white space off the start of a text. -/
def blank? : Text → Option (Piece × Text)
  | [] => none
  | c :: s =>
    if Text.isBlank c then
      some (.blank (c :: s.takeWhile Text.isBlank), s.dropWhile Text.isBlank)
    else none

/-- Cuts a predicate call off the start of a text. -/
def call? (s : Text) : Option (Piece × Text) := (Call.read? s).map fun (c, r) => (.call c, r)

/-- Cuts a piece that is not plain text off the start of a text that stands after `prev`: the
piece, and the text after it. -/
def cut? (prev : Option Char) (s : Text) : Option (Piece × Text) :=
  match keyword? prev s with
  | some cut => some cut
  | none =>
    match paren? s with
    | some cut => some cut
    | none =>
      match blank? s with
      | some cut => some cut
      | none => call? s

/-- What a cut promises: the piece is nonempty, and with the text after it gives the text back. -/
def IsCut (s : Text) (cut : Piece × Text) : Prop := s = cut.1.text ++ cut.2 ∧ cut.1.text ≠ []

theorem isCut_of_keyword? {prev : Option Char} {s : Text} {cut : Piece × Text}
    (h : keyword? prev s = some cut) : IsCut s cut := by
  unfold keyword? at h
  split at h
  · simp at h
  · obtain ⟨c, _, hc⟩ := List.exists_of_findSome?_eq_some h
    unfold readKeyword? at hc
    split at hc
    · rename_i word r hspelled
      obtain ⟨rfl, hlower⟩ := Text.spelled?_eq_some_iff.mp hspelled
      split at hc
      · simp at hc
      · obtain rfl := Option.some.inj hc
        refine ⟨rfl, fun hnil => ?_⟩
        obtain rfl : word = [] := hnil
        cases c <;> simp [Text.lower, Connective.keyword] at hlower
    · simp at hc

theorem isCut_of_paren? {s : Text} {cut : Piece × Text} (h : paren? s = some cut) :
    IsCut s cut := by
  cases s with
  | nil => simp [paren?] at h
  | cons c s =>
    obtain ⟨p, hp, rfl⟩ := Option.map_eq_some_iff.mp h
    simp [IsCut, text, Paren.ofChar?_eq_some_iff.mp hp]

theorem isCut_of_blank? {s : Text} {cut : Piece × Text} (h : blank? s = some cut) :
    IsCut s cut := by
  cases s with
  | nil => simp [blank?] at h
  | cons c s =>
    simp only [blank?] at h
    split at h
    · obtain rfl := Option.some.inj h
      simp [IsCut, text, List.takeWhile_append_dropWhile]
    · simp at h

theorem isCut_of_call? {s : Text} {cut : Piece × Text} (h : call? s = some cut) :
    IsCut s cut := by
  obtain ⟨⟨c, r⟩, hread, rfl⟩ := Option.map_eq_some_iff.mp h
  exact ⟨Call.text_append_of_read? hread, Call.text_ne_nil c⟩

theorem isCut_of_cut? {prev : Option Char} {s : Text} {cut : Piece × Text}
    (h : cut? prev s = some cut) : IsCut s cut := by
  unfold cut? at h
  split at h
  · rename_i hkeyword
    exact isCut_of_keyword? (h ▸ hkeyword)
  · split at h
    · rename_i hparen
      exact isCut_of_paren? (h ▸ hparen)
    · split at h
      · rename_i hblank
        exact isCut_of_blank? (h ▸ hblank)
      · exact isCut_of_call? h

/-- A cut leaves less text than there was. -/
theorem length_lt_of_cut? {prev : Option Char} {s r : Text} {p : Piece}
    (h : cut? prev s = some (p, r)) : r.length < s.length := by
  obtain ⟨hs, hne⟩ := isCut_of_cut? h
  have := List.length_pos_iff.mpr hne
  simp only at hs this
  simp only [hs, List.length_append]
  omega

/-! ## Division -/

/-- Puts a character of plain text in front of the pieces that follow it. -/
def prepend (c : Char) : List Piece → List Piece
  | .plain text :: ps => .plain (c :: text) :: ps
  | ps => .plain [c] :: ps

/-- The pieces of a text that stands after `prev`. -/
def divide (prev : Option Char) (s : Text) : List Piece :=
  match s with
  | [] => []
  | c :: s' =>
    match h : cut? prev (c :: s') with
    | some (p, r) =>
      have : r.length < (c :: s').length := length_lt_of_cut? h
      p :: divide p.text.getLast? r
    | none => prepend c (divide (some c) s')
termination_by s.length
decreasing_by
  · exact this
  · exact Nat.lt_succ_self _

@[simp] theorem flatMap_text_prepend (c : Char) (ps : List Piece) :
    (prepend c ps).flatMap text = c :: ps.flatMap text := by
  unfold prepend
  split <;> simp [text]

/-- The pieces of a text give the text back. -/
theorem flatMap_text_divide (prev : Option Char) (s : Text) :
    (divide prev s).flatMap text = s := by
  fun_induction divide prev s with
  | case1 => rfl
  | case2 prev c s p r hcut _ ih => simp [ih, (isCut_of_cut? hcut).1]
  | case3 prev c s hcut ih => simp [ih]

end Piece

/-! ## Tokens -/

namespace Token

/-- The tokens of a criterion are its pieces other than white space. -/
def ofText (s : Text) : List Token := (Piece.divide none s).filterMap Piece.token?

end Token

end Criteria
