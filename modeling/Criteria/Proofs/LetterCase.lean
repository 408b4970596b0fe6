/-
Reading a text in lower case. A reader looks at letters in two ways only: as characters of words,
which a letter is in both cases, and as the letters of a keyword or of the name of a predicate, which
it takes in either case. What else it looks for is no letter, and lower case leaves it alone.

So every reader commutes with `lower`, up to the division of a whole text: the pieces of a text in
lower case are the pieces of the text, each of them in lower case (`Piece.divide_lower`), and they
stand in the same places (`Token.places_lower`).
-/
import Criteria.Proofs.Places

set_option autoImplicit false

namespace Criteria

namespace Text

/-! ## Characters -/

/-- Lower case changes a character only into a letter. -/
theorem toLower_eq_or_isLetter (c : Char) : c.toLower = c ∨ isLetter c.toLower = true := by
  by_cases h : c.val ≥ 'A'.val ∧ c.val ≤ 'Z'.val
  · right
    have hlo : 65 ≤ c.val.toNat := UInt32.le_iff_toNat_le.mp h.1
    have hhi : c.val.toNat ≤ 90 := UInt32.le_iff_toNat_le.mp h.2
    have hlower : c.toLower.toNat = c.val.toNat + 32 := by
      unfold Char.toLower
      rw [dif_pos h]
      exact (UInt32.toNat_add c.val 32).trans (Nat.mod_eq_of_lt (Nat.lt_of_le_of_lt
        (Nat.add_le_add_right hhi 32) (by decide)))
    rw [isLetter, hlower, Bool.and_eq_true, decide_eq_true_iff, decide_eq_true_iff]
    omega
  · left
    exact dif_neg h

theorem toLower_toLower (c : Char) : c.toLower.toLower = c.toLower := by
  rcases toLower_eq_or_isLetter c with heq | hletter
  · exact congrArg Char.toLower heq
  · -- A small letter is none of those that are moved.
    rw [isLetter, Bool.and_eq_true, decide_eq_true_iff, decide_eq_true_iff] at hletter
    refine dif_neg ?_
    rintro ⟨-, hupper⟩
    have hle : c.toLower.toNat ≤ 90 := UInt32.le_iff_toNat_le.mp hupper
    omega

theorem utf8Size_toLower (c : Char) : c.toLower.utf8Size = c.utf8Size := by
  have hone : ∀ d : Char, isLetter d.toLower = true → d.utf8Size = 1 := by
    intro d hd
    have hle : d.toNat ≤ 127 := by
      have hcodes := toNat_of_isLetter_toLower hd
      omega
    exact Char.utf8Size_eq_one_iff.mpr (UInt32.le_iff_toNat_le.mpr hle)
  rcases toLower_eq_or_isLetter c with heq | hletter
  · rw [heq]
  · rw [hone c hletter, hone c.toLower (by rwa [toLower_toLower])]

/-- A class of characters that makes no difference between the two cases of a letter. -/
def CaseFree (p : Char → Bool) : Prop := ∀ c, p c.toLower = p c

/-- A class that holds all letters or none is such a class. -/
theorem caseFree_of_isLetter {p : Char → Bool} {b : Bool}
    (h : ∀ c, isLetter c.toLower = true → p c = b) : CaseFree p := by
  intro c
  rcases toLower_eq_or_isLetter c with heq | hletter
  · rw [heq]
  · rw [h c hletter, h c.toLower (by rwa [toLower_toLower])]

theorem caseFree_isWord : CaseFree isWord :=
  caseFree_of_isLetter fun _ h => isWord_of_isLetter_toLower h

theorem caseFree_isBlank : CaseFree isBlank :=
  caseFree_of_isLetter fun _ h => isBlank_eq_false_of_isWord (isWord_of_isLetter_toLower h)

/-- The characters that are looked for one by one. -/
def delimiters : List Char := "()[],'\"#<>=".toList

theorem isWord_eq_false_of_mem_delimiters {l : Char} (hl : l ∈ delimiters) : isWord l = false := by
  have hall : delimiters.all (isWord · == false) = true := by decide
  exact beq_iff_eq.mp (List.all_eq_true.mp hall l hl)

theorem caseFree_beq {l : Char} (hl : l ∈ delimiters) : CaseFree (· == l) := by
  refine caseFree_of_isLetter (b := false) fun c hletter => beq_eq_false_iff_ne.mpr ?_
  rintro rfl
  have hword := isWord_eq_false_of_mem_delimiters hl
  rw [isWord_of_isLetter_toLower hletter] at hword
  cases hword

theorem CaseFree.or {p q : Char → Bool} (hp : CaseFree p) (hq : CaseFree q) :
    CaseFree fun c => p c || q c := by
  intro c
  show (p c.toLower || q c.toLower) = (p c || q c)
  rw [hp c, hq c]

theorem caseFree_isQuote : CaseFree Call.isQuote :=
  (caseFree_beq (by decide)).or (caseFree_beq (by decide))

theorem caseFree_isDelimiter : CaseFree Atom.isDelimiter :=
  ((caseFree_beq (by decide)).or (caseFree_beq (by decide))).or (caseFree_beq (by decide))

/-- Lower case turns no other character into a delimiter. -/
theorem toLower_eq_iff {c l : Char} (hl : l ∈ delimiters) : c.toLower = l ↔ c = l := by
  have hbeq : (c.toLower == l) = (c == l) := caseFree_beq hl c
  rw [← beq_iff_eq, hbeq, beq_iff_eq]

theorem any_map_toLower {p : Char → Bool} (hp : CaseFree p) (o : Option Char) :
    (o.map Char.toLower).any p = o.any p := by
  rw [Option.any_map, show (fun c => p (Char.toLower c)) = p from funext hp]

theorem map_toLower_eq_some_iff {o : Option Char} {l : Char} (hl : l ∈ delimiters) :
    o.map Char.toLower = some l ↔ o = some l := by
  cases o with
  | none => exact iff_of_false (by simp) (by simp)
  | some c => rw [Option.map_some, Option.some.injEq, Option.some.injEq, toLower_eq_iff hl]

/-! ## Texts -/

theorem lower_cons (c : Char) (s : Text) : lower (c :: s) = c.toLower :: lower s := rfl

theorem lower_append (s t : Text) : lower (s ++ t) = lower s ++ lower t := List.map_append

theorem lower_lower (s : Text) : lower (lower s) = lower s := by
  rw [lower, lower, List.map_map, show Char.toLower ∘ Char.toLower = Char.toLower from
    funext toLower_toLower]

theorem byteSize_lower (s : Text) : byteSize (lower s) = byteSize s := by
  induction s with
  | nil => rfl
  | cons c s ih => rw [lower_cons, byteSize, byteSize, ih, utf8Size_toLower]

theorem head?_lower (s : Text) : (lower s).head? = s.head?.map Char.toLower := List.head?_map

theorem getLast?_lower (s : Text) : (lower s).getLast? = s.getLast?.map Char.toLower :=
  List.getLast?_map

section Edges

variable {p : Char → Bool} (hp : CaseFree p)

include hp

theorem takeWhile_lower (s : Text) : (lower s).takeWhile p = lower (s.takeWhile p) := by
  rw [lower, List.takeWhile_map, show p ∘ Char.toLower = p from funext hp, lower]

theorem dropWhile_lower (s : Text) : (lower s).dropWhile p = lower (s.dropWhile p) := by
  rw [lower, List.dropWhile_map, show p ∘ Char.toLower = p from funext hp, lower]

theorem trim_lower (s : Text) : (lower s).trim p = lower (s.trim p) := by
  have hreverse : ∀ t : Text, (lower t).reverse = lower t.reverse := fun t => List.map_reverse.symm
  rw [trim, trim, trimEnd, trimEnd, dropWhile_lower hp, hreverse, dropWhile_lower hp, hreverse]

end Edges

theorem dropFirst_lower {l : Char} (hl : l ∈ delimiters) (s : Text) :
    (lower s).dropFirst l = lower (s.dropFirst l) := by
  rw [dropFirst, dropFirst, head?_lower]
  simp only [map_toLower_eq_some_iff hl]
  split
  · exact List.map_tail.symm
  · rfl

theorem dropFinal_lower {l : Char} (hl : l ∈ delimiters) (s : Text) :
    (lower s).dropFinal l = lower (s.dropFinal l) := by
  rw [dropFinal, dropFinal, getLast?_lower]
  simp only [map_toLower_eq_some_iff hl]
  split
  · exact List.map_dropLast.symm
  · rfl

theorem between?_lower {l r : Char} (hl : l ∈ delimiters) (hr : r ∈ delimiters) (s : Text) :
    between? l r (lower s) = (between? l r s).map lower := by
  cases s with
  | nil => rfl
  | cons c s =>
    rw [lower_cons, between?, between?, getLast?_lower]
    simp only [toLower_eq_iff hl, map_toLower_eq_some_iff hr]
    split
    · exact congrArg some List.map_dropLast.symm
    · rfl

/-! ## Literals -/

theorem lower_eq_iff {lit : Text} (hlit : lit ⊆ delimiters) {s : Text} :
    lower s = lit ↔ s = lit := by
  induction lit generalizing s with
  | nil => exact List.map_eq_nil_iff
  | cons l lit ih =>
    cases s with
    | nil => exact iff_of_false (List.cons_ne_nil l lit).symm (List.cons_ne_nil l lit).symm
    | cons c s =>
      rw [lower_cons, List.cons.injEq, List.cons.injEq, toLower_eq_iff (hlit List.mem_cons_self),
        ih fun _ hl' => hlit (List.mem_cons_of_mem l hl')]

theorem after?_lower (lit : Text) (hlit : lit ⊆ delimiters) (s : Text) :
    after? lit (lower s) = (after? lit s).map lower := by
  induction lit generalizing s with
  | nil => rfl
  | cons l lit ih =>
    cases s with
    | nil => rfl
    | cons c s =>
      rw [lower_cons, after?, after?]
      simp only [toLower_eq_iff (hlit List.mem_cons_self)]
      split
      · exact ih (fun _ hl' => hlit (List.mem_cons_of_mem l hl')) s
      · rfl

theorem spelled?_lower (lit s : Text) :
    spelled? lit (lower s) = (spelled? lit s).map (Prod.map lower lower) := by
  induction lit generalizing s with
  | nil => rfl
  | cons l lit ih =>
    cases s with
    | nil => rfl
    | cons c s =>
      rw [lower_cons, spelled?, spelled?, toLower_toLower, ih]
      split
      · rw [Option.map_map, Option.map_map]
        rfl
      · rfl

theorem before?_lower (sep : Text) (hsep : sep ⊆ delimiters) (s : Text) :
    before? sep (lower s) = (before? sep s).map (Prod.map lower lower) := by
  induction s with
  | nil => rfl
  | cons c s ih =>
    have hafter := after?_lower sep hsep (c :: s)
    rw [lower_cons] at hafter
    rw [lower_cons, before?, before?, hafter, ih]
    cases after? sep (c :: s) with
    | none =>
      simp only [Option.map_none, Option.map_map]
      rfl
    | some r => rfl

end Text

/-! ## Fixed words -/

theorem Paren.ofChar?_toLower (c : Char) : ofChar? c.toLower = ofChar? c := by
  have hopening : c.toLower = '(' ↔ c = '(' := Text.toLower_eq_iff (by decide)
  have hclosing : c.toLower = ')' ↔ c = ')' := Text.toLower_eq_iff (by decide)
  simp only [ofChar?, hopening, hclosing]

theorem Paren.ofText?_lower (s : Text) : ofText? s.lower = ofText? s := by
  match s with
  | [] => rfl
  | [c] => exact ofChar?_toLower c
  | _ :: _ :: _ => rfl

theorem Connective.ofText?_lower (s : Text) : ofText? s.lower = ofText? s := by
  rw [ofText?, ofText?, Text.lower_lower]

theorem Comparison.ofText?_lower (s : Text) : ofText? s.lower = ofText? s := by
  have hsymbol : ∀ op : Comparison, (s.lower == op.symbol) = (s == op.symbol) := by
    intro op
    have hplain : op.symbol ⊆ Text.delimiters := by cases op <;> decide
    rw [Bool.eq_iff_iff, beq_iff_eq, beq_iff_eq, Text.lower_eq_iff hplain]
  exact congrArg (List.find? · all) (funext hsymbol)

/-! ## Calls -/

/-- Two readers in a row commute with a change of text if both of them do. -/
theorem bind_eq_map_bind {α β : Type} {f : α → α} {h : β → β} {x x' : Option α}
    {g g' : α → Option β} (hx : x' = x.map f) (hg : ∀ a, g' (f a) = (g a).map h) :
    x' >>= g' = (x >>= g).map h := by
  rw [hx]
  cases x with
  | none => rfl
  | some a => exact hg a

namespace Call

/-- A call in lower case. -/
def lower (c : Call) : Call := ⟨c.predicate, c.name.lower, c.field.lower, c.argument.lower⟩

theorem text_lower (c : Call) : c.lower.text = c.text.lower := by
  rw [text, text, show c.lower.predicate = c.predicate from rfl]
  split
  · rw [Text.lower_append, Text.lower_append, Text.lower_append, Text.lower_append,
      Text.lower_append]
    rfl
  · rw [Text.lower_append, Text.lower_append, Text.lower_append]
    rfl

theorem value_lower (c : Call) : c.lower.value = c.value.lower := by
  rw [value, value, lower, Text.trim_lower Text.caseFree_isBlank,
    Text.trim_lower Text.caseFree_isQuote]

theorem readOf?_lower (p : Predicate) (s : Text) :
    readOf? p s.lower = (readOf? p s).map (Prod.map lower Text.lower) := by
  have hopen := Text.after?_lower "([".toList (by decide)
  have hcomma := Text.before?_lower "],".toList (by decide)
  have hend := Text.before?_lower ")".toList (by decide)
  have hbracket := Text.before?_lower "])".toList (by decide)
  refine bind_eq_map_bind (Text.spelled?_lower p.name s) fun (name, s₁) => ?_
  refine bind_eq_map_bind (hopen s₁) fun s₂ => ?_
  by_cases hvalue : p.takesValue = true
  · rw [if_pos hvalue, if_pos hvalue]
    refine bind_eq_map_bind (hcomma s₂) fun (field, s₃) => ?_
    exact bind_eq_map_bind (hend s₃) fun (argument, s₄) => rfl
  · rw [if_neg hvalue, if_neg hvalue]
    exact bind_eq_map_bind (hbracket s₂) fun (field, s₃) => rfl

theorem read?_lower (s : Text) : read? s.lower = (read? s).map (Prod.map lower Text.lower) := by
  rw [read?, read?, List.map_findSome?]
  exact congrArg (List.findSome? · Predicate.all) (funext fun p => readOf?_lower p s)

theorem whole?_lower (s : Text) : whole? s.lower = (whole? s).map lower := by
  rw [whole?, whole?, read?_lower]
  match read? s with
  | none => rfl
  | some (c, []) => rfl
  | some (c, _ :: _) => rfl

end Call

/-! ## Pieces -/

namespace Piece

/-- A piece in lower case. -/
def lower : Piece → Piece
  | .blank run => .blank run.lower
  | .paren p => .paren p
  | .keyword c word => .keyword c word.lower
  | .call c => .call c.lower
  | .plain text => .plain text.lower

theorem text_lower (p : Piece) : p.lower.text = p.text.lower := by
  cases p with
  | paren p => cases p <;> rfl
  | call c => exact c.text_lower
  | blank | keyword | plain => rfl

theorem readKeyword?_lower (s : Text) (c : Connective) :
    readKeyword? s.lower c = (readKeyword? s c).map (Prod.map lower Text.lower) := by
  rw [readKeyword?, readKeyword?, Text.spelled?_lower]
  cases Text.spelled? c.keyword s with
  | none => rfl
  | some read =>
    obtain ⟨word, r⟩ := read
    simp only [Option.map_some, Prod.map, Text.head?_lower,
      Text.any_map_toLower Text.caseFree_isWord]
    split <;> rfl

theorem keyword?_lower (prev : Option Char) (s : Text) :
    keyword? (prev.map Char.toLower) s.lower =
      (keyword? prev s).map (Prod.map lower Text.lower) := by
  rw [keyword?, keyword?, Text.any_map_toLower Text.caseFree_isWord]
  split
  · rfl
  · rw [List.map_findSome?]
    exact congrArg (List.findSome? · Connective.all) (funext fun c => readKeyword?_lower s c)

theorem paren?_lower (s : Text) :
    paren? s.lower = (paren? s).map (Prod.map lower Text.lower) := by
  cases s with
  | nil => rfl
  | cons c s =>
    rw [Text.lower_cons, paren?, paren?, Paren.ofChar?_toLower, Option.map_map]
    rfl

theorem blank?_lower (s : Text) :
    blank? s.lower = (blank? s).map (Prod.map lower Text.lower) := by
  cases s with
  | nil => rfl
  | cons c s =>
    rw [Text.lower_cons, blank?, blank?, Text.caseFree_isBlank c,
      Text.takeWhile_lower Text.caseFree_isBlank, Text.dropWhile_lower Text.caseFree_isBlank]
    split <;> rfl

theorem call?_lower (s : Text) : call? s.lower = (call? s).map (Prod.map lower Text.lower) := by
  rw [call?, call?, Call.read?_lower, Option.map_map, Option.map_map]
  rfl

/-- What is cut off a text in lower case is what is cut off the text, in lower case. -/
theorem cut?_lower (prev : Option Char) (s : Text) :
    cut? (prev.map Char.toLower) s.lower = (cut? prev s).map (Prod.map lower Text.lower) := by
  rw [cut?, cut?, keyword?_lower, paren?_lower, blank?_lower, call?_lower]
  cases keyword? prev s with
  | some cut => rfl
  | none =>
    cases paren? s with
    | some cut => rfl
    | none =>
      cases blank? s with
      | some cut => rfl
      | none => rfl

theorem prepend_lower (c : Char) (ps : List Piece) :
    prepend c.toLower (ps.map lower) = (prepend c ps).map lower := by
  cases ps with
  | nil => rfl
  | cons p ps => cases p <;> rfl

/-- **The pieces of a text in lower case are the pieces of the text, in lower case.** -/
theorem divide_lower (prev : Option Char) (s : Text) :
    divide (prev.map Char.toLower) s.lower = (divide prev s).map lower := by
  fun_induction divide prev s with
  | case1 prev =>
    rw [show Text.lower [] = [] from rfl, divide]
    rfl
  | case2 prev c s p r hcut _ ih =>
    have hlower := cut?_lower prev (c :: s)
    rw [hcut] at hlower
    rw [divide_of_cut? hlower, text_lower, Text.getLast?_lower]
    exact congrArg (p.lower :: ·) ih
  | case3 prev c s hcut ih =>
    have hlower := cut?_lower prev (c :: s)
    rw [hcut, Text.lower_cons] at hlower
    rw [Text.lower_cons, divide_of_cut?_eq_none hlower, ← prepend_lower]
    exact congrArg (prepend c.toLower) ih

end Piece

/-! ## Tokens -/

namespace Token

/-- A token in lower case. -/
def lower (t : Token) : Token := ⟨t.text.lower⟩

theorem text_lower (t : Token) : t.lower.text = t.text.lower := rfl

theorem field?_lower (t : Token) : t.lower.field? = t.field?.map Text.lower :=
  Text.between?_lower (by decide) (by decide) t.text

theorem date?_lower (t : Token) : t.lower.date? = t.date?.map Text.lower := by
  have hsign : '#' ∈ Text.delimiters := by decide
  rw [date?, date?, lower, Text.between?_lower hsign hsign, Option.map_map, Option.map_map]
  exact congrArg (Option.map · _) (funext (Text.trim_lower (Text.caseFree_beq hsign)))

/-- The kind of a token does not depend on letter case. -/
theorem kind_lower (t : Token) : t.lower.kind = t.kind := by
  rw [kind, kind, text_lower, Paren.ofText?_lower, Connective.ofText?_lower,
    Comparison.ofText?_lower, Call.whole?_lower, field?_lower, date?_lower]
  cases Call.whole? t.text with
  | none => simp only [Option.map_none, Option.isSome_map]
  | some c => rfl

end Token

/-- A place in a text in lower case. -/
def Place.lower (q : Place) : Place := ⟨q.start, q.token.lower⟩

theorem Place.stop_lower (q : Place) : q.lower.stop = q.stop :=
  congrArg (q.start + ·) (Text.byteSize_lower q.token.text)

namespace Piece

theorem token?_lower (p : Piece) : p.lower.token? = p.token?.map Token.lower := by
  cases p with
  | blank run => rfl
  | paren p => cases p <;> rfl
  | call c => exact congrArg (fun s => some (Token.mk s)) c.text_lower
  | keyword | plain => rfl

theorem places_lower (n : Nat) (ps : List Piece) :
    places n (ps.map lower) = (places n ps).map Place.lower := by
  induction ps generalizing n with
  | nil => rfl
  | cons p ps ih =>
    rw [List.map_cons, places, places, ih, token?_lower, text_lower, Text.byteSize_lower,
      List.map_append]
    cases p.token? with
    | none => rfl
    | some t => rfl

end Piece

namespace Token

/-- **Lower case moves no token.** -/
theorem places_lower (s : Text) : places s.lower = (places s).map Place.lower := by
  have hdivide : Piece.divide none s.lower = (Piece.divide none s).map Piece.lower :=
    Piece.divide_lower none s
  rw [places, places, hdivide, Piece.places_lower]

theorem ofText_lower (s : Text) : ofText s.lower = (ofText s).map lower := by
  have hdivide : Piece.divide none s.lower = (Piece.divide none s).map Piece.lower :=
    Piece.divide_lower none s
  rw [ofText, ofText, hdivide, List.filterMap_map, List.map_filterMap]
  exact congrArg (List.filterMap · _) (funext Piece.token?_lower)

end Token

end Criteria
