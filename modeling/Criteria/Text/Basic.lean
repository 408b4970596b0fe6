/-
Text is handled as the list of its characters, and every reader in this library is a function
from a text to what it read and the text that is left. Such a reader is right when the two parts
give the text back, so each of the readers below comes with that law: nothing is lost between
what was read and what is left, and the spelling of what was read is kept.

Letter case is ignored only for the letters `A` to `Z`. `Char.toLower` moves exactly those, so a
spelling of a lower-case literal is a text whose image under it is the literal.
-/
set_option autoImplicit false

namespace Criteria

/-- A text is the list of its characters. -/
abbrev Text := List Char

namespace Text

/-- The number of bytes of a text in UTF-8. -/
def byteSize : Text → Nat
  | [] => 0
  | c :: s => c.utf8Size + byteSize s

@[simp] theorem byteSize_nil : byteSize [] = 0 := rfl

@[simp] theorem byteSize_append (s t : Text) : byteSize (s ++ t) = byteSize s + byteSize t := by
  induction s with
  | nil => simp
  | cons c s ih => simp [byteSize, ih, Nat.add_assoc]

/-- A text with its letters in lower case. -/
def lower (s : Text) : Text := s.map Char.toLower

/-! ## Literals -/

/-- Removes the literal `lit` from the start of a text. -/
def after? : (lit : Text) → Text → Option Text
  | [], s => some s
  | _ :: _, [] => none
  | l :: lit, c :: s => if c = l then after? lit s else none

theorem after?_eq_some_iff {lit s r : Text} : after? lit s = some r ↔ s = lit ++ r := by
  induction lit generalizing s with
  | nil => simp [after?]
  | cons l lit ih =>
    cases s with
    | nil => simp [after?]
    | cons c s => by_cases h : c = l <;> simp [after?, h, ih]

/-- Reads the lower-case literal `lit` at the start of a text in any letter case: the spelling
found there, and the text after it. -/
def spelled? : (lit : Text) → Text → Option (Text × Text)
  | [], s => some ([], s)
  | _ :: _, [] => none
  | l :: lit, c :: s =>
    if c.toLower = l then (spelled? lit s).map fun (w, r) => (c :: w, r) else none

/-- A literal is read exactly where a spelling of it stands. -/
theorem spelled?_eq_some_iff {lit s w r : Text} :
    spelled? lit s = some (w, r) ↔ s = w ++ r ∧ lower w = lit := by
  induction lit generalizing s w with
  | nil =>
    constructor
    · intro h
      simp only [spelled?, Option.some.injEq, Prod.mk.injEq] at h
      simp [← h.1, ← h.2, lower]
    · rintro ⟨rfl, hw⟩
      obtain rfl : w = [] := by simpa [lower] using hw
      simp [spelled?]
  | cons l lit ih =>
    cases s with
    | nil =>
      simp only [spelled?, reduceCtorEq, false_iff, not_and]
      intro h
      obtain ⟨rfl, rfl⟩ := List.append_eq_nil_iff.mp h.symm
      simp [lower]
    | cons c s =>
      cases w with
      | nil => by_cases h : c.toLower = l <;> simp [spelled?, lower, h]
      | cons d w =>
        have key : spelled? lit s = some (w, r) ↔ s = w ++ r ∧ w.map Char.toLower = lit := ih
        by_cases h : c.toLower = l
        · simp only [spelled?, h, if_true, Option.map_eq_some_iff, lower]
          constructor
          · rintro ⟨⟨w', r'⟩, hread, heq⟩
            simp only [Prod.mk.injEq, List.cons.injEq] at heq
            obtain ⟨⟨rfl, rfl⟩, rfl⟩ := heq
            obtain ⟨rfl, hw⟩ := key.mp hread
            simp [h, hw]
          · rintro ⟨hs, hw⟩
            simp only [List.cons_append, List.cons.injEq, List.map_cons] at hs hw
            exact ⟨(w, r), key.mpr ⟨hs.2, hw.2⟩, by rw [hs.1]⟩
        · simp only [spelled?, h, if_false, reduceCtorEq, false_iff, not_and, lower]
          intro hs hw
          simp only [List.cons_append, List.cons.injEq, List.map_cons] at hs hw
          exact h (hs.1 ▸ hw.1)

/-! ## First occurrences -/

/-- Splits a text at the first occurrence of `sep`, which is not empty: the text before it, and
the text after it. -/
def before? (sep : Text) : Text → Option (Text × Text)
  | [] => none
  | c :: s =>
    match after? sep (c :: s) with
    | some r => some ([], r)
    | none => (before? sep s).map fun (w, r) => (c :: w, r)

/-- The two parts and the separator between them give the text back. -/
theorem eq_of_before? {sep s w r : Text} (h : before? sep s = some (w, r)) :
    s = w ++ sep ++ r := by
  induction s generalizing w with
  | nil => simp [before?] at h
  | cons c s ih =>
    unfold before? at h
    split at h
    · rename_i r' hafter
      simp only [Option.some.injEq, Prod.mk.injEq] at h
      obtain ⟨rfl, rfl⟩ := h
      exact after?_eq_some_iff.mp hafter
    · obtain ⟨⟨w', r'⟩, hrec, heq⟩ := Option.map_eq_some_iff.mp h
      simp only [Prod.mk.injEq] at heq
      obtain ⟨rfl, rfl⟩ := heq
      simp [ih hrec]

/-! ## Edges -/

/-- What a longest run of characters leaves starts with another one. -/
theorem head?_dropWhile (p : Char → Bool) (s : Text) : (s.dropWhile p).head?.any p = false := by
  have hnot := List.head?_dropWhile_not p s
  cases hhead : (s.dropWhile p).head? with
  | none => rfl
  | some c => simpa [hhead] using hnot

/-- Removes from the end of a text the longest run of characters that satisfy `p`. -/
def trimEnd (p : Char → Bool) (s : Text) : Text := (s.reverse.dropWhile p).reverse

/-- What is at the end and satisfies `p` does not matter. -/
theorem trimEnd_append {p : Char → Bool} {t : Text} (ht : ∀ c ∈ t, p c = true) (s : Text) :
    trimEnd p (s ++ t) = trimEnd p s := by
  have hreverse : ∀ c ∈ t.reverse, p c = true := fun c hc => ht c (List.mem_reverse.mp hc)
  rw [trimEnd, List.reverse_append, List.dropWhile_append_of_pos hreverse, ← trimEnd]

/-- A text whose last character does not satisfy `p` stays as it is. -/
theorem trimEnd_eq_self {p : Char → Bool} {s : Text} (hs : ∀ c, s.getLast? = some c → p c = false) :
    trimEnd p s = s := by
  have hkeep : s.reverse.dropWhile p = s.reverse := by
    cases hr : s.reverse with
    | nil => rfl
    | cons c r =>
      have hlast : s.getLast? = some c := by rw [← List.head?_reverse, hr, List.head?_cons]
      rw [List.dropWhile_cons_of_neg (by simp [hs c hlast])]
  rw [trimEnd, hkeep, List.reverse_reverse]

/-- Removes from both ends of a text the longest runs of characters that satisfy `p`. -/
def trim (p : Char → Bool) (s : Text) : Text := trimEnd p (s.dropWhile p)

/-- Removes one `c` from the start of a text that starts with it. -/
def dropFirst (c : Char) (s : Text) : Text := if s.head? = some c then s.tail else s

/-- Removes one `c` from the end of a text that ends with it. -/
def dropFinal (c : Char) (s : Text) : Text := if s.getLast? = some c then s.dropLast else s

/-- What stands between a first character `l` and a last character `r`, in a text that has
both. -/
def between? (l r : Char) : Text → Option Text
  | [] => none
  | c :: s => if c = l ∧ s.getLast? = some r then some s.dropLast else none

theorem between?_eq_some_iff {l r : Char} {s t : Text} :
    between? l r s = some t ↔ s = l :: (t ++ [r]) := by
  cases s with
  | nil => simp [between?]
  | cons c s =>
    simp only [between?, Option.ite_none_right_eq_some, Option.some.injEq, List.cons.injEq]
    constructor
    · rintro ⟨⟨rfl, hlast⟩, rfl⟩
      obtain ⟨t, rfl⟩ := List.getLast?_eq_some_iff.mp hlast
      simp
    · rintro ⟨rfl, rfl⟩
      simp

end Text

end Criteria
