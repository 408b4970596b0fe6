/-
What a cursor reads when it stands between two parts of a text. There nothing that it is asked for is at
fault, and what it finds is what the readers of texts find in the part behind it: a literal is spelled
there (`Cursor.consume_between`), a separator occurs there for the first time
(`Cursor.captureUntil_between`). Wherever a cursor is moved, it comes to stand between two parts of the
same text.

The point at issue is that the cursor looks at bytes and the readers look at characters. The literals and
separators have characters below U+0080 only. Such a character is a byte of its own, and no byte of a
longer character is taken for it (`isPrefixOf_bytes`); nor does lower case make one of the other
(`map_lowerByte_bytes`).
-/
import Criteria.Proofs.LetterCase
import Criteria.Text.Cursor

set_option autoImplicit false

namespace Criteria.Text

/-! ## Lower case by bytes -/

theorem lowerByte_ofNat {c : Char} (hc : c.toNat < 128) :
    lowerByte (UInt8.ofNat c.toNat) = UInt8.ofNat c.toLower.toNat ∧ c.toLower.toNat < 128 := by
  have hall : ∀ n < 128, lowerByte (UInt8.ofNat n) = UInt8.ofNat (Char.ofNat n).toLower.toNat ∧
      (Char.ofNat n).toLower.toNat < 128 := by decide
  have hcode := hall c.toNat hc
  rwa [Char.ofNat_toNat] at hcode

theorem lowerByte_of_le {b : UInt8} (hb : 128 ≤ b) : lowerByte b = b := by
  refine if_neg ?_
  rintro ⟨-, hupper⟩
  exact absurd (UInt8.le_trans hb hupper) (by decide)

theorem toLower_of_le {c : Char} (hc : 128 ≤ c.toNat) : c.toLower = c := by
  rcases toLower_eq_or_isLetter c with heq | hletter
  · exact heq
  · have hcodes := toNat_of_isLetter_toLower hletter
    omega

/-- The bytes of a text in lower case are its bytes in lower case. -/
theorem map_lowerByte_bytes (s : Text) : s.bytes.map lowerByte = (lower s).bytes := by
  induction s with
  | nil => rfl
  | cons c s ih =>
    rw [lower_cons]
    by_cases hc : c.toNat < 128
    · obtain ⟨hbyte, hlow⟩ := lowerByte_ofNat hc
      rw [bytes_cons_of_lt hc, bytes_cons_of_lt hlow, List.map_cons, hbyte, ih]
    · have hlarge : 128 ≤ c.toNat := Nat.not_lt.mp hc
      have hself : (String.utf8EncodeChar c).map lowerByte = String.utf8EncodeChar c := by
        refine (List.map_congr_left fun b hb => ?_).trans (List.map_id _)
        exact lowerByte_of_le (le_of_mem_utf8EncodeChar hlarge b hb)
      rw [toLower_of_le hlarge, bytes_cons, bytes_cons, List.map_append, hself, ih]

/-! ## Literals by bytes -/

/-- A text of characters below U+0080 with no letter in upper case. -/
def Literal (s : Text) : Prop := s.all (fun l => l.toNat < 128 && l.toLower == l) = true

theorem Literal.lt {lit : Text} (h : Literal lit) : ∀ l ∈ lit, l.toNat < 128 := by
  intro l hl
  have hboth := List.all_eq_true.mp h l hl
  rw [Bool.and_eq_true, decide_eq_true_iff] at hboth
  exact hboth.1

theorem Literal.lower_eq {lit : Text} (h : Literal lit) : lower lit = lit := by
  refine (List.map_congr_left fun l hl => ?_).trans (List.map_id lit)
  have hboth := List.all_eq_true.mp h l hl
  rw [Bool.and_eq_true, beq_iff_eq] at hboth
  exact hboth.2

theorem Literal.of_cons {l : Char} {lit : Text} (h : Literal (l :: lit)) : Literal lit := by
  rw [Literal, List.all_cons, Bool.and_eq_true] at h
  exact h.2

/-- Whether a literal stands at the start of a text can be seen from the bytes. -/
theorem isPrefixOf_bytes {lit : Text} (hlit : Literal lit) (s : Text) :
    lit.bytes.isPrefixOf s.bytes = lit.isPrefixOf s := by
  induction lit generalizing s with
  | nil => rw [bytes_nil, List.isPrefixOf_nil_left, List.isPrefixOf_nil_left]
  | cons l lit ih =>
    have hl := hlit.lt l List.mem_cons_self
    rw [bytes_cons_of_lt hl]
    cases s with
    | nil => rfl
    | cons c s =>
      rw [List.isPrefixOf_cons_cons]
      by_cases hc : c.toNat < 128
      · have heq : (UInt8.ofNat l.toNat == UInt8.ofNat c.toNat) = (l == c) := by
          rw [Bool.eq_iff_iff, beq_iff_eq, beq_iff_eq]
          exact ⟨eq_of_ofNat_eq hl hc, fun h => by rw [h]⟩
        rw [bytes_cons_of_lt hc, List.isPrefixOf_cons_cons, heq, ih hlit.of_cons]
      · -- The first byte of a longer character is not the byte of `l`.
        have hlarge : 128 ≤ c.toNat := Nat.not_lt.mp hc
        obtain ⟨b, bs, hb⟩ := List.exists_cons_of_ne_nil (String.utf8EncodeChar_ne_nil (c := c))
        have hne : UInt8.ofNat l.toNat ≠ b := ofNat_ne_of_mem hl hlarge (hb ▸ List.mem_cons_self)
        have hne' : l ≠ c := by
          rintro rfl
          exact hc hl
        rw [bytes_cons, hb, List.cons_append, List.isPrefixOf_cons_cons, beq_eq_false_iff_ne.mpr hne,
          beq_eq_false_iff_ne.mpr hne', Bool.false_and, Bool.false_and]

/-- A literal is spelled at the start of a text if the text in lower case starts with it. -/
theorem isSome_spelled? (lit s : Text) : (spelled? lit s).isSome = lit.isPrefixOf (lower s) := by
  induction lit generalizing s with
  | nil => simp [spelled?]
  | cons l lit ih =>
    cases s with
    | nil => rfl
    | cons c s =>
      rw [lower_cons, List.isPrefixOf_cons_cons, ← ih, spelled?, BEq.comm]
      by_cases h : c.toLower = l
      · rw [if_pos h, Option.isSome_map, h, beq_self_eq_true, Bool.true_and]
      · rw [if_neg h, beq_eq_false_iff_ne.mpr h, Bool.false_and, Option.isSome_none]

theorem isSome_after? (lit s : Text) : (after? lit s).isSome = lit.isPrefixOf s := by
  rw [Bool.eq_iff_iff, Option.isSome_iff_exists, List.isPrefixOf_iff_prefix]
  simp only [after?_eq_some_iff]
  exact ⟨fun ⟨r, h⟩ => ⟨r, h.symm⟩, fun ⟨r, h⟩ => ⟨r, h.symm⟩⟩

/-- A literal without letters is read as it stands. -/
theorem spelled?_eq_after? {lit : Text} (hlit : lit ⊆ delimiters) (s : Text) :
    spelled? lit s = (after? lit s).map fun r => (lit, r) := by
  cases hafter : after? lit s with
  | some r =>
    refine spelled?_eq_some_iff.mpr ⟨after?_eq_some_iff.mp hafter, ?_⟩
    exact (lower_eq_iff hlit).mpr rfl
  | none =>
    refine Option.eq_none_iff_forall_ne_some.mpr fun ⟨w, r⟩ h => ?_
    obtain ⟨hs, hw⟩ := spelled?_eq_some_iff.mp h
    rw [(lower_eq_iff hlit).mp hw] at hs
    rw [after?_eq_some_iff.mpr hs] at hafter
    cases hafter

/-! ## Searches by bytes -/

/-- Bytes that are not the first one of what is looked for are passed. -/
theorem find?_append {b : UInt8} {bs ys : List UInt8} (hys : ∀ y ∈ ys, b ≠ y) (zs : List UInt8) :
    find? (b :: bs) (ys ++ zs) = (find? (b :: bs) zs).map (· + ys.length) := by
  induction ys with
  | nil => simp
  | cons y ys ih =>
    have hy : (b == y) = false := beq_eq_false_iff_ne.mpr (hys y List.mem_cons_self)
    rw [List.cons_append, find?, List.isPrefixOf_cons_cons, hy, Bool.false_and,
      if_neg Bool.false_ne_true, ih fun y' hy' => hys y' (List.mem_cons_of_mem y hy'),
      Option.map_map, List.length_cons]
    rfl

/-- What a separator does not start with is before its first occurrence. -/
theorem before?_cons_of_ne {l c : Char} (h : c ≠ l) (lit s : Text) :
    before? (l :: lit) (c :: s) = (before? (l :: lit) s).map fun p => (c :: p.1, p.2) := by
  rw [before?, after?, if_neg h]

/-- The first occurrence of a literal is found by its bytes. -/
theorem find?_bytes {l : Char} {lit : Text} (hlit : Literal (l :: lit)) (s : Text) :
    find? (bytes (l :: lit)) s.bytes = (before? (l :: lit) s).map fun p => byteSize p.1 := by
  have hl := hlit.lt l List.mem_cons_self
  induction s with
  | nil => rfl
  | cons c s ih =>
    by_cases hc : c.toNat < 128
    · have hprefix := isPrefixOf_bytes hlit (c :: s)
      rw [← isSome_after?, bytes_cons_of_lt hc] at hprefix
      rw [bytes_cons_of_lt hc, find?, hprefix, ih, before?]
      cases after? (l :: lit) (c :: s) with
      | some r => rfl
      | none =>
        simp only [Option.isSome_none, Bool.false_eq_true, if_false, Option.map_map]
        congr 1
        funext p
        simp only [Function.comp_apply, byteSize, utf8Size_of_lt hc, Nat.add_comm]
    · have hlarge : 128 ≤ c.toNat := Nat.not_lt.mp hc
      have hne : c ≠ l := by
        rintro rfl
        exact hc hl
      rw [bytes_cons c, bytes_cons_of_lt hl, find?_append fun b => ofNat_ne_of_mem hl hlarge,
        ← bytes_cons_of_lt hl, ih, before?_cons_of_ne hne, String.length_utf8EncodeChar,
        Option.map_map, Option.map_map]
      congr 1
      funext p
      simp only [Function.comp_apply, byteSize, Nat.add_comm]

/-! ## Slices -/

/-- Between boundaries that stand the right way round there is a slice. -/
theorem slice_append (a w b : Text) :
    slice (a ++ (w ++ b)) (byteSize a) (byteSize a + byteSize w) = .ok w := by
  rw [slice, if_pos (Nat.le_add_right _ _), splitAt?_append]
  simp only [Nat.add_sub_cancel_left, splitAt?_append]

/-! ## Cursors -/

/-- What comes behind something that is not at fault. -/
theorem ok_bind {α β : Type} (x : α) (g : α → Except Fault β) : (Except.ok x >>= g) = g x := rfl

namespace Cursor

/-- The cursor between two parts of a text. -/
def between (a b : Text) : Cursor := ⟨a ++ b, byteSize a⟩

theorem slice_between (a w b : Text) :
    (between a (w ++ b)).text.slice (between a (w ++ b)).pos (between (a ++ w) b).pos = .ok w := by
  show slice (a ++ (w ++ b)) (byteSize a) (byteSize (a ++ w)) = .ok w
  rw [byteSize_append, slice_append]

theorem rest_between (a b : Text) : (between a b).rest = .ok b := by
  have hslice := slice_between a b []
  rwa [List.append_nil] at hslice

theorem next_between (a b : Text) : (between a b).next = .ok b.head? := by
  rw [next, rest_between]
  rfl

theorem previous_between (a b : Text) : (between a b).previous = .ok a.getLast? := by
  have hslice : (between a b).text.slice 0 (between a b).pos = .ok a := slice_between [] a b
  rw [previous, hslice]
  rfl

theorem advance_between (a w b : Text) :
    (between a (w ++ b)).advance (byteSize w) = .ok (between (a ++ w) b) := by
  have hboundary : Boundary (a ++ (w ++ b)) (byteSize a + byteSize w) :=
    ⟨a ++ w, b, (List.append_assoc a w b).symm, byteSize_append a w⟩
  rw [advance, between, if_pos hboundary, between, List.append_assoc, byteSize_append]

theorem advance_between_cons (a : Text) (c : Char) (b : Text) :
    (between a (c :: b)).advance c.utf8Size = .ok (between (a ++ [c]) b) :=
  advance_between a [c] b

theorem bump_between (a : Text) (c : Char) (b : Text) :
    (between a (c :: b)).bump = .ok (some (between (a ++ [c]) b)) := by
  simp only [bump, next_between, List.head?_cons, ok_bind, advance_between_cons]
  rfl

theorem peek_between {lit : Text} (hlit : Literal lit) (a b : Text) :
    (between a b).peek lit = .ok (spelled? lit b).isSome := by
  rw [peek, rest_between, map_lowerByte_bytes, hlit.lower_eq, ok_bind, map_lowerByte_bytes,
    isPrefixOf_bytes hlit, isSome_spelled?]
  rfl

theorem consume_between {lit : Text} (hlit : Literal lit) (a b : Text) :
    (between a b).consume lit = .ok ((spelled? lit b).map fun p => between (a ++ p.1) p.2) := by
  rw [consume, peek_between hlit, ok_bind]
  cases hread : spelled? lit b with
  | none => rfl
  | some p =>
    obtain ⟨w, r⟩ := p
    obtain ⟨rfl, hw⟩ := spelled?_eq_some_iff.mp hread
    rw [Option.isSome_some, if_pos rfl, ← hw, byteSize_lower, advance_between]
    rfl

theorem consumeChar_between (a : Text) (c : Char) (b : Text) :
    (between a (c :: b)).consumeChar c = .ok (some (between (a ++ [c]) b)) := by
  simp only [consumeChar, next_between, List.head?_cons, ok_bind, if_true, advance_between_cons]
  rfl

/-- A character that stands behind a cursor is passed. -/
theorem orStay_consumeChar (a : Text) (c : Char) (b : Text) :
    (between a (c :: b)).orStay ((between a (c :: b)).consumeChar c) =
      .ok (between (a ++ [c]) b) := by
  rw [orStay, consumeChar_between]
  rfl

theorem orStay_bump (a : Text) (c : Char) (b : Text) :
    (between a (c :: b)).orStay (between a (c :: b)).bump = .ok (between (a ++ [c]) b) := by
  rw [orStay, bump_between]
  rfl

theorem skipBlank_between (a b : Text) :
    (between a b).skipBlank = .ok (between (a ++ b.takeWhile isBlank) (b.dropWhile isBlank)) := by
  induction b generalizing a with
  | nil =>
    rw [skipBlank]
    simp only [next_between, List.head?_nil, List.takeWhile_nil, List.dropWhile_nil, List.append_nil]
  | cons c b ih =>
    rw [skipBlank]
    by_cases hc : isBlank c = true
    · rw [List.takeWhile_cons_of_pos hc, List.dropWhile_cons_of_pos hc,
        List.append_cons a c (b.takeWhile isBlank), ← ih (a ++ [c])]
      simp only [next_between, List.head?_cons, hc, if_true]
      split
      · rename_i hadvance
        rw [advance_between_cons] at hadvance
        cases hadvance
      · rename_i k hadvance
        rw [advance_between_cons] at hadvance
        rw [Except.ok.inj hadvance]
    · rw [List.takeWhile_cons_of_neg hc, List.dropWhile_cons_of_neg hc, List.append_nil]
      simp only [next_between, List.head?_cons, hc, Bool.false_eq_true, if_false]

/-- A literal that stands behind a cursor is passed. -/
theorem orStay_consume {lit : Text} (hlit : Literal lit) (a b : Text) :
    (between a (lit ++ b)).orStay ((between a (lit ++ b)).consume lit) =
      .ok (between (a ++ lit) b) := by
  rw [orStay, consume_between hlit, spelled?_eq_some_iff.mpr ⟨rfl, hlit.lower_eq⟩]
  rfl

theorem captureUntil_between {sep : Text} (hsep : Literal sep) (hne : sep ≠ []) (a b : Text) :
    (between a b).captureUntil sep =
      .ok ((before? sep b).map fun p => (p.1, between (a ++ p.1) (sep ++ p.2))) := by
  obtain ⟨l, lit, rfl⟩ := List.exists_cons_of_ne_nil hne
  simp only [captureUntil, rest_between, ok_bind, find?_bytes hsep]
  cases hbefore : before? (l :: lit) b with
  | none => rfl
  | some p =>
    obtain ⟨w, r⟩ := p
    obtain rfl := eq_of_before? hbefore
    rw [List.append_assoc]
    simp only [Option.map_some, advance_between, ok_bind, slice_between]
    rfl

end Cursor

end Criteria.Text
