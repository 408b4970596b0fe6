/-
Reading is the inverse of printing. What a value is printed as is read back as the value, in both
layouts and whatever text follows (`Json.readValue?_write`), so a value can be told from its text.

Three things are to be seen. A string may hold anything, and what would end it or break it is
escaped: each character is read back from what it is escaped to. The reader skips white space
wherever the printer puts some. And the recursion of the reader is bounded by the length of the
text, which is enough: it goes one step down for each value, item and member (`Json.size`), and each
of these takes up a character.
-/
import Criteria.Json.Reader
import Mathlib.Data.List.Basic

set_option autoImplicit false

namespace Criteria.Json

/-! ## Strings -/

theorem readString?_escape {e ch : Char} (h : unescape? e = some ch) (s : Text) :
    readString? ('\\' :: e :: s) = (readString? s).map fun p => (ch :: p.1, p.2) := by
  have hu : e ≠ 'u' := by
    rintro rfl
    cases h
  rw [readString?]
  · rw [h]
    cases readString? s <;> rfl
  · intro _ _ _ _ _ he _
    exact hu he

theorem readString?_unicode {a b c d ch : Char} (h : unicode? a b c d = some ch) (s : Text) :
    readString? ('\\' :: 'u' :: a :: b :: c :: d :: s) =
      (readString? s).map fun p => (ch :: p.1, p.2) := by
  rw [readString?, h]
  cases readString? s <;> rfl

theorem readString?_self {c : Char} (hquote : c ≠ '"') (hslash : c ≠ '\\')
    (hcontrol : ¬ c.toNat < 0x20) (s : Text) :
    readString? (c :: s) = (readString? s).map fun p => (c :: p.1, p.2) := by
  rw [readString?]
  · rw [if_neg (by simp [hslash, hcontrol])]
    cases readString? s <;> rfl
  · exact hquote
  · intro _ _ _ _ _ hc _
    exact hslash hc
  · intro _ _ hc _
    exact hslash hc

/-- A control character is read back from its number. -/
theorem unicode?_hexDigit : ∀ n < 0x20,
    unicode? '0' '0' (hexDigit (n / 16)) (hexDigit (n % 16)) = some (Char.ofNat n) := by
  decide

/-- **A character is read back from what it is escaped to.** -/
theorem readString?_escaped (c : Char) (s : Text) :
    readString? (escaped c ++ s) = (readString? s).map fun p => (c :: p.1, p.2) := by
  unfold escaped
  split
  · exact readString?_escape rfl s
  · exact readString?_escape rfl s
  · exact readString?_escape rfl s
  · exact readString?_escape rfl s
  · exact readString?_escape rfl s
  · exact readString?_escape rfl s
  · exact readString?_escape rfl s
  · rename_i hquote hslash _ _ _ _ _
    by_cases hcontrol : c.toNat < 0x20
    · have hread := unicode?_hexDigit c.toNat hcontrol
      rw [Char.ofNat_toNat] at hread
      rw [if_pos hcontrol]
      exact readString?_unicode hread s
    · rw [if_neg hcontrol]
      exact readString?_self hquote hslash hcontrol s

/-- A string is read back behind its opening quotation mark. -/
theorem readString?_flatMap_escaped (s rest : Text) :
    readString? (s.flatMap escaped ++ '"' :: rest) = some (s, rest) := by
  induction s with
  | nil => rfl
  | cons c s ih =>
    rw [List.flatMap_cons, List.append_assoc, readString?_escaped, ih]
    rfl

/-! ## White space -/

theorem skipSpace_append {gap : Text} (hgap : ∀ c ∈ gap, isSpace c = true) (s : Text) :
    skipSpace (gap ++ s) = skipSpace s := List.dropWhile_append_of_pos hgap

theorem skipSpace_cons {c : Char} (hc : isSpace c = false) (s : Text) :
    skipSpace (c :: s) = c :: s := by
  rw [skipSpace, List.dropWhile_cons_of_neg (by rw [hc]; exact Bool.false_ne_true)]

theorem isSpace_of_mem_lineBreak (layout : Layout) (depth : Nat) :
    ∀ c ∈ layout.lineBreak depth, isSpace c = true := by
  intro c hc
  cases layout with
  | compact => cases hc
  | indented =>
    rcases List.mem_cons.mp hc with rfl | hc
    · rfl
    · rw [List.eq_of_mem_replicate hc]
      rfl

section Gaps

variable {gap : Text} (hgap : ∀ c ∈ gap, isSpace c = true) (bound : Nat) (s : Text)
include hgap

theorem readValue?_append : readValue? bound (gap ++ s) = readValue? bound s := by
  cases bound with
  | zero => rfl
  | succ bound => rw [readValue?, readValue?, skipSpace_append hgap]

theorem readItems?_append : readItems? bound (gap ++ s) = readItems? bound s := by
  cases bound with
  | zero => rfl
  | succ bound => rw [readItems?, readItems?, readValue?_append hgap]

theorem readMembers?_append : readMembers? bound (gap ++ s) = readMembers? bound s := by
  cases bound with
  | zero => rfl
  | succ bound => rw [readMembers?, readMembers?, skipSpace_append hgap]

end Gaps

/-! ## Size -/

mutual

/-- How many steps down the reader goes in a value. -/
def size : Json → Nat
  | .null | .str _ => 1
  | .arr items => 1 + sizeItems items
  | .obj members => 1 + sizeMembers members

/-- How many steps down the reader goes in the items of an array. -/
def sizeItems : List Json → Nat
  | [] => 0
  | item :: items => 1 + item.size + sizeItems items

/-- How many steps down the reader goes in the members of an object. -/
def sizeMembers : List (Text × Json) → Nat
  | [] => 0
  | (_, value) :: members => 1 + value.size + sizeMembers members

end

/-! ## Values -/

/-- What holds of null and of strings, and of an array or an object if it holds of all values in it,
holds of every value. -/
theorem induct {P : Json → Prop} (null : P .null) (str : ∀ s, P (.str s))
    (arr : ∀ items, (∀ v ∈ items, P v) → P (.arr items))
    (obj : ∀ members, (∀ m ∈ members, P m.2) → P (.obj members)) : ∀ v, P v
  | .null => null
  | .str s => str s
  | .arr items => arr items fun v _ => induct null str arr obj v
  | .obj members => obj members fun m _ => induct null str arr obj m.2
decreasing_by
  · have := List.sizeOf_lt_of_mem ‹v ∈ items›
    simp only [Json.arr.sizeOf_spec]
    omega
  · have := List.sizeOf_lt_of_mem ‹m ∈ members›
    obtain ⟨key, value⟩ := m
    simp only [Json.obj.sizeOf_spec, Prod.mk.sizeOf_spec] at this ⊢
    omega

section Write

variable (layout : Layout)

/-! ### The bound -/

theorem sizeItems_add_length_le {items : List Json}
    (h : ∀ v ∈ items, ∀ depth rest, v.size + rest.length ≤ (v.write layout depth rest).length)
    (depth : Nat) (rest : Text) :
    sizeItems items + rest.length ≤ (writeItems layout depth items rest).length := by
  induction items with
  | nil => simp [sizeItems, writeItems]
  | cons item items ih =>
    rw [List.forall_mem_cons] at h
    have hitem := h.1 depth (writeItems layout depth items rest)
    have hitems := ih h.2
    simp only [sizeItems, writeItems, List.length_cons, List.length_append]
    omega

theorem sizeMembers_add_length_le {members : List (Text × Json)}
    (h : ∀ m ∈ members, ∀ depth rest,
      m.2.size + rest.length ≤ (m.2.write layout depth rest).length)
    (depth : Nat) (rest : Text) :
    sizeMembers members + rest.length ≤ (writeMembers layout depth members rest).length := by
  induction members with
  | nil => simp [sizeMembers, writeMembers]
  | cons member members ih =>
    obtain ⟨key, value⟩ := member
    rw [List.forall_mem_cons] at h
    have hvalue := h.1 depth (writeMembers layout depth members rest)
    have hmembers := ih h.2
    simp only [sizeMembers, writeMembers, List.length_cons, List.length_append] at hvalue ⊢
    omega

/-- Every step down takes up a character. -/
theorem size_add_length_le (v : Json) (depth : Nat) (rest : Text) :
    v.size + rest.length ≤ (v.write layout depth rest).length := by
  induction v using induct generalizing depth rest with
  | null =>
    simp only [size, write, List.length_cons]
    omega
  | str s =>
    simp only [size, write, quoted, List.length_cons, List.length_append]
    omega
  | arr items ih =>
    cases items with
    | nil =>
      simp only [size, sizeItems, write, List.length_cons]
      omega
    | cons item items =>
      rw [List.forall_mem_cons] at ih
      have hitem := ih.1 (depth + 1)
        (writeItems layout (depth + 1) items (layout.lineBreak depth ++ ']' :: rest))
      have hitems := sizeItems_add_length_le layout ih.2 (depth + 1)
        (layout.lineBreak depth ++ ']' :: rest)
      simp only [size, sizeItems, write, List.length_cons, List.length_append] at hitems ⊢
      omega
  | obj members ih =>
    match members with
    | [] =>
      simp only [size, sizeMembers, write, List.length_cons]
      omega
    | (key, value) :: members =>
      rw [List.forall_mem_cons] at ih
      have hvalue := ih.1 (depth + 1)
        (writeMembers layout (depth + 1) members (layout.lineBreak depth ++ '\x7d' :: rest))
      have hmembers := sizeMembers_add_length_le layout ih.2 (depth + 1)
        (layout.lineBreak depth ++ '\x7d' :: rest)
      simp only [size, sizeMembers, write, List.length_cons, List.length_append]
        at hvalue hmembers ⊢
      omega

/-! ### Reading what is written -/

/-- The first character of a value is no white space, and it ends no array. -/
theorem exists_write_eq_cons (v : Json) (depth : Nat) (rest : Text) :
    ∃ c s, v.write layout depth rest = c :: s ∧ isSpace c = false ∧ c ≠ ']' := by
  match v with
  | .null => exact ⟨_, _, rfl, by decide, by decide⟩
  | .str s => exact ⟨_, _, rfl, by decide, by decide⟩
  | .arr [] => exact ⟨_, _, rfl, by decide, by decide⟩
  | .arr (item :: items) => exact ⟨_, _, rfl, by decide, by decide⟩
  | .obj [] => exact ⟨_, _, rfl, by decide, by decide⟩
  | .obj ((key, value) :: members) => exact ⟨_, _, rfl, by decide, by decide⟩

/-- `v.ReadsBack layout`: where `v` is written it is read, if the bound is large enough. -/
def ReadsBack (layout : Layout) (v : Json) : Prop :=
  ∀ (bound : Nat), v.size ≤ bound → ∀ (depth : Nat) (rest : Text),
    readValue? bound (v.write layout depth rest) = some (v, rest)

variable {layout}

/-- Every value takes at least one step. -/
theorem ReadsBack.of_succ {v : Json}
    (h : ∀ bound, v.size ≤ bound + 1 → ∀ (depth : Nat) (rest : Text),
      readValue? (bound + 1) (v.write layout depth rest) = some (v, rest)) : ReadsBack layout v := by
  intro bound hbound
  have hsize : 0 < v.size := by
    cases v <;> rw [size] <;> omega
  obtain ⟨bound, rfl⟩ : ∃ b, bound = b + 1 := ⟨bound - 1, by omega⟩
  exact h bound hbound

theorem readItems?_write {item : Json} {items : List Json}
    (h : ∀ v ∈ item :: items, ReadsBack layout v) {gap : Text}
    (hgap : ∀ c ∈ gap, isSpace c = true) (bound : Nat) (hbound : sizeItems (item :: items) ≤ bound)
    (depth : Nat) (rest : Text) :
    readItems? bound (item.write layout depth
      (writeItems layout depth items (gap ++ ']' :: rest))) = some (item :: items, rest) := by
  induction items generalizing item bound with
  | nil =>
    simp only [sizeItems] at hbound
    obtain ⟨bound, rfl⟩ : ∃ b, bound = b + 1 := ⟨bound - 1, by omega⟩
    have hitem := h item List.mem_cons_self bound (by omega) depth (gap ++ ']' :: rest)
    rw [writeItems, readItems?, hitem]
    simp only [Option.bind_eq_bind, Option.bind_some]
    rw [skipSpace_append hgap, skipSpace_cons (by decide)]
    rfl
  | cons next items ih =>
    rw [sizeItems] at hbound
    obtain ⟨bound, rfl⟩ : ∃ b, bound = b + 1 := ⟨bound - 1, by omega⟩
    have hitem := h item List.mem_cons_self bound (by omega) depth
      (writeItems layout depth (next :: items) (gap ++ ']' :: rest))
    have hitems := ih (fun v hv => h v (List.mem_cons_of_mem _ hv)) bound (by omega)
    rw [readItems?, hitem]
    simp only [Option.bind_eq_bind, Option.bind_some]
    rw [writeItems, skipSpace_cons (by decide)]
    simp only
    rw [readItems?_append (isSpace_of_mem_lineBreak layout depth), hitems]
    rfl

/-- A member is its key, a colon and its value; then the next one is read, or the object ends. -/
theorem readMembers?_member {value : Json} (h : ReadsBack layout value) {bound : Nat}
    (hbound : value.size ≤ bound) (key : Text) (depth : Nat) (rest : Text) :
    readMembers? (bound + 1) (quoted key ++ layout.colon ++ value.write layout depth rest) =
      match skipSpace rest with
      | '\x7d' :: r => some ([(key, value)], r)
      | ',' :: r => (readMembers? bound r).bind fun p => some ((key, value) :: p.1, p.2)
      | _ => none := by
  obtain ⟨gap, hcolon, hgap⟩ : ∃ gap, layout.colon = ':' :: gap ∧ ∀ c ∈ gap, isSpace c = true := by
    cases layout with
    | compact => exact ⟨[], rfl, by simp⟩
    | indented => exact ⟨[' '], rfl, by simp [isSpace]⟩
  have hvalue : readValue? bound (gap ++ value.write layout depth rest) = some (value, rest) := by
    rw [readValue?_append hgap, h bound hbound depth rest]
  have hkey : quoted key ++ layout.colon ++ value.write layout depth rest =
      '"' :: (key.flatMap escaped ++ '"' :: ':' :: (gap ++ value.write layout depth rest)) := by
    simp [quoted, hcolon]
  rw [hkey, readMembers?, skipSpace_cons (by decide)]
  simp only [readString?_flatMap_escaped, Option.bind_eq_bind, Option.bind_some]
  rw [skipSpace_cons (by decide)]
  exact congrArg (Option.bind · _) hvalue

theorem readMembers?_write {key : Text} {value : Json} {members : List (Text × Json)}
    (h : ∀ m ∈ (key, value) :: members, ReadsBack layout m.2) {gap : Text}
    (hgap : ∀ c ∈ gap, isSpace c = true) (bound : Nat)
    (hbound : sizeMembers ((key, value) :: members) ≤ bound) (depth : Nat) (rest : Text) :
    readMembers? bound (quoted key ++ layout.colon ++ value.write layout depth
      (writeMembers layout depth members (gap ++ '\x7d' :: rest))) =
        some ((key, value) :: members, rest) := by
  induction members generalizing key value bound with
  | nil =>
    have hvalue : ReadsBack layout value := h (key, value) List.mem_cons_self
    simp only [sizeMembers] at hbound
    obtain ⟨bound, rfl⟩ : ∃ b, bound = b + 1 := ⟨bound - 1, by omega⟩
    rw [readMembers?_member hvalue (by omega), writeMembers,
      skipSpace_append hgap, skipSpace_cons (by decide)]
    rfl
  | cons next members ih =>
    obtain ⟨nextKey, nextValue⟩ := next
    have hvalue : ReadsBack layout value := h (key, value) List.mem_cons_self
    rw [sizeMembers] at hbound
    obtain ⟨bound, rfl⟩ : ∃ b, bound = b + 1 := ⟨bound - 1, by omega⟩
    have hmembers := ih (fun m hm => h m (List.mem_cons_of_mem _ hm)) bound (by omega)
    rw [readMembers?_member hvalue (by omega), writeMembers,
      skipSpace_cons (by decide)]
    simp only [List.append_assoc]
    rw [readMembers?_append (isSpace_of_mem_lineBreak layout depth), ← List.append_assoc, hmembers]
    rfl

/-- **A value is read where it is written**, in either layout and whatever text follows it. -/
theorem readValue?_write (v : Json) : ReadsBack layout v := by
  induction v using induct with
  | null =>
    refine .of_succ fun bound _ depth rest => ?_
    rw [write, readValue?, skipSpace_cons (by decide)]
    rfl
  | str s =>
    refine .of_succ fun bound _ depth rest => ?_
    rw [write, quoted, List.cons_append, readValue?, skipSpace_cons (by decide)]
    simp only [List.append_assoc, List.singleton_append, readString?_flatMap_escaped]
    rfl
  | arr items ih =>
    refine .of_succ fun bound hbound depth rest => ?_
    rw [size] at hbound
    cases items with
    | nil =>
      rw [write, readValue?, skipSpace_cons (by decide)]
      simp only
      rw [skipSpace_cons (by decide)]
      rfl
    | cons item items =>
      have hgap := isSpace_of_mem_lineBreak layout depth
      have hitems := readItems?_write ih hgap bound (by omega) (depth + 1) rest
      obtain ⟨c, s, hwrite, hspace, hc⟩ := exists_write_eq_cons layout item (depth + 1)
        (writeItems layout (depth + 1) items (layout.lineBreak depth ++ ']' :: rest))
      rw [write, readValue?, skipSpace_cons (by decide)]
      simp only
      rw [skipSpace_append (isSpace_of_mem_lineBreak layout (depth + 1)),
        readItems?_append (isSpace_of_mem_lineBreak layout (depth + 1)), hitems, hwrite,
        skipSpace_cons hspace]
      split
      · rename_i r hr
        exact absurd (List.cons.inj hr).1 hc
      · rfl
  | obj members ih =>
    refine .of_succ fun bound hbound depth rest => ?_
    rw [size] at hbound
    match members with
    | [] =>
      rw [write, readValue?, skipSpace_cons (by decide)]
      simp only
      rw [skipSpace_cons (by decide)]
      rfl
    | (key, value) :: members =>
      have hgap := isSpace_of_mem_lineBreak layout depth
      have hmembers := readMembers?_write ih hgap bound (by omega) (depth + 1) rest
      rw [write, readValue?, skipSpace_cons (by decide)]
      simp only [List.append_assoc] at hmembers ⊢
      rw [skipSpace_append (isSpace_of_mem_lineBreak layout (depth + 1)),
        readMembers?_append (isSpace_of_mem_lineBreak layout (depth + 1)), hmembers, quoted,
        List.cons_append, skipSpace_cons (by decide)]
      rfl

end Write

/-- **Reading is the inverse of printing.** -/
theorem read?_render (layout : Layout) (v : Json) : read? (v.render layout) = some v := by
  have hbound : v.size + 0 ≤ (v.write layout 0 []).length := size_add_length_le layout v 0 []
  have hread : ReadsBack layout v := readValue?_write v
  rw [read?, render, hread _ (by omega)]
  rfl

/-- So a value can be told from its text, whatever the layout. -/
theorem eq_of_render_eq {layout layout' : Layout} {v w : Json}
    (h : v.render layout = w.render layout') : v = w := by
  have hread := read?_render layout v
  rw [h, read?_render] at hread
  exact (Option.some.inj hread).symm

end Criteria.Json
