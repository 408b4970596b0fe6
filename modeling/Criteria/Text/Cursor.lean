/-
Reading a text by the offsets of its bytes. An offset is only a number: nothing about it says that it
is a boundary between two characters, or lies in the text at all. A slice between two offsets can be
taken only if both are boundaries and the first is not behind the second, and a cursor is to stand at
boundaries only. So whatever is done at an offset may be at fault here, and a fault is never repaired:
a run that ends without one has taken no slice that is not there (`Fault.slice`), and every cursor that
it moved came to stand at a boundary (`Fault.offset`).

Letters are compared byte by byte in lower case, and a separator is looked for byte by byte. What is
found in this way might start or end anywhere; that it does so at boundaries is not built in but has to
be proved.
-/
import Criteria.Text.Blank
import Criteria.Text.Bytes

set_option autoImplicit false

namespace Criteria.Text

/-! ## Faults -/

/-- What must not happen when a text is read by offsets. -/
inductive Fault where
  /-- A slice is taken between offsets that are no boundaries or stand the wrong way round. -/
  | slice (start stop : Nat)
  /-- A cursor is moved to an offset that is no boundary. -/
  | offset (pos : Nat)
  /-- A turn of a loop leaves as much to be read as there was before it. -/
  | stuck (pos : Nat)
  deriving DecidableEq, Repr

/-! ## Boundaries -/

/-- Splits a text behind its first `n` bytes, if these are whole characters. -/
def splitAt? (n : Nat) : Text → Option (Text × Text)
  | [] => if n = 0 then some ([], []) else none
  | c :: s =>
    if n = 0 then some ([], c :: s)
    else if c.utf8Size ≤ n then (splitAt? (n - c.utf8Size) s).map fun (w, r) => (c :: w, r)
    else none

/-- The two parts give the text back, and the first one has the bytes asked for. -/
theorem eq_of_splitAt? {n : Nat} {s w r : Text} (h : splitAt? n s = some (w, r)) :
    s = w ++ r ∧ byteSize w = n := by
  induction s generalizing n w with
  | nil =>
    simp only [splitAt?, Option.ite_none_right_eq_some, Option.some.injEq, Prod.mk.injEq] at h
    obtain ⟨rfl, rfl, rfl⟩ := h
    exact ⟨rfl, rfl⟩
  | cons c s ih =>
    unfold splitAt? at h
    split at h
    · rename_i hzero
      obtain ⟨rfl, rfl⟩ := Prod.mk.inj (Option.some.inj h)
      exact ⟨rfl, hzero.symm⟩
    · split at h
      · rename_i hle
        obtain ⟨⟨w', r'⟩, hsplit, heq⟩ := Option.map_eq_some_iff.mp h
        obtain ⟨rfl, rfl⟩ := Prod.mk.inj heq
        obtain ⟨rfl, hsize⟩ := ih hsplit
        refine ⟨rfl, ?_⟩
        rw [byteSize, hsize]
        omega
      · cases h

/-- Every part of a text at its start can be split off. -/
theorem splitAt?_append (w r : Text) : splitAt? (byteSize w) (w ++ r) = some (w, r) := by
  induction w with
  | nil => cases r <;> rfl
  | cons c w ih =>
    have hpos := c.utf8Size_pos
    rw [List.cons_append, splitAt?, byteSize, if_neg (by omega), if_pos (by omega),
      Nat.add_sub_cancel_left, ih]
    rfl

/-- An offset is a boundary if it lies between two characters of the text or at one of its ends. -/
def Boundary (s : Text) (n : Nat) : Prop := ∃ w r, s = w ++ r ∧ byteSize w = n

theorem boundary_iff {s : Text} {n : Nat} : (splitAt? n s).isSome ↔ Boundary s n := by
  constructor
  · intro h
    obtain ⟨⟨w, r⟩, hsplit⟩ := Option.isSome_iff_exists.mp h
    exact ⟨w, r, eq_of_splitAt? hsplit⟩
  · rintro ⟨w, r, rfl, rfl⟩
    rw [splitAt?_append]
    rfl

instance (s : Text) (n : Nat) : Decidable (Boundary s n) := decidable_of_iff _ boundary_iff

theorem Boundary.le {s : Text} {n : Nat} (h : Boundary s n) : n ≤ byteSize s := by
  obtain ⟨w, r, rfl, rfl⟩ := h
  rw [byteSize_append]
  exact Nat.le_add_right _ _

/-- Inside a character of several bytes there is no boundary. -/
example : ¬ Boundary "é and".toList 1 ∧ Boundary "é and".toList 2 := by decide

/-! ## Slices and searches -/

/-- Takes the part of a text between two offsets. -/
def slice (s : Text) (start stop : Nat) : Except Fault Text :=
  if start ≤ stop then
    match splitAt? start s with
    | some (_, r) =>
      match splitAt? (stop - start) r with
      | some (w, _) => .ok w
      | none => .error (.slice start stop)
    | none => .error (.slice start stop)
  else .error (.slice start stop)

/-- The byte of a letter in lower case; every other byte is left as it is. -/
def lowerByte (b : UInt8) : UInt8 := if 65 ≤ b ∧ b ≤ 90 then b + 32 else b

/-- The number of bytes before the first occurrence of `sep`, which is not empty. -/
def find? (sep : List UInt8) : List UInt8 → Option Nat
  | [] => none
  | b :: bs => if sep.isPrefixOf (b :: bs) then some 0 else (find? sep bs).map (· + 1)

/-! ## Cursors -/

/-- An offset in a text. -/
structure Cursor where
  /-- The whole text. -/
  text : Text
  /-- The number of bytes before the cursor. -/
  pos : Nat
  deriving DecidableEq, Repr

namespace Cursor

/-- The number of bytes behind a cursor. -/
def left (k : Cursor) : Nat := k.text.byteSize - k.pos

/-- Whether nothing is behind a cursor. -/
def atEnd (k : Cursor) : Bool := k.text.byteSize ≤ k.pos

/-- The text behind a cursor. -/
def rest (k : Cursor) : Except Fault Text := k.text.slice k.pos k.text.byteSize

/-- The character right behind a cursor. -/
def next (k : Cursor) : Except Fault (Option Char) := return (← k.rest).head?

/-- The character right before a cursor. -/
def previous (k : Cursor) : Except Fault (Option Char) := return (← k.text.slice 0 k.pos).getLast?

/-- Moves a cursor forward by a number of bytes. Nothing needs the boundary until a slice is taken
there; it is asked for at once, so that no cursor that was moved stands anywhere else. -/
def advance (k : Cursor) (n : Nat) : Except Fault Cursor :=
  if Boundary k.text (k.pos + n) then .ok ⟨k.text, k.pos + n⟩ else .error (.offset (k.pos + n))

/-- A cursor that was moved stands at a boundary. -/
theorem boundary_of_advance {k k' : Cursor} {n : Nat} (h : k.advance n = .ok k') :
    k' = ⟨k.text, k.pos + n⟩ ∧ Boundary k'.text k'.pos := by
  unfold advance at h
  split at h
  · rename_i hboundary
    obtain rfl := Except.ok.inj h
    exact ⟨rfl, hboundary⟩
  · cases h

theorem left_lt_of_advance {k k' : Cursor} {n : Nat} (h : k.advance n = .ok k') (hn : 0 < n) :
    k'.left < k.left := by
  obtain ⟨rfl, hboundary⟩ := boundary_of_advance h
  have hle : k.pos + n ≤ k.text.byteSize := hboundary.le
  show k.text.byteSize - (k.pos + n) < k.text.byteSize - k.pos
  omega

/-- Where a reading leaves a cursor that stays if nothing is found. -/
def orStay (k : Cursor) (read : Except Fault (Option Cursor)) : Except Fault Cursor :=
  return (← read).getD k

/-- Moves a cursor behind the next character. -/
def bump (k : Cursor) : Except Fault (Option Cursor) := do
  let some c ← k.next | return none
  return some (← k.advance c.utf8Size)

/-- Whether a literal stands behind a cursor, in any letter case. -/
def peek (k : Cursor) (lit : Text) : Except Fault Bool :=
  return (lit.bytes.map lowerByte).isPrefixOf ((← k.rest).bytes.map lowerByte)

/-- Moves a cursor behind a literal, in any letter case. -/
def consume (k : Cursor) (lit : Text) : Except Fault (Option Cursor) := do
  if ← k.peek lit then return some (← k.advance lit.byteSize) else return none

/-- Moves a cursor behind a character. -/
def consumeChar (k : Cursor) (c : Char) : Except Fault (Option Cursor) := do
  if (← k.next) = some c then return some (← k.advance c.utf8Size) else return none

/-- Moves a cursor behind white space. -/
def skipBlank (k : Cursor) : Except Fault Cursor :=
  match k.next with
  | .error f => .error f
  | .ok none => .ok k
  | .ok (some c) =>
    if isBlank c then
      match _h : k.advance c.utf8Size with
      | .error f => .error f
      | .ok k' => k'.skipBlank
    else .ok k
termination_by k.left
decreasing_by exact left_lt_of_advance _h c.utf8Size_pos

/-- Captures the text up to the first occurrence of `sep`, and moves a cursor there. -/
def captureUntil (k : Cursor) (sep : Text) : Except Fault (Option (Text × Cursor)) := do
  let some offset := find? sep.bytes (← k.rest).bytes | return none
  let stop ← k.advance offset
  return some (← k.text.slice k.pos stop.pos, stop)

end Cursor

end Criteria.Text
