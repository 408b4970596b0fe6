/-
The bytes of a text in UTF-8. A character below U+0080 is the one byte with its number; every other
character is made of bytes from 0x80 up. So a byte below 0x80 is never part of a longer character
(`utf8EncodeChar_cases`), and whoever looks for one finds a character.
-/
import Criteria.Text.Basic

set_option autoImplicit false

namespace Criteria.Text

/-- The bytes of a text in UTF-8. -/
def bytes (s : Text) : List UInt8 := s.flatMap String.utf8EncodeChar

@[simp] theorem bytes_nil : bytes [] = [] := rfl

@[simp] theorem bytes_cons (c : Char) (s : Text) :
    bytes (c :: s) = String.utf8EncodeChar c ++ bytes s := rfl

theorem le_ofNat_of_le {n : Nat} (hlo : 128 ≤ n) (hhi : n < 256) : 128 ≤ UInt8.ofNat n := by
  rw [UInt8.le_iff_toNat_le, UInt8.toNat_ofNat']
  have hsize : (128 : UInt8).toNat = 128 := rfl
  omega

/-- A character is one byte with its number, or bytes that are all 0x80 or above. -/
theorem utf8EncodeChar_cases (c : Char) :
    (c.toNat < 128 ∧ String.utf8EncodeChar c = [UInt8.ofNat c.toNat]) ∨
      (128 ≤ c.toNat ∧ ∀ b ∈ String.utf8EncodeChar c, 128 ≤ b) := by
  have hval : c.val.toNat = c.toNat := rfl
  rw [String.utf8EncodeChar, hval]
  -- The first byte of two, three or four is at least 192, and every later one at least 128.
  split
  · exact .inl ⟨by omega, rfl⟩
  · refine .inr ⟨by omega, ?_⟩
    split
    · simp only [List.forall_mem_cons, List.not_mem_nil, false_implies, implies_true, and_true]
      exact ⟨le_ofNat_of_le (by omega) (by omega), le_ofNat_of_le (by omega) (by omega)⟩
    · split
      · simp only [List.forall_mem_cons, List.not_mem_nil, false_implies, implies_true, and_true]
        exact ⟨le_ofNat_of_le (by omega) (by omega), le_ofNat_of_le (by omega) (by omega),
          le_ofNat_of_le (by omega) (by omega)⟩
      · simp only [List.forall_mem_cons, List.not_mem_nil, false_implies, implies_true, and_true]
        exact ⟨le_ofNat_of_le (by omega) (by omega), le_ofNat_of_le (by omega) (by omega),
          le_ofNat_of_le (by omega) (by omega), le_ofNat_of_le (by omega) (by omega)⟩

/-- A character below U+0080 in front is a byte in front. -/
theorem bytes_cons_of_lt {c : Char} (hc : c.toNat < 128) (s : Text) :
    bytes (c :: s) = UInt8.ofNat c.toNat :: bytes s := by
  rcases utf8EncodeChar_cases c with ⟨-, hsingle⟩ | ⟨hlarge, -⟩
  · rw [bytes_cons, hsingle, List.singleton_append]
  · omega

/-- The bytes of a character from U+0080 up are 0x80 or above. -/
theorem le_of_mem_utf8EncodeChar {c : Char} (hc : 128 ≤ c.toNat) :
    ∀ b ∈ String.utf8EncodeChar c, 128 ≤ b := by
  rcases utf8EncodeChar_cases c with ⟨hsmall, -⟩ | ⟨-, hbytes⟩
  · omega
  · exact hbytes

theorem utf8Size_of_lt {c : Char} (hc : c.toNat < 128) : c.utf8Size = 1 :=
  Char.utf8Size_eq_one_iff.mpr (UInt32.le_iff_toNat_le.mpr (Nat.le_of_lt_succ hc))

/-- The byte of a character below U+0080 is in no longer character. -/
theorem ofNat_ne_of_mem {l c : Char} {b : UInt8} (hl : l.toNat < 128) (hc : 128 ≤ c.toNat)
    (hb : b ∈ String.utf8EncodeChar c) : UInt8.ofNat l.toNat ≠ b := by
  rintro rfl
  have hlarge := UInt8.le_iff_toNat_le.mp (le_of_mem_utf8EncodeChar hc _ hb)
  rw [UInt8.toNat_ofNat'] at hlarge
  have hsize : (128 : UInt8).toNat = 128 := rfl
  omega

/-- Characters below U+0080 are told apart by their bytes. -/
theorem eq_of_ofNat_eq {c d : Char} (hc : c.toNat < 128) (hd : d.toNat < 128)
    (h : UInt8.ofNat c.toNat = UInt8.ofNat d.toNat) : c = d := by
  have hnat := congrArg UInt8.toNat h
  rw [UInt8.toNat_ofNat', UInt8.toNat_ofNat'] at hnat
  exact Char.toNat_inj.mp (by omega)

end Criteria.Text
